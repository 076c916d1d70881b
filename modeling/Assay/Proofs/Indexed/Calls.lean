-- A parser whose methods are called in any order. Each call reads from the
-- head on, up to the first end mark, which it never passes, so it has an
-- answer whatever was called before, and the whole program stays readable.
import Mathlib.Data.List.Induction
import Assay.Proofs.Indexed.Parse

namespace Assay

/-! ## Calls and their answers -/

/-- A call of a method of the parser. -/
inductive ParserCall where
  | program
  | statement
  | assignment
  | expression
  | value (judged : Bool)
  | recover
  | skipNewlines
  | advance
  deriving DecidableEq, Repr

/-- What a call gives back. A recovery gives nothing back but its record. -/
inductive ParserAnswer where
  | program (derivation : Derivation)
  | derived (result : Except Diagnostic (Option Node))
  | recovered (record : Recovery)
  | passed (token : Token)
  | nothing

namespace Parser

/-- The answer to a call, and the parser after it. -/
def call (call : ParserCall) (parser : Parser) : ParserAnswer × Parser :=
  match call with
  | .program => parser.program.map .program id
  | .statement => parser.statement.map .derived id
  | .assignment => parser.assignment.map (fun result => .derived (result.map some)) id
  | .expression => parser.expression.map (fun result => .derived (result.map some)) id
  | .value judged => (parser.value judged).map (fun result => .derived (result.map some)) id
  | .recover => parser.recover.map .recovered id
  | .skipNewlines => (.nothing, parser.skipNewlines)
  | .advance => parser.advance.map .passed id

/-- A parser of these tokens after some calls. -/
def after (tokens : List Token) (calls : List ParserCall) : Parser :=
  calls.foldl (fun parser call => (parser.call call).2) (.ofTokens tokens)

theorem after_snoc (tokens : List Token) (calls : List ParserCall) (last : ParserCall) :
    after tokens (calls ++ [last]) = ((after tokens calls).call last).2 := by
  rw [after, List.foldl_append]
  rfl

end Parser

namespace Indexed

/-- The answer to a call, and the head after it, if nothing that is looked up is missing and every
loop ends. -/
def call (tokens : List Token) (call : ParserCall) (head : Head) : Option (ParserAnswer × Head) :=
  match call with
  | .program => do
    let (found, head) ← statements tokens [] ⟨0, [], []⟩
    some (.program ⟨found, head.reports, head.recoveries⟩, head)
  | .statement => (statement tokens head).map (Prod.map .derived id)
  | .assignment =>
    (assignment tokens head).map (Prod.map (fun result => .derived (result.map some)) id)
  | .expression =>
    (expression tokens head).map (Prod.map (fun result => .derived (result.map some)) id)
  | .value judged =>
    (value tokens judged head).map (Prod.map (fun result => .derived (result.map some)) id)
  | .recover => do
    let head ← recover tokens head
    let record ← head.recoveries.getLast?
    some (.recovered record, head)
  | .skipNewlines => do
    let head ← skipNewlines tokens head
    some (.nothing, head)
  | .advance => (advance tokens head).map (Prod.map .passed id)

/-- The head among these tokens after some calls, if each of them had an answer. -/
def headAfter (tokens : List Token) (calls : List ParserCall) : Option Head :=
  calls.foldlM (fun head next => (call (keptTokens tokens) next head).map Prod.snd) ⟨0, [], []⟩

theorem headAfter_snoc (tokens : List Token) (calls : List ParserCall) (last : ParserCall) :
    headAfter tokens (calls ++ [last]) = (headAfter tokens calls).bind
      (fun head => (call (keptTokens tokens) last head).map Prod.snd) := by
  simp [headAfter, List.foldlM_append]

/-! ## The head and the tape -/

/-- The tape lies over the tokens kept of these, and the head stands where that of the tape
does, with the same findings. -/
structure Matches (tokens : List Token) (parser : Parser) (head : Head) : Prop where
  row_eq : parser.tape.behind.reverse ++ parser.tape.ahead = programTokens tokens
  stop_eq : parser.tape.stop = programEnd tokens
  beyond_eq : parser.tape.beyond = (Tape.ofTokens tokens).beyond
  pos_eq : head.pos = parser.tape.offset
  reports_eq : head.reports = parser.reports

namespace Matches

variable {tokens rest : List Token} {parser : Parser} {head : Head}

theorem start (tokens : List Token) : Matches tokens (.ofTokens tokens) ⟨0, [], []⟩ :=
  ⟨rfl, rfl, rfl, rfl, rfl⟩

theorem tokens_eq (h : Matches tokens parser head) : parser.tape.tokens = keptTokens tokens := by
  rw [Tape.tokens, h.row_eq, h.stop_eq, h.beyond_eq, keptTokens_eq]

theorem standsBefore (h : Matches tokens parser head) :
    StandsBefore (keptTokens tokens) head.pos parser.tape.ahead parser.tape.stop := by
  have hlength := congrArg List.length h.row_eq
  rw [List.length_append, List.length_reverse] at hlength
  have hstart := (standsBefore_start tokens).end_eq
  refine ⟨⟨parser.tape.beyond, ?_⟩, ?_, ?_, ?_⟩
  · rw [h.pos_eq, ← h.tokens_eq, Tape.tokens, Tape.offset, List.append_assoc,
      List.drop_left' (List.length_reverse ..)]
  · rw [h.pos_eq, Tape.offset, hlength, ← hstart, Nat.zero_add]
  · intro token hmem
    exact kind_of_mem_programTokens (h.row_eq ▸ List.mem_append_right _ hmem)
  · rw [h.stop_eq]
    exact programEnd_kind tokens

/-- The head never passes the first end mark. -/
theorem pos_le (h : Matches tokens parser head) : head.pos ≤ endIndex (keptTokens tokens) := by
  have hend := h.standsBefore.end_eq
  omega

theorem rewind (h : Matches tokens parser head) :
    parser.tape.rewind = Tape.ofTokens tokens := by
  rw [Tape.rewind, h.row_eq, h.stop_eq, h.beyond_eq]
  rfl

/-- Tape and head move on together. -/
theorem moveTo (h : Matches tokens parser head) {pos : Nat} {reports : List Diagnostic}
    {recoveries : List Recovery}
    (hpos : StandsBefore (keptTokens tokens) pos rest parser.tape.stop)
    (hrest : rest <:+ parser.tape.ahead) :
    Matches tokens ⟨parser.tape.moveTo rest, reports⟩ ⟨pos, reports, recoveries⟩ := by
  have hrow := Tape.row_moveTo parser.tape hrest
  refine ⟨hrow.trans h.row_eq, h.stop_eq, h.beyond_eq, ?_, rfl⟩
  have hlength := congrArg List.length hrow
  simp only [List.length_append, List.length_reverse] at hlength
  have hahead : (parser.tape.moveTo rest).ahead.length = rest.length := rfl
  have hend := h.standsBefore.end_eq
  have hend' := hpos.end_eq
  have hoffset : head.pos = parser.tape.behind.length := h.pos_eq
  show pos = (parser.tape.moveTo rest).behind.length
  omega

/-- What a reader gives from the head is what an attempt gives on the tape. -/
theorem attempt {α : Type} {read : Token → List Token → Reading α}
    {outcome : Option (Except Diagnostic α × Head)} (h : Matches tokens parser head)
    (hrest : (read parser.tape.stop parser.tape.ahead).rest <:+ parser.tape.ahead)
    (hfollows : Follows (keptTokens tokens) parser.tape.stop head
      (read parser.tape.stop parser.tape.ahead) outcome) :
    ∃ next, outcome = some ((parser.attempt read).1, next) ∧
      Matches tokens (parser.attempt read).2 next := by
  obtain ⟨pos, hpos, houtcome⟩ := hfollows
  refine ⟨_, houtcome, ?_⟩
  rw [Head.move, h.reports_eq]
  exact h.moveTo hpos hrest

/-- Reading the whole program is the same wherever the head stands. -/
theorem program_eq (h : Matches tokens parser head) :
    parser.program = (Parser.ofTokens tokens).program := by
  rw [Parser.program, h.rewind]
  rfl

/-- The step: a call has an answer, the same on both, and leaves them where they match. -/
theorem call (h : Matches tokens parser head) (call : ParserCall) :
    ∃ next, Indexed.call (keptTokens tokens) call head = some ((parser.call call).1, next) ∧
      Matches tokens (parser.call call).2 next := by
  have hbefore := h.standsBefore
  cases call with
  | program =>
    have hfirst := start tokens
    obtain ⟨pos, hpos, hstatements⟩ := statements_eq [] hfirst.standsBefore
    refine ⟨⟨pos, (derive tokens).reports, (derive tokens).recoveries⟩, ?_, ?_⟩
    · rw [Indexed.call, hstatements, Parser.call, h.program_eq]
      rfl
    · rw [Parser.call, h.program_eq]
      exact hfirst.moveTo hpos List.nil_suffix
  | statement =>
    obtain ⟨next, hread, hnext⟩ := h.attempt (readStatement_rest_suffix _ _)
      (follows_statement hbefore)
    exact ⟨next, by rw [Indexed.call, hread]; rfl, hnext⟩
  | assignment =>
    obtain ⟨next, hread, hnext⟩ := h.attempt (readAssignment_rest_suffix _ _)
      (follows_assignment hbefore)
    exact ⟨next, by rw [Indexed.call, hread]; rfl, hnext⟩
  | expression =>
    obtain ⟨next, hread, hnext⟩ := h.attempt (readExpression_rest_suffix _ _)
      (follows_expression hbefore)
    exact ⟨next, by rw [Indexed.call, hread]; rfl, hnext⟩
  | value judged =>
    obtain ⟨next, hread, hnext⟩ := h.attempt (readValue_rest_suffix _ _ _)
      (follows_value judged hbefore)
    exact ⟨next, by rw [Indexed.call, hread]; rfl, hnext⟩
  | recover =>
    obtain ⟨pos, hpos, hrecover⟩ := exists_recover hbefore
    refine ⟨⟨pos, parser.reports, head.recoveries ++
      [Recovery.of parser.tape.stop parser.tape.ahead]⟩, ?_, h.moveTo hpos (recover_suffix _)⟩
    rw [Indexed.call, hrecover, Option.bind_eq_bind, Option.bind_some, List.getLast?_concat,
      h.reports_eq]
    rfl
  | skipNewlines =>
    obtain ⟨pos, hpos, hskip⟩ := exists_skipNewlines hbefore
    refine ⟨⟨pos, parser.reports, head.recoveries⟩, ?_,
      h.moveTo hpos (List.dropWhile_suffix _)⟩
    rw [Indexed.call, hskip, Head.move, List.append_nil, h.reports_eq]
    rfl
  | advance =>
    obtain ⟨pos, hpos, hpassed⟩ := exists_advance hbefore
    refine ⟨⟨pos, parser.reports, head.recoveries⟩, ?_, h.moveTo hpos (List.tail_suffix _)⟩
    rw [Indexed.call, hpassed, Head.move, List.append_nil, h.reports_eq]
    rfl

/-- The run: however many calls there were, head and tape match. -/
theorem exists_headAfter (tokens : List Token) (calls : List ParserCall) :
    ∃ head, headAfter tokens calls = some head ∧
      Matches tokens (Parser.after tokens calls) head := by
  induction calls using List.reverseRecOn with
  | nil => exact ⟨_, rfl, start tokens⟩
  | append_singleton calls last ih =>
    obtain ⟨head, hafter, h⟩ := ih
    obtain ⟨next, hcall, hnext⟩ := h.call last
    refine ⟨next, ?_, ?_⟩
    · rw [headAfter_snoc, hafter, Option.bind_some, hcall]
      rfl
    · rw [Parser.after_snoc]
      exact hnext

end Matches

end Indexed

/-! ## What a call leaves as it was -/

/-- All that a call does to a parser, unless it reads the program: it moves the head on within what
is ahead, and adds findings. -/
theorem Parser.exists_moveTo_of_call (parser : Parser) (call : ParserCall) (h : call ≠ .program) :
    ∃ rest more, rest <:+ parser.tape.ahead ∧
      (parser.call call).2 = ⟨parser.tape.moveTo rest, parser.reports ++ more⟩ := by
  have hmoved : ∀ rest, rest <:+ parser.tape.ahead → ∃ rest' more, rest' <:+ parser.tape.ahead ∧
      ({ parser with tape := parser.tape.moveTo rest } : Parser) =
        ⟨parser.tape.moveTo rest', parser.reports ++ more⟩ :=
    fun rest hrest => ⟨rest, [], hrest, by rw [List.append_nil]⟩
  cases call with
  | program => exact absurd rfl h
  | statement => exact ⟨_, _, readStatement_rest_suffix _ _, rfl⟩
  | assignment => exact ⟨_, _, readAssignment_rest_suffix _ _, rfl⟩
  | expression => exact ⟨_, _, readExpression_rest_suffix _ _, rfl⟩
  | value judged => exact ⟨_, _, readValue_rest_suffix judged _ _, rfl⟩
  | recover => exact hmoved _ (recover_suffix _)
  | skipNewlines => exact hmoved _ (List.dropWhile_suffix _)
  | advance => exact hmoved _ (List.tail_suffix _)

/-- The head is no further back, and no finding is gone or changed. -/
structure Parser.Extends (parser next : Parser) : Prop where
  offset_le : parser.tape.offset ≤ next.tape.offset
  reports_prefix : parser.reports <+: next.reports

theorem Parser.extends_moveTo (parser : Parser) (rest : List Token) (more : List Diagnostic) :
    parser.Extends ⟨parser.tape.moveTo rest, parser.reports ++ more⟩ :=
  ⟨by simp [Tape.offset, Tape.moveTo], List.prefix_append _ _⟩

/-- Only reading the program goes back. -/
theorem Parser.extends_call (parser : Parser) (call : ParserCall) (h : call ≠ .program) :
    parser.Extends (parser.call call).2 := by
  obtain ⟨rest, more, -, hcall⟩ := parser.exists_moveTo_of_call call h
  rw [hcall]
  exact parser.extends_moveTo rest more

/-- The step: no call changes the tokens on the tape. -/
theorem Parser.tokens_call (parser : Parser) (call : ParserCall) :
    (parser.call call).2.tape.tokens = parser.tape.tokens := by
  by_cases h : call = .program
  · subst h
    exact (Tape.tokens_moveTo _ List.nil_suffix).trans (Tape.tokens_rewind _)
  · obtain ⟨rest, more, hrest, hcall⟩ := parser.exists_moveTo_of_call call h
    rw [hcall]
    exact Tape.tokens_moveTo parser.tape hrest

/-- The run: they are those kept at the start. -/
theorem Parser.tokens_after (tokens : List Token) (calls : List ParserCall) :
    (after tokens calls).tape.tokens = keptTokens tokens := by
  induction calls using List.reverseRecOn with
  | nil => exact Tape.tokens_ofTokens tokens
  | append_singleton calls last ih => rw [after_snoc, tokens_call, ih]

/-! ## Where a reading fails -/

/-- If it fails, its finding is the last one and about the first token left. -/
def Reading.FailsInPlace {α : Type} (stop : Token) (reading : Reading α) : Prop :=
  ∀ d, reading.result = .error d →
    reading.reports.getLast? = some d ∧ d.token = reading.rest.headD stop

section FailsInPlace

variable {α β : Type} {stop : Token} {reading : Reading α}

theorem Reading.failsInPlace_done (value : α) (rest : List Token) :
    (Reading.done value rest).FailsInPlace stop := by
  intro d h
  cases h

theorem Reading.failsInPlace_fail (fault : SyntaxFault) (rest : List Token) :
    (Reading.fail fault (rest.headD stop) rest : Reading α).FailsInPlace stop := by
  intro d h
  cases h
  exact ⟨rfl, rfl⟩

theorem Reading.FailsInPlace.after (reports : List Diagnostic) (h : reading.FailsInPlace stop) :
    (reading.after reports).FailsInPlace stop := by
  intro d hfail
  obtain ⟨hlast, htoken⟩ := h d hfail
  refine ⟨?_, htoken⟩
  simp only [Reading.after]
  rw [List.getLast?_append, hlast, Option.some_or]

theorem Reading.FailsInPlace.map (f : α → β) (h : reading.FailsInPlace stop) :
    (reading.map f).FailsInPlace stop := by
  intro d hfail
  have herror : reading.result = .error d := by
    cases hresult : reading.result with
    | error e =>
      simp only [Reading.map, hresult, Except.map, Except.error.injEq] at hfail
      rw [hfail]
    | ok value =>
      simp only [Reading.map, hresult, Except.map, reduceCtorEq] at hfail
  exact h d herror

theorem readValue_failsInPlace (judged : Bool) (stop : Token) (ahead : List Token) :
    (readValue judged stop ahead).FailsInPlace stop := by
  cases ahead with
  | nil => exact Reading.failsInPlace_fail .missingValue []
  | cons token rest =>
    rw [readValue]
    split
    · exact Reading.failsInPlace_fail .missingValue (token :: rest)
    · exact (Reading.failsInPlace_done _ _).after _

theorem readAssignment_failsInPlace (stop : Token) (ahead : List Token) :
    (readAssignment stop ahead).FailsInPlace stop :=
  ((readValue_failsInPlace false stop ahead.tail.tail).map _).after _

theorem readExpression_failsInPlace (stop : Token) (ahead : List Token) :
    (readExpression stop ahead).FailsInPlace stop := by
  rw [readExpression]
  apply Reading.FailsInPlace.after
  split
  · split
    · exact (Reading.failsInPlace_fail .assignedLiteral _).after _
    · exact readValue_failsInPlace true stop ahead
  · exact readValue_failsInPlace true stop ahead

theorem readStatement_failsInPlace (stop : Token) (ahead : List Token) :
    (readStatement stop ahead).FailsInPlace stop := by
  rw [readStatement]
  split
  · exact (Reading.failsInPlace_done _ _).after _
  split
  · exact (readAssignment_failsInPlace stop ahead).map some
  split
  · exact (readExpression_failsInPlace stop ahead).map some
  split
  · exact Reading.failsInPlace_fail _ ahead
  · exact Reading.failsInPlace_fail _ ahead

/-- After an attempt that failed, its finding is the last one, and its token the current one. -/
theorem Parser.attempt_failed {read : Token → List Token → Reading α} (parser : Parser)
    (hread : (read parser.tape.stop parser.tape.ahead).FailsInPlace parser.tape.stop)
    {d : Diagnostic} (h : (parser.attempt read).1 = .error d) :
    (parser.attempt read).2.reports.getLast? = some d ∧
      (parser.attempt read).2.tape.current = d.token := by
  obtain ⟨hlast, htoken⟩ := hread d h
  refine ⟨?_, htoken.symm⟩
  rw [attempt, List.getLast?_append, hlast, Option.some_or]

end FailsInPlace

theorem Parser.call_failed (parser : Parser) (call : ParserCall) {d : Diagnostic}
    (h : (parser.call call).1 = .derived (.error d)) :
    (parser.call call).2.reports.getLast? = some d ∧
      (parser.call call).2.tape.current = d.token := by
  have hmapped : ∀ {result : Except Diagnostic Node},
      ParserAnswer.derived (result.map some) = .derived (.error d) → result = .error d := by
    intro result hresult
    cases result with
    | error e =>
      cases hresult
      rfl
    | ok node => cases hresult
  cases call with
  | program => cases h
  | statement =>
    exact parser.attempt_failed (readStatement_failsInPlace _ _) (ParserAnswer.derived.inj h)
  | assignment => exact parser.attempt_failed (readAssignment_failsInPlace _ _) (hmapped h)
  | expression => exact parser.attempt_failed (readExpression_failsInPlace _ _) (hmapped h)
  | value judged => exact parser.attempt_failed (readValue_failsInPlace _ _ _) (hmapped h)
  | recover => cases h
  | skipNewlines => cases h
  | advance => cases h

/-! ## The law -/

/-- Whatever was called before, in whatever order, the parser goes on. Nothing that it looked up
was missing and all its loops ended; its tokens are the same; it stands at the first end mark or
before it. The program is then read as by a parser just made. Any next call has an answer. Unless
it reads the program, it goes back nowhere and keeps every finding; and if it fails, its finding
is the last one, and the head is on the token of it. -/
theorem a_parser_takes_its_calls_in_any_order (tokens : List Token) (calls : List ParserCall) :
    ∃ head, Indexed.headAfter tokens calls = some head ∧
      head.pos = (Parser.after tokens calls).tape.offset ∧
      head.reports = (Parser.after tokens calls).reports ∧
      (Parser.after tokens calls).tape.tokens = keptTokens tokens ∧
      head.pos ≤ Indexed.endIndex (keptTokens tokens) ∧
      Indexed.endIndex (keptTokens tokens) < (keptTokens tokens).length ∧
      (Parser.after tokens calls).call .program = (Parser.ofTokens tokens).call .program ∧
      ((Parser.ofTokens tokens).call .program).1 = .program (derive tokens) ∧
      ∀ call, ∃ answer next,
        Indexed.call (keptTokens tokens) call head = some (answer, next) ∧
        (Parser.after tokens calls).call call =
          (answer, Parser.after tokens (calls ++ [call])) ∧
        (call ≠ .program → head.pos ≤ next.pos ∧ head.reports <+: next.reports) ∧
        ∀ d, answer = .derived (.error d) →
          next.reports.getLast? = some d ∧ (keptTokens tokens)[next.pos]? = some d.token := by
  obtain ⟨head, hafter, h⟩ := Indexed.Matches.exists_headAfter tokens calls
  have hend : Indexed.endIndex (keptTokens tokens) < (keptTokens tokens).length := by
    obtain ⟨mark, hmem, hkind⟩ := Tape.exists_endMark_mem_keptTokens tokens
    exact List.findIdx_lt_length_of_exists ⟨mark, hmem, decide_eq_true hkind⟩
  have hprogram : (Parser.after tokens calls).call .program =
      (Parser.ofTokens tokens).call .program := by
    rw [Parser.call, h.program_eq]
    rfl
  refine ⟨head, hafter, h.pos_eq, h.reports_eq, Parser.tokens_after tokens calls, h.pos_le,
    hend, hprogram, rfl, ?_⟩
  intro call
  obtain ⟨next, hcall, hnext⟩ := h.call call
  refine ⟨_, next, hcall, by rw [Parser.after_snoc], ?_, ?_⟩
  · intro hother
    obtain ⟨hoffset, hreports⟩ := (Parser.after tokens calls).extends_call call hother
    rw [h.pos_eq, hnext.pos_eq, h.reports_eq, hnext.reports_eq]
    exact ⟨hoffset, hreports⟩
  · intro d hfailed
    obtain ⟨hlast, htoken⟩ := Parser.call_failed _ call hfailed
    have hcurrent := Indexed.current_eq hnext.standsBefore
    rw [Indexed.current] at hcurrent
    refine ⟨by rw [hnext.reports_eq, hlast], ?_⟩
    rw [hcurrent, ← htoken]
    rfl

/-- A name, an end mark, and a number beyond it. -/
def earlyEndTokens : List Token :=
  [⟨.identifier, "a", ⟨1, 1⟩, none⟩, .endMark ⟨1, 2⟩, ⟨.integer, "1", ⟨1, 2⟩, none⟩]

/-- An assignment that is asked for where there is none breaks off at the early end mark, and
nothing called after it gets past this mark. -/
theorem calls_stop_at_an_early_end_mark :
    ∃ head, Indexed.headAfter earlyEndTokens [.assignment, .advance, .recover] = some head ∧
      head.pos = 1 ∧ Indexed.endIndex (keptTokens earlyEndTokens) = 1 ∧
      head.reports = [SyntaxFault.missingValue.about (.endMark ⟨1, 2⟩)] ∧
      ((Parser.after earlyEndTokens [.assignment, .advance, .recover]).call .program).1 =
        .program (derive earlyEndTokens) := by
  obtain ⟨head, hafter, hpos, hreports, -, -, -, hprogram, hfresh, -⟩ :=
    a_parser_takes_its_calls_in_any_order earlyEndTokens [.assignment, .advance, .recover]
  refine ⟨head, hafter, hpos.trans ?_, by decide, hreports.trans ?_, ?_⟩
  · rfl
  · rfl
  · rw [hprogram, hfresh]

end Assay
