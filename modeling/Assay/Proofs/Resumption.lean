-- Where a recovery ends, and what it is for. From wherever the parser stands it
-- moves on to the nearest safe place, and while a program is read each recovery
-- is for one failure: it starts at the token that the parser failed on.
import Mathlib.Order.Bounds.Defs
import Assay.Proofs.Indexed.Calls
import Assay.Proofs.Segments

namespace Assay

/-! ## Safe places -/

/-- Reading can start anew at an index of the tokens: an end mark stands there, or a literal or
name, or the token before it is a line break. -/
def SafeAt (tokens : List Token) (index : Nat) : Prop :=
  (∃ token ∈ tokens[index]?, token.kind = .endMark) ∨
    (∃ before ∈ tokens[index - 1]?, before.kind = .newline) ∨
      ∃ token ∈ tokens[index]?, token.kind.isLiteral

/-- A recovery leads from one index of the tokens to another: nowhere from an end mark, and else
to the first safe index after its start. Its record names the places of both tokens. -/
structure Recovery.Leads (tokens : List Token) (record : Recovery) (start resumed : Nat) :
    Prop where
  start_eq : tokens[start]?.map Token.position = some record.start
  resumed_eq : tokens[resumed]?.map Token.position = some record.resumed
  stays : (∃ mark ∈ tokens[start]?, mark.kind = .endMark) → resumed = start
  moves : (∃ token ∈ tokens[start]?, token.kind ≠ .endMark) →
    IsLeast {index | start < index ∧ SafeAt tokens index} resumed

/-- The tape over the tokens kept, with its head at an index that is not past the first end
mark. -/
def Tape.atIndex (tokens : List Token) (index : Nat) : Tape :=
  { Tape.ofTokens tokens with
    behind := ((programTokens tokens).take index).reverse
    ahead := (programTokens tokens).drop index }

namespace Indexed

section Stands

variable {tokens ahead : List Token} {stop token before : Token} {pos next : Nat}

theorem StandsBefore.getElem?_pos (h : StandsBefore tokens pos ahead stop) :
    tokens[pos]? = some (ahead.headD stop) := by
  have hcurrent : current tokens ⟨pos, [], []⟩ = some (ahead.headD stop) := current_eq h
  exact hcurrent

theorem StandsBefore.pos_unique (h : StandsBefore tokens pos ahead stop)
    (hnext : StandsBefore tokens next ahead stop) : next = pos := by
  have hend := h.end_eq
  have hend' := hnext.end_eq
  omega

/-- Past the first part of what is ahead, the head stands before the second. -/
theorem StandsBefore.past {passed : List Token}
    (h : StandsBefore tokens pos (passed ++ ahead) stop) :
    StandsBefore tokens (pos + passed.length) ahead stop := by
  obtain ⟨⟨beyond, hrow⟩, hend, hnone, hstop⟩ := h
  refine ⟨⟨beyond, ?_⟩, ?_, fun t ht => hnone t (List.mem_append_right _ ht), hstop⟩
  · rw [← List.drop_drop, hrow, List.append_assoc, List.drop_left]
  · rw [← hend, List.length_append, Nat.add_assoc]

/-- At a token that is no end mark, the tokens on both sides of the head decide. -/
theorem StandsBefore.safeAt_iff {rest : List Token}
    (h : StandsBefore tokens pos (token :: rest) stop) (hbefore : tokens[pos - 1]? = some before) :
    SafeAt tokens pos ↔ before.kind = .newline ∨ token.kind.isLiteral := by
  have hend : token.kind ≠ .endMark := h.no_endMark token List.mem_cons_self
  have htoken : tokens[pos]? = some token := h.next.1
  simp [SafeAt, htoken, hbefore, hend]

theorem StandsBefore.safeAt_stop (h : StandsBefore tokens pos [] stop) : SafeAt tokens pos :=
  Or.inl ⟨stop, h.getElem?_pos, h.stop_kind⟩

end Stands

/-! ## The nearest safe place -/

/-- What is not so at an index is first so after it. -/
theorem isLeast_of_not {p : Nat → Prop} {low least : Nat} (hlow : ¬ p low)
    (h : IsLeast {index | low < index ∧ p index} least) :
    IsLeast {index | low ≤ index ∧ p index} least := by
  obtain ⟨⟨hlt, hleast⟩, hbound⟩ := h
  refine ⟨⟨Nat.le_of_lt hlt, hleast⟩, ?_⟩
  rintro index ⟨hle, hindex⟩
  have hne : low ≠ index := by
    rintro rfl
    exact hlow hindex
  exact hbound ⟨Nat.lt_of_le_of_ne hle hne, hindex⟩

section Nearest

variable {tokens ahead : List Token} {stop before : Token} {pos next : Nat}

/-- The tokens from the first safe place on stand at the least safe index. -/
theorem isLeast_safeFrom (h : StandsBefore tokens pos ahead stop)
    (hbefore : tokens[pos - 1]? = some before)
    (hnext : StandsBefore tokens next (safeFrom before ahead) stop) :
    IsLeast {index | pos ≤ index ∧ SafeAt tokens index} next := by
  induction ahead generalizing pos before with
  | nil =>
    rw [h.pos_unique hnext]
    exact ⟨⟨Nat.le_refl _, h.safeAt_stop⟩, fun index hindex => hindex.1⟩
  | cons token rest ih =>
    have hsafe := h.safeAt_iff hbefore
    rw [safeFrom] at hnext
    by_cases hhere : before.kind = .newline ∨ token.kind.isLiteral
    · rw [if_pos hhere] at hnext
      rw [h.pos_unique hnext]
      exact ⟨⟨Nat.le_refl _, hsafe.mpr hhere⟩, fun index hindex => hindex.1⟩
    · rw [if_neg hhere] at hnext
      exact isLeast_of_not (hsafe.not.mpr hhere) (ih h.next.2 h.next.1 hnext)

/-- Wherever the parser stands, a recovery leads to the tokens that it leaves. -/
theorem StandsBefore.leads (h : StandsBefore tokens pos ahead stop)
    (hnext : StandsBefore tokens next (Assay.recover ahead) stop) :
    (Recovery.of stop ahead).Leads tokens pos next := by
  have hstart := h.getElem?_pos
  refine ⟨by rw [hstart]; rfl, by rw [hnext.getElem?_pos]; rfl, ?_, ?_⟩
  · rintro ⟨mark, hmark, hkind⟩
    cases ahead with
    | nil => exact h.pos_unique hnext
    | cons token rest =>
      rw [Option.mem_def, hstart, Option.some.injEq] at hmark
      rw [← hmark] at hkind
      exact absurd hkind (h.no_endMark token List.mem_cons_self)
  · rintro ⟨token, htoken, hkind⟩
    rw [Option.mem_def, hstart, Option.some.injEq] at htoken
    cases ahead with
    | nil =>
      rw [← htoken] at hkind
      exact absurd h.stop_kind hkind
    | cons token rest => exact isLeast_safeFrom h.next.2 h.next.1 hnext

end Nearest

/-! ## Any cursor -/

section Cursor

variable {tokens : List Token} {index : Nat}

theorem endIndex_keptTokens (tokens : List Token) :
    endIndex (keptTokens tokens) = (programTokens tokens).length := by
  rw [← (standsBefore_start tokens).end_eq, Nat.zero_add]

/-- The tape with its head at an index, and a head there. -/
theorem matches_atIndex (h : index ≤ endIndex (keptTokens tokens)) (reports : List Diagnostic)
    (recoveries : List Recovery) :
    Matches tokens ⟨.atIndex tokens index, reports⟩ ⟨index, reports, recoveries⟩ := by
  rw [endIndex_keptTokens] at h
  refine ⟨?_, rfl, rfl, ?_, rfl⟩
  · rw [Tape.atIndex, List.reverse_reverse, List.take_append_drop]
  · rw [Tape.offset, Tape.atIndex, List.length_reverse, List.length_take, Nat.min_eq_left h]

/-- A head says where that of the tape stands. -/
theorem Matches.tape_eq {parser : Parser} {head : Head} (h : Matches tokens parser head) :
    parser.tape = .atIndex tokens head.pos := by
  have hpassed : parser.tape.behind.reverse.length = head.pos := by
    rw [List.length_reverse, h.pos_eq, Tape.offset]
  rw [Tape.atIndex, ← h.row_eq, List.take_left' hpassed, List.drop_left' hpassed,
    List.reverse_reverse]
  obtain ⟨⟨behind, ahead, stop, beyond⟩, reports⟩ := parser
  exact congrArg₂ (Tape.mk behind ahead) h.stop_eq h.beyond_eq

/-- From any cursor a recovery leads to the nearest safe place, and changes nothing else. -/
theorem exists_recover_atIndex (h : index ≤ endIndex (keptTokens tokens))
    (reports : List Diagnostic) (recoveries : List Recovery) :
    ∃ (resumed : Nat) (record : Recovery),
      record.Leads (keptTokens tokens) index resumed ∧
      Parser.recover ⟨.atIndex tokens index, reports⟩ =
        (record, ⟨.atIndex tokens resumed, reports⟩) ∧
      recover (keptTokens tokens) ⟨index, reports, recoveries⟩ =
        some ⟨resumed, reports, recoveries ++ [record]⟩ := by
  have hmatches := matches_atIndex h reports recoveries
  obtain ⟨resumed, hresumed, hrecover⟩ := exists_recover hmatches.standsBefore
  have hmoved : Matches tokens ⟨(Tape.atIndex tokens index).moveTo _, reports⟩
      ⟨resumed, reports, recoveries⟩ := hmatches.moveTo hresumed (recover_suffix _)
  refine ⟨resumed, _, hmatches.standsBefore.leads hresumed, ?_, hrecover⟩
  rw [← hmoved.tape_eq]
  rfl

end Cursor

/-! ## While a program is read -/

/-- The states in which the rounds of reading a program begin: the statements found so far, and
the head. -/
inductive Reaches (tokens : List Token) : List Node × Head → Prop
  | start : Reaches tokens ([], ⟨0, [], []⟩)
  | again {state next : List Node × Head} (h : Reaches tokens state)
      (hround : statementsRound tokens state = some (.again next)) : Reaches tokens next

/-- In a round of reading a program, after the statements `found`, the next statement fails with
the finding `d`, and the parser recovers from the head `broken`. -/
inductive BreaksOff (tokens : List Token) (found : List Node) (d : Diagnostic) (broken : Head) :
    Prop
  | intro {head start : Head} (hreaches : Reaches tokens (found, head))
      (hbegun : atEnd tokens head = some false) (hskip : skipNewlines tokens head = some start)
      (hmore : atEnd tokens start = some false)
      (hfailed : statement tokens start = some (.error d, broken)) :
      BreaksOff tokens found d broken

section Run

variable {tokens : List Token}

/-- The step: a round that begins among the tokens of the program leaves the head among them. -/
theorem exists_standsBefore_of_round {tokens ahead : List Token} {stop : Token}
    {state next : List Node × Head} (h : StandsBefore tokens state.2.pos ahead stop)
    (hround : statementsRound tokens state = some (.again next)) :
    ∃ after, StandsBefore tokens next.2.pos after stop := by
  obtain ⟨found, head⟩ := state
  rcases statementsRound_ways found h with
    ⟨pos, -, hdone, -⟩ | ⟨part, pos, after, -, hafter, hagain, -⟩
  · rw [hdone] at hround
    cases hround
  · rw [hagain] at hround
    cases hround
    exact ⟨after, hafter⟩

/-- The run: every round begins among the tokens of the program. -/
theorem Reaches.exists_standsBefore {state : List Node × Head}
    (h : Reaches (keptTokens tokens) state) :
    ∃ ahead, StandsBefore (keptTokens tokens) state.2.pos ahead (programEnd tokens) := by
  induction h with
  | start => exact ⟨_, standsBefore_start tokens⟩
  | again _ hround ih =>
    obtain ⟨ahead, hahead⟩ := ih
    exact exists_standsBefore_of_round hahead hround

/-- A statement that fails leaves the head on the token of its finding, which is the last one and
of a failure. -/
theorem exists_standsBefore_of_failed {tokens left : List Token} {stop first : Token}
    {start broken : Head} {d : Diagnostic} (h : StandsBefore tokens start.pos (first :: left) stop)
    (hline : first.kind ≠ .newline) (hfailed : statement tokens start = some (.error d, broken)) :
    ∃ ahead, StandsBefore tokens broken.pos ahead stop ∧ d.token = ahead.headD stop ∧
      d.position = d.token.position ∧ d.problem.code ∈ failureCodes ∧
      broken.reports.getLast? = some d := by
  have hend : first.kind ≠ .endMark := h.no_endMark first List.mem_cons_self
  obtain ⟨last, hlast, houtcome⟩ := follows_statement h
  rw [houtcome, Option.some.injEq, Prod.mk.injEq] at hfailed
  obtain ⟨hresult, rfl⟩ := hfailed
  obtain ⟨begun, ahead, fault, hfailure, rfl, hread⟩ :=
    exists_failure_of_error h.stop_kind hline hend hresult
  rw [hread] at hlast ⊢
  refine ⟨ahead, hlast, rfl, rfl, hfailure.code_mem, ?_⟩
  simp [Head.move]

/-- The parser recovers from where it failed. -/
theorem BreaksOff.exists_standsBefore {found : List Node} {d : Diagnostic} {broken : Head}
    (h : BreaksOff (keptTokens tokens) found d broken) :
    ∃ ahead, StandsBefore (keptTokens tokens) broken.pos ahead (programEnd tokens) ∧
      d.token = ahead.headD (programEnd tokens) ∧ d.position = d.token.position ∧
      d.problem.code ∈ failureCodes ∧ broken.reports.getLast? = some d := by
  cases h with
  | @intro head start hreaches _ hskip hmore hfailed =>
    obtain ⟨ahead, hahead⟩ := hreaches.exists_standsBefore
    obtain ⟨pos, hpos, hskipped⟩ := exists_skipNewlines hahead
    have hhead := List.head?_dropWhile_not (fun token : Token => token.kind = .newline) ahead
    generalize ahead.dropWhile (fun token => token.kind = .newline) = left at *
    have hstart : start = head.move pos [] := Option.some.inj (hskip.symm.trans hskipped)
    have hleft : StandsBefore (keptTokens tokens) start.pos left (programEnd tokens) := by
      rw [hstart]
      exact hpos
    cases left with
    | nil =>
      rw [atEnd_nil hleft] at hmore
      cases hmore
    | cons first rest =>
      have hline : first.kind ≠ .newline := by simpa using hhead
      exact exists_standsBefore_of_failed hleft hline hfailed

/-- The round in which a statement fails goes on with a recovery, and the next one begins where
this ends. -/
theorem BreaksOff.reaches {found : List Node} {d : Diagnostic} {broken next : Head}
    (h : BreaksOff tokens found d broken) (hrecover : recover tokens broken = some next) :
    Reaches tokens (found, next) := by
  cases h with
  | intro hreaches hbegun hskip hmore hfailed =>
    refine hreaches.again ?_
    rw [statementsRound, hbegun, hskip]
    simp [hmore, round, hfailed, hrecover]

end Run

end Indexed

/-! ## One recovery for each failure -/

/-- The recoveries for some findings, one for each and in the same order. Each starts at the token
of its finding, which stands further on than those before, and leads to the nearest safe place. -/
inductive RecoveredInTurn (tokens : List Token) : Nat → List Diagnostic → List Recovery → Prop
  | nil {low : Nat} : RecoveredInTurn tokens low [] []
  | cons {low start resumed : Nat} {d : Diagnostic} {record : Recovery}
      {findings : List Diagnostic} {records : List Recovery} (hlow : low ≤ start)
      (htoken : tokens[start]? = some d.token) (hplace : record.start = d.position)
      (hleads : record.Leads tokens start resumed)
      (hrest : RecoveredInTurn tokens (start + 1) findings records) :
      RecoveredInTurn tokens low (d :: findings) (record :: records)

theorem RecoveredInTurn.mono {tokens : List Token} {low low' : Nat} {findings : List Diagnostic}
    {records : List Recovery} (h : RecoveredInTurn tokens low findings records)
    (hlow : low' ≤ low) : RecoveredInTurn tokens low' findings records := by
  cases h with
  | nil => exact .nil
  | cons hle htoken hplace hleads hrest =>
    exact .cons (Nat.le_trans hlow hle) htoken hplace hleads hrest

/-- Each segment that is given up has its recovery, and no other segment has one. -/
theorem Tiles.recoveredInTurn {tokens ahead : List Token} {stop : Token} {segments : List Segment}
    {pos : Nat} (h : Tiles stop ahead segments)
    (hpos : Indexed.StandsBefore tokens pos ahead stop) :
    RecoveredInTurn tokens pos (segments.filterMap (Segment.failure? stop))
      (outcome stop segments).recoveries := by
  induction h generalizing pos with
  | nil => exact .nil
  | @cons segment after segments hfits hafter ih =>
    have hrest := ih hpos.past
    cases segment with
    | item i => exact hrest.mono (Nat.le_add_right _ _)
    | refused token herror => exact hrest.mono (Nat.le_add_right _ _)
    | discarded begun passed fault =>
      have hpassed : Passed passed after := hfits.2
      rw [Segment.tokens, List.append_assoc] at hpos
      have hbroken := hpos.past
      have hleft : Indexed.StandsBefore tokens (pos + begun.length + passed.length)
          (recover (passed ++ after)) stop := by
        rw [recover_of_passed hpassed]
        exact hbroken.past
      have hleads := hbroken.leads hleft
      rw [hpassed.recovery_eq, hafter.flatMap_tokens] at hleads
      have htoken := hbroken.getElem?_pos
      rw [hpassed.headD_append] at htoken
      refine .cons (Nat.le_add_right _ _) htoken rfl hleads ?_
      -- Only at the end mark is nothing passed, and then nothing is left to fail.
      cases passed with
      | nil =>
        rw [hafter.eq_nil hpos.stop_kind (hpassed.moves rfl)]
        exact .nil
      | cons token passed =>
        refine hrest.mono ?_
        simp only [Segment.tokens, List.length_append, List.length_cons]
        omega

/-! ## The law -/

/-- From any cursor that is not past the first end mark, whatever was found before, a recovery
leads to the nearest safe place and changes no finding. While a program is read, a recovery
is called for where the finding just made is of a failure, with the head on the token of this
finding, and reading goes on from where it leads. So the recoveries of a program are those for its
failures, one for each and in their order. -/
theorem recovery_resumes_at_the_nearest_safe_place (tokens : List Token) :
    (∀ (index : Nat) (reports : List Diagnostic) (recoveries : List Recovery),
      index ≤ Indexed.endIndex (keptTokens tokens) →
      ∃ (resumed : Nat) (record : Recovery),
        record.Leads (keptTokens tokens) index resumed ∧
        Parser.recover ⟨.atIndex tokens index, reports⟩ =
          (record, ⟨.atIndex tokens resumed, reports⟩) ∧
        Indexed.recover (keptTokens tokens) ⟨index, reports, recoveries⟩ =
          some ⟨resumed, reports, recoveries ++ [record]⟩) ∧
      (∀ (found : List Node) (d : Diagnostic) (broken : Indexed.Head),
        Indexed.BreaksOff (keptTokens tokens) found d broken →
        broken.pos ≤ Indexed.endIndex (keptTokens tokens) ∧
        broken.reports.getLast? = some d ∧
        (keptTokens tokens)[broken.pos]? = some d.token ∧ d.position = d.token.position ∧
        d.problem.code ∈ failureCodes ∧
        ∃ (resumed : Nat) (record : Recovery),
          record.Leads (keptTokens tokens) broken.pos resumed ∧
          Indexed.Reaches (keptTokens tokens)
            (found, ⟨resumed, broken.reports, broken.recoveries ++ [record]⟩)) ∧
      Indexed.parse tokens = some (derive tokens) ∧
      RecoveredInTurn (keptTokens tokens) 0
        ((derive tokens).reports.filter (fun d => d.problem.code ∈ failureCodes))
        (derive tokens).recoveries := by
  refine ⟨fun index reports recoveries hindex =>
    Indexed.exists_recover_atIndex hindex reports recoveries, ?_, Indexed.parse_eq tokens, ?_⟩
  · intro found d broken hbroken
    obtain ⟨ahead, hahead, htoken, hplace, hcode, hlast⟩ := hbroken.exists_standsBefore
    have hle : broken.pos ≤ Indexed.endIndex (keptTokens tokens) := by
      rw [← hahead.end_eq]
      exact Nat.le_add_right _ _
    obtain ⟨resumed, record, hleads, -, hrecover⟩ :=
      Indexed.exists_recover_atIndex hle broken.reports broken.recoveries
    refine ⟨hle, hlast, ?_, hplace, hcode, resumed, record, hleads, hbroken.reaches hrecover⟩
    rw [hahead.getElem?_pos, htoken]
  · obtain ⟨segments, htiles, hderive⟩ := derive_tiles tokens
    rw [hderive, outcome_reports,
      htiles.filter_reports (fun segment after h => segment.filter_failure _ after h)]
    exact htiles.recoveredInTurn (Indexed.standsBefore_start tokens)

/-- A keyword out of place and an error token on one line, an error token and a name on the next. -/
def strayKeywordTokens : List Token :=
  [⟨.keyword, "if", ⟨1, 1⟩, none⟩, ⟨.error, "$", ⟨1, 4⟩, none⟩, ⟨.newline, "\n", ⟨1, 5⟩, none⟩,
   ⟨.error, "?", ⟨2, 1⟩, none⟩, ⟨.identifier, "x", ⟨2, 3⟩, none⟩]

/-- The finding about the keyword. -/
def strayKeyword : Diagnostic :=
  (SyntaxFault.misplacedKeyword "if").about ⟨.keyword, "if", ⟨1, 1⟩, none⟩

/-- The recovery from the keyword passes the error token on its line, and stops at the one that
the next line begins with. -/
theorem a_recovery_stops_at_an_error_after_a_line_break :
    0 ≤ Indexed.endIndex (keptTokens strayKeywordTokens) ∧
      Recovery.Leads (keptTokens strayKeywordTokens) ⟨⟨1, 1⟩, ⟨2, 1⟩⟩ 0 3 ∧
      Parser.recover ⟨.atIndex strayKeywordTokens 0, []⟩ =
        (⟨⟨1, 1⟩, ⟨2, 1⟩⟩, ⟨.atIndex strayKeywordTokens 3, []⟩) ∧
      Indexed.BreaksOff (keptTokens strayKeywordTokens) [] strayKeyword ⟨0, [strayKeyword], []⟩ ∧
      (keptTokens strayKeywordTokens)[0]? = some strayKeyword.token ∧
      RecoveredInTurn (keptTokens strayKeywordTokens) 0 [strayKeyword] [⟨⟨1, 1⟩, ⟨2, 1⟩⟩] := by
  obtain ⟨hany, hcalled, -, hturn⟩ :=
    recovery_resumes_at_the_nearest_safe_place strayKeywordTokens
  obtain ⟨resumed, record, hleads, hrecover, -⟩ := hany 0 [] [] (Nat.zero_le _)
  have hcomputed : Parser.recover ⟨.atIndex strayKeywordTokens 0, []⟩ =
      (⟨⟨1, 1⟩, ⟨2, 1⟩⟩, ⟨.atIndex strayKeywordTokens 3, []⟩) := rfl
  rw [hcomputed, Prod.mk.injEq, Parser.mk.injEq] at hrecover
  obtain ⟨hrecord, htape, -⟩ := hrecover
  have hresumed : resumed = 3 := by
    have hoffset := congrArg Tape.offset htape
    have hlength : (programTokens strayKeywordTokens).length = 5 := by decide
    simp only [Tape.offset, Tape.atIndex, List.length_reverse, List.length_take, hlength]
      at hoffset
    omega
  have hbroken : Indexed.BreaksOff (keptTokens strayKeywordTokens) [] strayKeyword
      ⟨0, [strayKeyword], []⟩ := by
    have hskip : Indexed.skipNewlines (keptTokens strayKeywordTokens) ⟨0, [], []⟩ =
        some ⟨0, [], []⟩ := Indexed.loop_done rfl
    exact .intro .start rfl hskip rfl rfl
  obtain ⟨-, -, htoken, -⟩ := hcalled [] strayKeyword _ hbroken
  have hfailures : (derive strayKeywordTokens).reports.filter
      (fun d => d.problem.code ∈ failureCodes) = [strayKeyword] := by decide +kernel
  have hrecoveries : (derive strayKeywordTokens).recoveries = [⟨⟨1, 1⟩, ⟨2, 1⟩⟩] := by
    decide +kernel
  rw [← hrecord, hresumed] at hleads
  rw [hfailures, hrecoveries] at hturn
  exact ⟨Nat.zero_le _, hleads, hcomputed, hbroken, htoken, hturn⟩

end Assay
