-- The parser as it walks over its tokens by index. It reads tokens that are
-- there, since the end mark is never passed, and each round of its loops passes
-- some token, so it ends, and it reads what the tokens say.
import Assay.Proofs.Indexed.Text
import Assay.Proofs.Statements
import Assay.Proofs.Stream

namespace Assay

namespace Indexed

/-! ## The head among the tokens -/

/-- The kinds that may stand as a whole expression. -/
def literalKinds : List TokenKind := [.identifier, .integer, .float, .string, .boolean, .none]

/-- Where the parser stands, and its findings and recoveries so far. -/
structure Head where
  pos : Nat
  reports : List Diagnostic
  recoveries : List Recovery

def Head.report (d : Diagnostic) (head : Head) : Head :=
  { head with reports := head.reports ++ [d] }

/-- Reports what is wrong with the text of a name, if anything is. -/
def Head.judge (token : Token) (head : Head) : Head :=
  match identifierFault? token.value with
  | some fault => head.report ((SyntaxFault.badName fault token.value).about token)
  | none => head

section Steps

variable (tokens : List Token)

def current (head : Head) : Option Token :=
  tokens[head.pos]?

/-- The token before the head, or the first one at the start. -/
def previous (head : Head) : Option Token :=
  tokens[head.pos - 1]?

def check (kind : TokenKind) (head : Head) : Option Bool := do
  let token ← current tokens head
  some (token.kind = kind)

def atEnd (head : Head) : Option Bool :=
  check tokens .endMark head

/-- The kind of the token some places ahead, if there is such a place. -/
def peekKind (places : Nat) (head : Head) : Option (Option TokenKind) := do
  if tokens.length ≤ head.pos + places then some none
  else
    let token ← tokens[head.pos + places]?
    some (some token.kind)

/-- The current token, and the head past it, unless it is the end mark. -/
def advance (head : Head) : Option (Token × Head) := do
  let token ← current tokens head
  if ← atEnd tokens head then some (token, head)
  else some (token, { head with pos := head.pos + 1 })

/-- Whether a name and an operator come next. -/
def opensAssignment (head : Head) : Option Bool := do
  if ← check tokens .identifier head then
    let next ← peekKind tokens 1 head
    some (next = some .assignmentOperator)
  else some false

/-! ## Readers -/

def fail {α : Type} (fault : SyntaxFault) (token : Token) (head : Head) :
    Option (Except Diagnostic α × Head) :=
  some (.error (fault.about token), head.report (fault.about token))

/-- A value. The leaf is looked up by the kind of its token, and may be missing. -/
def value (judged : Bool) (head : Head) : Option (Except Diagnostic Node × Head) := do
  let token ← current tokens head
  if token.kind ∉ literalKinds then fail .missingValue token head
  else
    let (_, head) ← advance tokens head
    let head := if token.kind = .identifier ∧ ¬ judged then head.judge token else head
    let leaf ← Node.leaf? token
    some (.ok leaf, head)

def assignment (head : Head) : Option (Except Diagnostic Node × Head) := do
  let (name, head) ← advance tokens head
  let (_, head) ← advance tokens (head.judge name)
  let (value, head) ← value tokens false head
  some (value.map (Node.assignment name), head)

def expression (head : Head) : Option (Except Diagnostic Node × Head) := do
  let first ← current tokens head
  let head := if first.kind = .identifier then head.judge first else head
  let (value, head) ← value tokens true head
  match value with
  | .error d => some (.error d, head)
  | .ok node =>
    if ← check tokens .assignmentOperator head then
      let operator ← current tokens head
      fail .assignedLiteral operator head
    else some (.ok node, head)

def statement (head : Head) : Option (Except Diagnostic (Option Node) × Head) := do
  let token ← current tokens head
  if token.kind = .error then
    let (_, head) ← advance tokens (head.report ((SyntaxFault.lexical token.error).about token))
    some (.ok none, head)
  else if ← opensAssignment tokens head then
    let (node, head) ← assignment tokens head
    some (node.map some, head)
  else if token.kind ∈ literalKinds then
    let (node, head) ← expression tokens head
    some (node.map some, head)
  else if token.kind = .keyword then fail (.misplacedKeyword token.value) token head
  else fail (.unexpected token.kind token.value) token head

/-! ## Loops -/

def newlineRound (head : Head) : Option (Turn Head Head) := do
  if ← check tokens .newline head then
    let (_, head) ← advance tokens head
    some (.again head)
  else some (.done head)

def skipNewlines (head : Head) : Option Head :=
  loop (newlineRound tokens) head

def unsafeRound (head : Head) : Option (Turn Head Head) := do
  if ← atEnd tokens head then some (.done head)
  else
    let before ← previous tokens head
    if before.kind = .newline then some (.done head)
    else if ← check tokens .error head then
      let (_, head) ← advance tokens head
      some (.again head)
    else if ← opensAssignment tokens head then some (.done head)
    else
      let token ← current tokens head
      if token.kind ∈ literalKinds then some (.done head)
      else
        let (_, head) ← advance tokens head
        some (.again head)

/-- Passes tokens up to a safe place. -/
def passUnsafe (head : Head) : Option Head :=
  loop (unsafeRound tokens) head

def recover (head : Head) : Option Head := do
  let start ← current tokens head
  let (_, head) ← advance tokens head
  let head ← passUnsafe tokens head
  let resumed ← current tokens head
  some { head with recoveries := head.recoveries ++ [⟨start.position, resumed.position⟩] }

/-- One statement, and what follows it: a recovery if there is none, or else line breaks. -/
def round (found : List Node) (head : Head) : Option (List Node × Head) := do
  let (result, head) ← statement tokens head
  match result with
  | .error _ =>
    let head ← recover tokens head
    some (found, head)
  | .ok node =>
    let head ← skipNewlines tokens head
    some (found ++ node.toList, head)

def statementsRound : List Node × Head → Option (Turn (List Node × Head) (List Node × Head))
  | (found, head) => do
    if ← atEnd tokens head then some (.done (found, head))
    else
      let head ← skipNewlines tokens head
      if ← atEnd tokens head then some (.done (found, head))
      else
        let next ← round tokens found head
        some (.again next)

/-- The statements found so far and those from the head on, and the head at the end mark. -/
def statements (found : List Node) (head : Head) : Option (List Node × Head) :=
  loop (statementsRound tokens) (found, head)

end Steps

def parse (tokens : List Token) : Option Derivation := do
  let (found, head) ← statements (keptTokens tokens) [] ⟨0, [], []⟩
  some ⟨found, head.reports, head.recoveries⟩

/-! ## Where the head stands -/

/-- The head at another place, with some findings more. -/
def Head.move (head : Head) (pos : Nat) (reports : List Diagnostic) : Head :=
  { head with pos := pos, reports := head.reports ++ reports }

@[simp] theorem Head.move_pos (head : Head) (pos : Nat) (reports : List Diagnostic) :
    (head.move pos reports).pos = pos := rfl

@[simp] theorem Head.move_move (head : Head) (pos pos' : Nat) (reports more : List Diagnostic) :
    (head.move pos reports).move pos' more = head.move pos' (reports ++ more) := by
  simp [move]

theorem Head.move_self (head : Head) : head.move head.pos [] = head := by
  simp [move]

/-- The place of the first end mark. -/
def endIndex (tokens : List Token) : Nat :=
  tokens.findIdx (fun token => token.kind = .endMark)

/-- From the place on, there are the tokens `ahead` and the first end mark, `stop`. -/
structure StandsBefore (tokens : List Token) (pos : Nat) (ahead : List Token) (stop : Token) :
    Prop where
  tokens_eq : ∃ beyond, tokens.drop pos = ahead ++ stop :: beyond
  end_eq : pos + ahead.length = endIndex tokens
  no_endMark : ∀ token ∈ ahead, token.kind ≠ .endMark
  stop_kind : stop.kind = .endMark

theorem mem_literalKinds {kind : TokenKind} : kind ∈ literalKinds ↔ kind.isLiteral := by
  cases kind <;> decide

section Stands

variable {tokens ahead rest : List Token} {stop token : Token} {head : Head}

theorem StandsBefore.next {pos : Nat} (h : StandsBefore tokens pos (token :: rest) stop) :
    tokens[pos]? = some token ∧ StandsBefore tokens (pos + 1) rest stop := by
  obtain ⟨⟨beyond, hrow⟩, hend, hnone, hstop⟩ := h
  obtain ⟨-, htoken, hnext⟩ := of_drop_cons hrow
  refine ⟨htoken, ⟨beyond, hnext⟩, ?_, fun t ht => hnone t (List.mem_cons_of_mem _ ht), hstop⟩
  rw [← hend, List.length_cons]
  omega

theorem current_eq (h : StandsBefore tokens head.pos ahead stop) :
    current tokens head = some (ahead.headD stop) := by
  cases ahead with
  | nil =>
    obtain ⟨beyond, hrow⟩ := h.tokens_eq
    exact (of_drop_cons hrow).2.1
  | cons token rest => exact h.next.1

theorem check_eq (h : StandsBefore tokens head.pos ahead stop) (kind : TokenKind) :
    check tokens kind head = some (decide ((ahead.headD stop).kind = kind)) := by
  rw [check, current_eq h]
  rfl

theorem current_next (h : StandsBefore tokens head.pos (token :: rest) stop) :
    current tokens head = some token := h.next.1

theorem check_next (h : StandsBefore tokens head.pos (token :: rest) stop) (kind : TokenKind) :
    check tokens kind head = some (decide (token.kind = kind)) :=
  check_eq h kind

theorem atEnd_nil (h : StandsBefore tokens head.pos [] stop) : atEnd tokens head = some true := by
  rw [atEnd, check_eq h, List.headD_nil, decide_eq_true h.stop_kind]

theorem atEnd_next (h : StandsBefore tokens head.pos (token :: rest) stop) :
    atEnd tokens head = some false := by
  rw [atEnd, check_next h, decide_eq_false (h.no_endMark token List.mem_cons_self)]

theorem advance_next (h : StandsBefore tokens head.pos (token :: rest) stop) :
    advance tokens head = some (token, head.move (head.pos + 1) []) := by
  rw [advance, current_next h, atEnd_next h, Head.move, List.append_nil]
  rfl

/-- The end mark is never passed. -/
theorem advance_nil (h : StandsBefore tokens head.pos [] stop) :
    advance tokens head = some (stop, head) := by
  rw [advance, current_eq h, atEnd_nil h]
  rfl

/-- The head moves past the current token, or stays at the end mark. -/
theorem exists_advance (h : StandsBefore tokens head.pos ahead stop) :
    ∃ pos, StandsBefore tokens pos ahead.tail stop ∧
      advance tokens head = some (ahead.headD stop, head.move pos []) := by
  cases ahead with
  | nil => exact ⟨head.pos, h, by rw [advance_nil h, head.move_self, List.headD_nil]⟩
  | cons token rest => exact ⟨head.pos + 1, h.next.2, advance_next h⟩

theorem opensAssignment_eq (h : StandsBefore tokens head.pos ahead stop) :
    opensAssignment tokens head =
      some (decide ((ahead.headD stop).kind = .identifier ∧
        (ahead.tail.headD stop).kind = .assignmentOperator)) := by
  rw [opensAssignment, check_eq h, Option.bind_eq_bind, Option.bind_some]
  by_cases hname : (ahead.headD stop).kind = .identifier
  · obtain ⟨token, rest, rfl⟩ := exists_cons_of_headD (by rw [hname, h.stop_kind]; decide)
    have hcurrent : current tokens { head with pos := head.pos + 1 } = some (rest.headD stop) :=
      current_eq h.next.2
    have hnext : tokens[head.pos + 1]? = some (rest.headD stop) := hcurrent
    have hin : ¬ tokens.length ≤ head.pos + 1 :=
      Nat.not_le.mpr (List.getElem?_eq_some_iff.mp hnext).1
    have hkind : token.kind = .identifier := hname
    rw [if_pos (decide_eq_true hname), peekKind, if_neg hin, hnext]
    simp [hkind]
  · rw [if_neg (by simpa using hname), decide_eq_false (fun h => hname h.1)]

/-! ## Readers read what is there -/

theorem Head.judge_eq (token : Token) (head : Head) :
    head.judge token = head.move head.pos (nameReports token) := by
  unfold judge nameReports
  cases identifierFault? token.value with
  | none => exact head.move_self.symm
  | some fault => rfl

/-- A reader that starts at the head has the result and the findings of a reading, and leaves the
head where the reading ends. -/
def Follows {α : Type} (tokens : List Token) (stop : Token) (head : Head) (reading : Reading α)
    (outcome : Option (Except Diagnostic α × Head)) : Prop :=
  ∃ pos, StandsBefore tokens pos reading.rest stop ∧
    outcome = some (reading.result, head.move pos reading.reports)

section Follows

variable {α β : Type} {reading : Reading α} {outcome : Option (Except Diagnostic α × Head)}

theorem Follows.map (f : α → β) (h : Follows tokens stop head reading outcome) :
    Follows tokens stop head (reading.map f) (do
      let (result, head) ← outcome
      some (result.map f, head)) := by
  obtain ⟨pos, hpos, houtcome⟩ := h
  refine ⟨pos, hpos, ?_⟩
  rw [houtcome]
  rfl

/-- What was reported before the reader started counts as reported first. -/
theorem Follows.of_move {pos : Nat} {reports : List Diagnostic}
    (h : Follows tokens stop (head.move pos reports) reading outcome) :
    Follows tokens stop head (reading.after reports) outcome := by
  obtain ⟨last, hlast, houtcome⟩ := h
  refine ⟨last, hlast, ?_⟩
  rw [houtcome, Head.move_move]
  rfl

theorem follows_fail (h : StandsBefore tokens head.pos ahead stop) (fault : SyntaxFault) :
    Follows tokens stop head (Reading.fail fault (ahead.headD stop) ahead : Reading α)
      (fail fault (ahead.headD stop) head) :=
  ⟨head.pos, h, rfl⟩

end Follows

theorem follows_value (judged : Bool) (h : StandsBefore tokens head.pos ahead stop) :
    Follows tokens stop head (readValue judged stop ahead) (value tokens judged head) := by
  rw [value, current_eq h, Option.bind_eq_bind, Option.bind_some]
  by_cases hvalue : (ahead.headD stop).kind.isLiteral
  · obtain ⟨token, rest, rfl⟩ := exists_cons_of_headD
      (TokenKind.ne_of_isLiteral hvalue (by rw [h.stop_kind]; decide))
    have hleaf : Node.leaf? token = some (Node.leafOf token hvalue) :=
      Node.leaf?_eq_leafOf token hvalue
    rw [if_neg (not_not.mpr (mem_literalKinds.mpr hvalue)), advance_next h,
      readValue_leaf judged stop token rest hvalue]
    refine ⟨head.pos + 1, h.next.2, ?_⟩
    rw [List.headD_cons, Option.bind_eq_bind, Option.bind_some]
    simp only [hleaf, Head.judge_eq, Head.move_move, Head.move_pos, List.nil_append]
    split
    · rfl
    · rfl
  · rw [if_pos (mem_literalKinds.not.mpr hvalue), readValue_missing judged stop ahead hvalue]
    exact follows_fail h .missingValue

/-- The current token is taken as the name and the next one as the operator, whatever they are. -/
theorem follows_assignment (h : StandsBefore tokens head.pos ahead stop) :
    Follows tokens stop head (readAssignment stop ahead) (assignment tokens head) := by
  obtain ⟨pos, hpos, hname⟩ := exists_advance h
  have hoperator : StandsBefore tokens (head.move pos (nameReports (ahead.headD stop))).pos
      ahead.tail stop := hpos
  obtain ⟨pos', hpos', hpassed⟩ := exists_advance hoperator
  have hrest : StandsBefore tokens (head.move pos' (nameReports (ahead.headD stop))).pos
      ahead.tail.tail stop := hpos'
  rw [assignment, hname, Option.bind_eq_bind, Option.bind_some]
  simp only [Head.judge_eq, Head.move_move, Head.move_pos, List.nil_append]
  rw [hpassed, Option.bind_eq_bind, Option.bind_some]
  simp only [Head.move_move, List.append_nil]
  exact ((follows_value false hrest).map (Node.assignment (ahead.headD stop))).of_move

theorem follows_expression_of_value (hvalue : token.kind.isLiteral)
    (h : StandsBefore tokens head.pos (token :: rest) stop) :
    Follows tokens stop head (readExpression stop (token :: rest)) (expression tokens head) := by
  have hjudged : (if token.kind = .identifier then head.judge token else head) =
      head.move head.pos (nameFindings [token]) := by
    rw [nameFindings_singleton, Head.judge_eq]
    split
    · rfl
    · exact head.move_self.symm
  have hstart : StandsBefore tokens (head.move head.pos (nameFindings [token])).pos
      (token :: rest) stop := h
  obtain ⟨pos, hpos, houtcome⟩ := follows_value true hstart
  rw [readValue_leaf true stop token rest hvalue] at hpos houtcome
  simp only [not_true_eq_false, and_false, if_false, Head.move_move, List.append_nil] at houtcome
  have hnext : StandsBefore tokens (head.move pos (nameFindings [token])).pos rest stop := hpos
  rw [expression, current_next h, Option.bind_eq_bind, Option.bind_some]
  simp only [hjudged, houtcome]
  rw [Option.bind_eq_bind, Option.bind_some]
  simp only
  rw [check_eq hnext, Option.bind_eq_bind, Option.bind_some]
  by_cases hoperator : (rest.headD stop).kind = .assignmentOperator
  · rw [readExpression_before_operator stop token rest hvalue hoperator]
    rw [if_pos (decide_eq_true hoperator), current_eq hnext]
    exact (follows_fail hnext .assignedLiteral).of_move
  · rw [readExpression_alone stop token rest hvalue hoperator, if_neg (by simpa using hoperator)]
    exact ⟨pos, hpos, rfl⟩

theorem follows_expression (h : StandsBefore tokens head.pos ahead stop) :
    Follows tokens stop head (readExpression stop ahead) (expression tokens head) := by
  by_cases hvalue : (ahead.headD stop).kind.isLiteral
  · obtain ⟨token, rest, rfl⟩ := exists_cons_of_headD
      (TokenKind.ne_of_isLiteral hvalue (by rw [h.stop_kind]; decide))
    exact follows_expression_of_value hvalue h
  have hname : (ahead.headD stop).kind ≠ .identifier := TokenKind.ne_of_not_isLiteral hvalue rfl
  obtain ⟨pos, hpos, houtcome⟩ := follows_value true h
  rw [readValue_missing true stop ahead hvalue] at hpos houtcome
  rw [expression, current_eq h, Option.bind_eq_bind, Option.bind_some, if_neg hname,
    readExpression_missing stop ahead hvalue]
  simp only [houtcome]
  exact ⟨pos, hpos, rfl⟩

theorem follows_statement (h : StandsBefore tokens head.pos ahead stop) :
    Follows tokens stop head (readStatement stop ahead) (statement tokens head) := by
  rw [statement, current_eq h, Option.bind_eq_bind, Option.bind_some, opensAssignment_eq h,
    readStatement]
  simp only [mem_literalKinds]
  by_cases herror : (ahead.headD stop).kind = .error
  · rw [if_pos herror, if_pos herror]
    have hreported : StandsBefore tokens
        (head.report ((SyntaxFault.lexical (ahead.headD stop).error).about
          (ahead.headD stop))).pos ahead stop := h
    obtain ⟨pos, hpos, hpassed⟩ := exists_advance hreported
    rw [hpassed]
    exact ⟨pos, hpos, by simp [Head.move, Head.report, Reading.after, Reading.done]⟩
  rw [if_neg herror, if_neg herror, Option.bind_eq_bind, Option.bind_some]
  simp only [decide_eq_true_eq]
  by_cases hassigned : (ahead.headD stop).kind = .identifier ∧
      (ahead.tail.headD stop).kind = .assignmentOperator
  · rw [if_pos hassigned, if_pos hassigned]
    exact (follows_assignment h).map some
  rw [if_neg hassigned, if_neg hassigned]
  by_cases hvalue : (ahead.headD stop).kind.isLiteral
  · rw [if_pos hvalue, if_pos hvalue]
    exact (follows_expression h).map some
  rw [if_neg hvalue, if_neg hvalue]
  by_cases hkeyword : (ahead.headD stop).kind = .keyword
  · rw [if_pos hkeyword, if_pos hkeyword]
    exact follows_fail h (.misplacedKeyword (ahead.headD stop).value)
  · rw [if_neg hkeyword, if_neg hkeyword]
    exact follows_fail h (.unexpected (ahead.headD stop).kind (ahead.headD stop).value)

/-! ## Every loop ends -/

theorem newlineRound_of_ne (h : StandsBefore tokens head.pos ahead stop)
    (hline : (ahead.headD stop).kind ≠ .newline) :
    newlineRound tokens head = some (.done head) := by
  rw [newlineRound, check_eq h, Option.bind_eq_bind, Option.bind_some,
    if_neg (by simpa using hline)]

theorem exists_skipNewlines (h : StandsBefore tokens head.pos ahead stop) :
    ∃ pos, StandsBefore tokens pos (ahead.dropWhile (fun token => token.kind = .newline)) stop ∧
      skipNewlines tokens head = some (head.move pos []) := by
  induction ahead generalizing head with
  | nil =>
    refine ⟨head.pos, h, ?_⟩
    rw [head.move_self]
    exact loop_done (newlineRound_of_ne h (by simp [h.stop_kind]))
  | cons token rest ih =>
    rw [List.dropWhile_cons]
    by_cases hline : token.kind = .newline
    · have hround : newlineRound tokens head = some (.again (head.move (head.pos + 1) [])) := by
        rw [newlineRound, check_next h, Option.bind_eq_bind, Option.bind_some,
          if_pos (decide_eq_true hline), advance_next h]
        rfl
      have hnext : StandsBefore tokens (head.move (head.pos + 1) []).pos rest stop := h.next.2
      obtain ⟨pos, hpos, hskip⟩ := ih hnext
      rw [if_pos (decide_eq_true hline), skipNewlines, loop_again hround, ← skipNewlines, hskip,
        Head.move_move, List.append_nil]
      exact ⟨pos, hpos, rfl⟩
    · refine ⟨head.pos, ?_, ?_⟩
      · rw [if_neg (by simpa using hline)]
        exact h
      · rw [head.move_self]
        exact loop_done (newlineRound_of_ne h hline)

theorem passUnsafe_nil (h : StandsBefore tokens head.pos [] stop) :
    passUnsafe tokens head = some head := by
  have hround : unsafeRound tokens head = some (.done head) := by
    rw [unsafeRound, atEnd_nil h, Option.bind_eq_bind, Option.bind_some, if_pos rfl]
  exact loop_done hround

/-- A round passes the current token, unless this is a safe place. -/
theorem unsafeRound_next {before : Token} (h : StandsBefore tokens head.pos (token :: rest) stop)
    (hbefore : previous tokens head = some before) :
    unsafeRound tokens head =
      some (if before.kind = .newline ∨ token.kind.isLiteral then .done head
        else .again (head.move (head.pos + 1) [])) := by
  rw [unsafeRound, atEnd_next h, Option.bind_eq_bind, Option.bind_some,
    if_neg Bool.false_ne_true, hbefore, Option.bind_eq_bind, Option.bind_some]
  by_cases hline : before.kind = .newline
  · rw [if_pos hline, if_pos (Or.inl hline)]
  rw [if_neg hline, check_next h, opensAssignment_eq h, current_next h, advance_next h]
  by_cases hvalue : token.kind.isLiteral
  · have herror : token.kind ≠ .error := TokenKind.ne_of_isLiteral hvalue (by decide)
    rw [if_pos (Or.inr hvalue)]
    simp [herror, mem_literalKinds, hvalue]
  · have hname : token.kind ≠ .identifier := TokenKind.ne_of_not_isLiteral hvalue rfl
    rw [if_neg (not_or.mpr ⟨hline, hvalue⟩)]
    simp [hname, mem_literalKinds, hvalue]

/-- The tokens passed after a failure are those that a recovery passes. -/
theorem exists_passUnsafe {before : Token} (h : StandsBefore tokens head.pos ahead stop)
    (hbefore : previous tokens head = some before) :
    ∃ pos, StandsBefore tokens pos (safeFrom before ahead) stop ∧
      passUnsafe tokens head = some (head.move pos []) := by
  induction ahead generalizing head before with
  | nil => exact ⟨head.pos, h, by rw [passUnsafe_nil h, head.move_self]⟩
  | cons token rest ih =>
    have hround := unsafeRound_next h hbefore
    rw [safeFrom]
    by_cases hsafe : before.kind = .newline ∨ token.kind.isLiteral
    · rw [if_pos hsafe] at hround ⊢
      exact ⟨head.pos, h, by rw [head.move_self]; exact loop_done hround⟩
    · have hnext : StandsBefore tokens (head.move (head.pos + 1) []).pos rest stop := h.next.2
      have hpassed : previous tokens (head.move (head.pos + 1) []) = some token := h.next.1
      obtain ⟨pos, hpos, hpass⟩ := ih hnext hpassed
      rw [if_neg hsafe] at hround ⊢
      rw [passUnsafe, loop_again hround, ← passUnsafe, hpass, Head.move_move, List.append_nil]
      exact ⟨pos, hpos, rfl⟩

theorem exists_recover (h : StandsBefore tokens head.pos ahead stop) :
    ∃ pos, StandsBefore tokens pos (Assay.recover ahead) stop ∧
      recover tokens head =
        some ⟨pos, head.reports, head.recoveries ++ [Recovery.of stop ahead]⟩ := by
  cases ahead with
  | nil =>
    refine ⟨head.pos, h, ?_⟩
    rw [recover, current_eq h, advance_nil h, Option.bind_eq_bind, Option.bind_some,
      Option.bind_eq_bind, Option.bind_some]
    simp only [passUnsafe_nil h, Option.bind_eq_bind, Option.bind_some, current_eq h]
    rfl
  | cons token rest =>
    have hnext : StandsBefore tokens (head.move (head.pos + 1) []).pos rest stop := h.next.2
    have hpassed : previous tokens (head.move (head.pos + 1) []) = some token := h.next.1
    obtain ⟨pos, hpos, hpass⟩ := exists_passUnsafe hnext hpassed
    have hlast : StandsBefore tokens (head.move pos []).pos (safeFrom token rest) stop := hpos
    refine ⟨pos, hpos, ?_⟩
    rw [recover, current_next h, advance_next h, Option.bind_eq_bind, Option.bind_some,
      Option.bind_eq_bind, Option.bind_some]
    simp only [hpass, Head.move_move, List.append_nil, Option.bind_eq_bind, Option.bind_some,
      current_eq hlast]
    simp [Head.move, Recovery.of, Assay.recover]

/-- Line breaks at the front make nothing. -/
theorem readProgram_dropWhile (stop : Token) (ahead : List Token) :
    readProgram stop (ahead.dropWhile (fun token => token.kind = .newline)) =
      readProgram stop ahead := by
  induction ahead with
  | nil => rfl
  | cons token rest ih =>
    rw [List.dropWhile_cons]
    by_cases hline : token.kind = .newline
    · rw [if_pos (decide_eq_true hline), ih, readProgram_newline stop token rest hline]
    · rw [if_neg (by simpa using hline)]

/-- One round reads one part of the program, and leaves fewer tokens than there were. -/
theorem exists_round (found : List Node) (h : StandsBefore tokens head.pos (token :: rest) stop)
    (hline : token.kind ≠ .newline) :
    ∃ (part : Derivation) (pos : Nat) (after : List Token),
      after.length < (token :: rest).length ∧ StandsBefore tokens pos after stop ∧
      round tokens found head =
        some (found ++ part.statements,
          ⟨pos, head.reports ++ part.reports, head.recoveries ++ part.recoveries⟩) ∧
      readProgram stop (token :: rest) = part ++ readProgram stop after := by
  obtain ⟨pos, hpos, houtcome⟩ := follows_statement h
  have hle := (readStatement_rest_suffix stop (token :: rest)).length_le
  have hleft : StandsBefore tokens
      (head.move pos (readStatement stop (token :: rest)).reports).pos
      (readStatement stop (token :: rest)).rest stop := hpos
  rw [round, houtcome, Option.bind_eq_bind, Option.bind_some]
  cases hresult : (readStatement stop (token :: rest)).result with
  | error d =>
    obtain ⟨pos', hpos', hrecover⟩ := exists_recover hleft
    have hless := (recover_suffix_tail (readStatement stop (token :: rest)).rest).length_le
    rw [List.length_tail] at hless
    refine ⟨_, pos', _, ?_, hpos', ?_, readProgram_error stop token rest d hline hresult⟩
    · rw [List.length_cons] at hle ⊢
      omega
    · simp only [hrecover]
      rw [List.append_nil]
      rfl
  | ok node =>
    obtain ⟨pos', hpos', hskip⟩ := exists_skipNewlines hleft
    have hless := readStatement_rest_length_lt stop token rest node hresult
    have hsuffix := (List.dropWhile_suffix (fun token : Token => token.kind = .newline)
      (l := (readStatement stop (token :: rest)).rest)).length_le
    refine ⟨⟨node.toList, (readStatement stop (token :: rest)).reports, []⟩, pos', _, ?_, hpos',
      ?_, ?_⟩
    · omega
    · simp only [hskip, Head.move_move]
      rw [List.append_nil]
      simp [Head.move]
    · rw [readProgram_dropWhile]
      exact readProgram_ok stop token rest node hline hresult

/-- A round of the main loop ends it, where line breaks are all that is left, or reads one part of
the program and leaves fewer tokens than there were. -/
theorem statementsRound_ways (found : List Node) (h : StandsBefore tokens head.pos ahead stop) :
    (∃ pos, StandsBefore tokens pos [] stop ∧
      statementsRound tokens (found, head) = some (.done (found, head.move pos [])) ∧
      readProgram stop ahead = .empty) ∨
    ∃ (part : Derivation) (pos : Nat) (after : List Token),
      after.length < ahead.length ∧ StandsBefore tokens pos after stop ∧
      statementsRound tokens (found, head) =
        some (.again (found ++ part.statements,
          ⟨pos, head.reports ++ part.reports, head.recoveries ++ part.recoveries⟩)) ∧
      readProgram stop ahead = part ++ readProgram stop after := by
  cases ahead with
  | nil =>
    refine Or.inl ⟨head.pos, h, ?_, readProgram_nil stop⟩
    rw [statementsRound, atEnd_nil h, Option.bind_eq_bind, Option.bind_some, if_pos rfl,
      head.move_self]
  | cons token rest =>
    obtain ⟨start, hstart, hskip⟩ := exists_skipNewlines h
    have hfewer := (List.dropWhile_suffix (fun token : Token => token.kind = .newline)
      (l := token :: rest)).length_le
    have hhead := List.head?_dropWhile_not (fun token : Token => token.kind = .newline)
      (token :: rest)
    rw [← readProgram_dropWhile]
    generalize (token :: rest).dropWhile (fun token => token.kind = .newline) = left at *
    have hleft : StandsBefore tokens (head.move start []).pos left stop := hstart
    cases left with
    | nil =>
      refine Or.inl ⟨start, hleft, ?_, readProgram_nil stop⟩
      rw [statementsRound, atEnd_next h, hskip, Option.bind_eq_bind, Option.bind_some,
        if_neg Bool.false_ne_true, Option.bind_eq_bind, Option.bind_some, atEnd_nil hleft,
        Option.bind_some, if_pos rfl]
    | cons first others =>
      have hline : first.kind ≠ .newline := by simpa using hhead
      obtain ⟨part, pos, after, hless, hafter, hpart, hread⟩ := exists_round found hleft hline
      refine Or.inr ⟨part, pos, after, by omega, hafter, ?_, hread⟩
      rw [statementsRound, atEnd_next h, hskip, Option.bind_eq_bind, Option.bind_some,
        if_neg Bool.false_ne_true, Option.bind_eq_bind, Option.bind_some, atEnd_next hleft,
        Option.bind_some, if_neg Bool.false_ne_true, hpart]
      simp [Head.move]

/-- From the head on, the statements and the findings of what is ahead are added. -/
theorem statements_eq (found : List Node) (h : StandsBefore tokens head.pos ahead stop) :
    ∃ pos, StandsBefore tokens pos [] stop ∧ statements tokens found head =
      some (found ++ (readProgram stop ahead).statements,
        ⟨pos, head.reports ++ (readProgram stop ahead).reports,
          head.recoveries ++ (readProgram stop ahead).recoveries⟩) := by
  -- Each round passes some token, so the induction is on how many are left.
  induction hn : ahead.length using Nat.strongRecOn generalizing ahead found head with
  | ind n ih =>
    rcases statementsRound_ways found h with
      ⟨pos, hpos, hround, hread⟩ | ⟨part, pos, after, hless, hafter, hround, hread⟩
    · refine ⟨pos, hpos, ?_⟩
      rw [statements, loop_done hround, hread]
      simp [Derivation.empty, Head.move]
    · have hnext : StandsBefore tokens
          (⟨pos, head.reports ++ part.reports, head.recoveries ++ part.recoveries⟩ : Head).pos
          after stop := hafter
      obtain ⟨last, hend, hlast⟩ :=
        ih after.length (by omega) (found ++ part.statements) hnext rfl
      refine ⟨last, hend, ?_⟩
      rw [statements, loop_again hround, ← statements, hlast, hread]
      simp only [List.append_assoc]
      rfl

end Stands

/-- At the start, the tokens of the program are ahead. -/
theorem standsBefore_start (tokens : List Token) :
    StandsBefore (keptTokens tokens) 0 (programTokens tokens) (programEnd tokens) := by
  refine ⟨⟨_, keptTokens_eq tokens⟩, ?_, fun _ hmem => kind_of_mem_programTokens hmem,
    programEnd_kind tokens⟩
  have hnone : (programTokens tokens).findIdx (fun token => token.kind = .endMark) =
      (programTokens tokens).length :=
    List.findIdx_eq_length.mpr (by simpa using fun _ hmem => kind_of_mem_programTokens hmem)
  rw [endIndex, keptTokens_eq, List.findIdx_append, hnone, if_neg (Nat.lt_irrefl _),
    List.findIdx_cons, decide_eq_true (programEnd_kind tokens), cond_true]

/-- Parsing has a result, and it is what the tokens say. -/
theorem parse_eq (tokens : List Token) : parse tokens = some (derive tokens) := by
  have hstart : StandsBefore (keptTokens tokens) (⟨0, [], []⟩ : Head).pos (programTokens tokens)
      (programEnd tokens) := standsBefore_start tokens
  obtain ⟨pos, -, hstatements⟩ := statements_eq [] hstart
  rw [parse, hstatements, derive_eq]
  rfl

end Indexed

end Assay
