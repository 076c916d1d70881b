-- Statements: how one value, one assignment, one bare expression or one
-- statement is read from the tokens before the end mark. `ahead` are these
-- tokens and `stop` is the mark; the current token is the first of them.
import Assay.Reading.Basic

namespace Assay

/-! ## Values -/

/-- The finding about the text of a token that stands as a name, if there is one. -/
def nameReports (token : Token) : List Diagnostic :=
  ((identifierFault? token.value).map
    (fun fault => (SyntaxFault.badName fault token.value).about token)).toList

/-- Reads one value. A name that was not judged before is judged here. -/
def readValue (judged : Bool) (stop : Token) (ahead : List Token) : Reading Node :=
  match ahead with
  | [] => .fail .missingValue stop []
  | token :: rest =>
    match Node.leaf? token with
    | none => .fail .missingValue token (token :: rest)
    | some leaf =>
      (Reading.done leaf rest).after
        (if token.kind = .identifier ∧ ¬ judged then nameReports token else [])

/-! ## Statements -/

/-- Reads an assignment: the current token is taken as the name and the next as the operator,
whatever they are. -/
def readAssignment (stop : Token) (ahead : List Token) : Reading Node :=
  let name : Token := ahead.headD stop
  ((readValue false stop ahead.tail.tail).map (Node.assignment name)).after (nameReports name)

/-- Reads a value that stands alone. An operator after it is a fault, and is left. -/
def readExpression (stop : Token) (ahead : List Token) : Reading Node :=
  let first : Token := ahead.headD stop
  let value := readValue true stop ahead
  let next : Token := value.rest.headD stop
  let checked : Reading Node :=
    match value.result with
    | .ok _ =>
      if next.kind = TokenKind.assignmentOperator then
        (Reading.fail .assignedLiteral next value.rest).after value.reports
      else value
    | .error _ => value
  checked.after (if first.kind = TokenKind.identifier then nameReports first else [])

/-- Reads a statement. An error token makes none: it is reported and passed. -/
def readStatement (stop : Token) (ahead : List Token) : Reading (Option Node) :=
  let token : Token := ahead.headD stop
  let next : Token := ahead.tail.headD stop
  if token.kind = .error then
    (Reading.done none ahead.tail).after [(SyntaxFault.lexical token.error).about token]
  else if token.kind = .identifier ∧ next.kind = .assignmentOperator then
    (readAssignment stop ahead).map some
  else if token.kind.isLiteral then
    (readExpression stop ahead).map some
  else if token.kind = .keyword then
    .fail (.misplacedKeyword token.value) token ahead
  else
    .fail (.unexpected token.kind token.value) token ahead

/-! ## What a reading leaves -/

theorem readValue_rest_suffix (judged : Bool) (stop : Token) (ahead : List Token) :
    (readValue judged stop ahead).rest <:+ ahead := by
  unfold readValue
  split
  · exact List.suffix_rfl
  · split
    · exact List.suffix_rfl
    · exact List.suffix_cons _ _

theorem readValue_rest_length_lt (judged : Bool) (stop : Token) (ahead : List Token) (node : Node)
    (h : (readValue judged stop ahead).result = .ok node) :
    (readValue judged stop ahead).rest.length < ahead.length := by
  unfold readValue at h ⊢
  split at h
  · simp [Reading.fail] at h
  · split at h
    · simp [Reading.fail] at h
    · simp [Reading.after, Reading.done]

theorem readExpression_rest (stop : Token) (ahead : List Token) :
    (readExpression stop ahead).rest = (readValue true stop ahead).rest := by
  unfold readExpression
  simp only [Reading.after]
  split
  · split
    · rfl
    · rfl
  · rfl

theorem readExpression_value_ok (stop : Token) (ahead : List Token) (node : Node)
    (h : (readExpression stop ahead).result = .ok node) :
    (readValue true stop ahead).result = .ok node := by
  unfold readExpression at h
  simp only [Reading.after] at h
  split at h
  · split at h
    · simp [Reading.fail] at h
    · exact h
  · exact h

theorem readExpression_rest_suffix (stop : Token) (ahead : List Token) :
    (readExpression stop ahead).rest <:+ ahead := by
  rw [readExpression_rest]
  exact readValue_rest_suffix true stop ahead

/-- The name and the operator are passed in any case. -/
theorem readAssignment_rest_suffix_tail (stop : Token) (ahead : List Token) :
    (readAssignment stop ahead).rest <:+ ahead.tail.tail :=
  readValue_rest_suffix false stop ahead.tail.tail

theorem readAssignment_rest_suffix (stop : Token) (ahead : List Token) :
    (readAssignment stop ahead).rest <:+ ahead :=
  (readAssignment_rest_suffix_tail stop ahead).trans
    ((List.tail_suffix _).trans (List.tail_suffix ahead))

theorem readStatement_rest_suffix (stop : Token) (ahead : List Token) :
    (readStatement stop ahead).rest <:+ ahead := by
  unfold readStatement
  simp only
  split
  · exact List.tail_suffix ahead
  split
  · exact readAssignment_rest_suffix stop ahead
  split
  · exact readExpression_rest_suffix stop ahead
  split
  · exact List.suffix_rfl
  · exact List.suffix_rfl

/-- A statement that is read takes at least one token. -/
theorem readStatement_rest_length_lt (stop token : Token) (rest : List Token)
    (node : Option Node) (h : (readStatement stop (token :: rest)).result = .ok node) :
    (readStatement stop (token :: rest)).rest.length < (token :: rest).length := by
  unfold readStatement at h ⊢
  simp only at h ⊢
  split
  · simp [Reading.after, Reading.done]
  rename_i herror
  rw [if_neg herror] at h
  split
  · have hle := (readAssignment_rest_suffix_tail stop (token :: rest)).length_le
    rw [List.tail_cons, List.length_tail] at hle
    simp only [Reading.map, List.length_cons]
    omega
  rename_i hassign
  rw [if_neg hassign] at h
  split
  · rename_i hliteral
    rw [if_pos hliteral] at h
    simp only [Reading.map, readExpression_rest] at h ⊢
    cases hread : (readExpression stop (token :: rest)).result with
    | error d => simp [hread, Except.map] at h
    | ok leaf =>
      exact readValue_rest_length_lt true stop (token :: rest) leaf
        (readExpression_value_ok stop (token :: rest) leaf hread)
  rename_i hliteral
  rw [if_neg hliteral] at h
  split at h
  · simp [Reading.fail] at h
  · simp [Reading.fail] at h

end Assay
