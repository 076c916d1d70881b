-- How one statement is read. There are three ways: an error token is refused,
-- an item is read to its end, or the reading breaks off at some token. The
-- first tokens settle which, and what is reported.
import Assay.Proofs.Grammar

namespace Assay

/-! ## Breaking off -/

/-- Reading the tokens `begun` breaks off at the token after them, with this fault. -/
inductive Failure : List Token → Token → SyntaxFault → Prop
  | keyword {token : Token} (h : token.kind = .keyword) :
      Failure [] token (.misplacedKeyword token.value)
  /-- No value can be assigned to, a name apart. -/
  | assignedLiteral {value operator : Token} (hvalue : value.kind.isLiteral)
      (hname : value.kind ≠ .identifier) (h : operator.kind = .assignmentOperator) :
      Failure [value] operator .assignedLiteral
  | unexpected {token : Token} (hvalue : ¬ token.kind.isLiteral) (hkeyword : token.kind ≠ .keyword)
      (herror : token.kind ≠ .error) (hline : token.kind ≠ .newline)
      (hend : token.kind ≠ .endMark) :
      Failure [] token (.unexpected token.kind token.value)
  | missingValue {name operator token : Token} (hname : name.kind = .identifier)
      (hoperator : operator.kind = .assignmentOperator) (h : ¬ token.kind.isLiteral) :
      Failure [name, operator] token .missingValue

/-- Reading breaks off at the end mark, or at the first of the tokens ahead. -/
theorem exists_cons_of_headD {ahead : List Token} {stop : Token}
    (h : (ahead.headD stop).kind ≠ stop.kind) : ∃ first rest, ahead = first :: rest := by
  apply List.exists_cons_of_ne_nil
  intro hnil
  rw [hnil] at h
  exact h rfl

/-- The codes of findings for which reading breaks off. -/
def failureCodes : List String := ["P002", "P003", "P004", "P005"]

theorem Failure.code_mem {begun : List Token} {token : Token} {fault : SyntaxFault}
    (h : Failure begun token fault) : fault.problem.code ∈ failureCodes := by
  cases h <;> simp [SyntaxFault.problem, failureCodes]

theorem SyntaxFault.lexical_code (detail : Option Problem) :
    (SyntaxFault.lexical detail).problem.code = "P001" := by
  cases detail <;> rfl

/-! ## Values -/

theorem readValue_leaf (judged : Bool) (stop value : Token) (rest : List Token)
    (h : value.kind.isLiteral) :
    readValue judged stop (value :: rest) =
      ⟨.ok (Node.leafOf value h),
        if value.kind = .identifier ∧ ¬ judged then nameReports value else [], rest⟩ := by
  simp [readValue, Node.leaf?_eq_leafOf value h, Reading.after, Reading.done]

theorem readValue_missing (judged : Bool) (stop : Token) (ahead : List Token)
    (h : ¬ (ahead.headD stop).kind.isLiteral) :
    readValue judged stop ahead = .fail .missingValue (ahead.headD stop) ahead := by
  cases ahead with
  | nil => rfl
  | cons token rest =>
    have hleaf : Node.leaf? token = none := by
      have hkind : token.kind.leafKind? = none := by
        simpa [TokenKind.isLiteral] using h
      rw [Node.leaf?, hkind, Option.map_none]
    simp [readValue, hleaf]

/-! ## Expressions -/

section Expression

variable (stop value : Token) (rest : List Token) (hvalue : value.kind.isLiteral)

theorem readExpression_alone (hnext : (rest.headD stop).kind ≠ .assignmentOperator) :
    readExpression stop (value :: rest) =
      ⟨.ok (Node.leafOf value hvalue), nameFindings [value], rest⟩ := by
  unfold readExpression
  rw [readValue_leaf true stop value rest hvalue, nameFindings_singleton]
  simp only [if_neg hnext]
  simp [Reading.after]

include hvalue in
theorem readExpression_before_operator (hnext : (rest.headD stop).kind = .assignmentOperator) :
    readExpression stop (value :: rest) =
      ⟨.error (SyntaxFault.assignedLiteral.about (rest.headD stop)),
        nameFindings [value] ++ [SyntaxFault.assignedLiteral.about (rest.headD stop)], rest⟩ := by
  unfold readExpression
  rw [readValue_leaf true stop value rest hvalue, nameFindings_singleton]
  simp only [if_pos hnext]
  simp [Reading.after, Reading.fail]

include hvalue in
/-- A value is read as an expression, unless it is a name before an operator. -/
theorem readStatement_expression
    (h : ¬ (value.kind = .identifier ∧ (rest.headD stop).kind = .assignmentOperator)) :
    readStatement stop (value :: rest) = (readExpression stop (value :: rest)).map some := by
  have herror : value.kind ≠ .error := TokenKind.ne_of_isLiteral hvalue (by decide)
  unfold readStatement
  exact (if_neg herror).trans ((if_neg h).trans (if_pos hvalue))

end Expression

theorem readExpression_missing (stop : Token) (ahead : List Token)
    (h : ¬ (ahead.headD stop).kind.isLiteral) :
    readExpression stop ahead = .fail .missingValue (ahead.headD stop) ahead := by
  have hname : (ahead.headD stop).kind ≠ .identifier := TokenKind.ne_of_not_isLiteral h rfl
  unfold readExpression
  rw [readValue_missing true stop ahead h]
  simp only [if_neg hname]
  rfl

/-! ## Statements -/

theorem readStatement_assignment (stop name operator : Token) (rest : List Token)
    (hname : name.kind = .identifier) (hoperator : operator.kind = .assignmentOperator) :
    readStatement stop (name :: operator :: rest) =
      (((readValue false stop rest).map (Node.assignment name)).after (nameReports name)).map
        some := by
  have herror : name.kind ≠ .error := by simp [hname]
  unfold readStatement
  exact (if_neg herror).trans (if_pos ⟨hname, hoperator⟩)

theorem readStatement_refused (stop token : Token) (rest : List Token) (h : token.kind = .error) :
    readStatement stop (token :: rest) =
      ⟨.ok none, [(SyntaxFault.lexical token.error).about token], rest⟩ := by
  unfold readStatement
  exact if_pos h

/-- The statement of an item is read to its end, and its names are judged. -/
theorem readStatement_item (stop : Token) (item : Item) (rest : List Token) (statement : Node)
    (hitem : item.statement? = some statement) (hends : item.EndsBefore (rest.headD stop)) :
    readStatement stop (item.tokens ++ rest) =
      ⟨.ok (some statement), nameFindings item.tokens, rest⟩ := by
  cases item with
  | lineBreak mark hmark => cases hitem
  | bare value hvalue =>
    cases hitem
    have hroute := readStatement_expression stop value rest hvalue (fun h => hends h.2)
    rw [readExpression_alone stop value rest hvalue hends] at hroute
    exact hroute
  | assigned name operator value hname hoperator hvalue =>
    rw [Item.statement?_assigned] at hitem
    cases hitem
    have hother : operator.kind ≠ .identifier := by simp [hoperator]
    have hroute := readStatement_assignment stop name operator (value :: rest) hname hoperator
    rw [readValue_leaf false stop value rest hvalue] at hroute
    rw [Item.tokens, nameFindings_of_name hname, nameFindings_of_ne_name hother,
      nameFindings_singleton]
    simpa [Reading.map, Reading.after, Except.map] using hroute

/-- Where reading breaks off, the fault is reported after the names read so far, and the token
at fault is left. -/
theorem readStatement_failed (stop : Token) (begun ahead : List Token) (fault : SyntaxFault)
    (h : Failure begun (ahead.headD stop) fault) (hstop : stop.kind = .endMark) :
    readStatement stop (begun ++ ahead) =
      ⟨.error (fault.about (ahead.headD stop)),
        nameFindings begun ++ [fault.about (ahead.headD stop)], ahead⟩ := by
  cases h with
  | keyword hkind =>
    obtain ⟨token, rest, rfl⟩ := exists_cons_of_headD (by rw [hkind, hstop]; decide)
    have hkeyword : token.kind = .keyword := hkind
    unfold readStatement
    simp [hkeyword, TokenKind.isLiteral, TokenKind.leafKind?, Reading.fail]
  | unexpected hvalue hkeyword herror hline hend =>
    obtain ⟨token, rest, rfl⟩ := exists_cons_of_headD (by rw [hstop]; exact hend)
    have hname : ¬ (token.kind = .identifier ∧ (rest.headD stop).kind = .assignmentOperator) := by
      rintro ⟨hkind, -⟩
      apply hvalue
      rw [List.headD_cons, hkind]
      rfl
    unfold readStatement
    exact (if_neg herror).trans ((if_neg hname).trans ((if_neg hvalue).trans (if_neg hkeyword)))
  | @assignedLiteral value _ hvalue hname hoperator =>
    have hroute := readStatement_expression stop value ahead hvalue (fun h => hname h.1)
    rw [readExpression_before_operator stop value ahead hvalue hoperator] at hroute
    exact hroute
  | @missingValue name operator _ hname hoperator hvalue =>
    have hother : operator.kind ≠ .identifier := by simp [hoperator]
    have hroute := readStatement_assignment stop name operator ahead hname hoperator
    rw [readValue_missing false stop ahead hvalue] at hroute
    rw [nameFindings_of_name hname, nameFindings_of_ne_name hother, nameFindings_nil,
      List.append_nil]
    exact hroute

/-! ## One of these ways is always open -/

/-- After a name and an operator, a value makes the assignment whole, and anything else, the
end mark included, is where reading breaks off. -/
theorem assignment_ways (stop name : Token) (rest : List Token) (hstop : stop.kind = .endMark)
    (hname : name.kind = .identifier) (hnext : (rest.headD stop).kind = .assignmentOperator) :
    (∃ (item : Item) (after : List Token), name :: rest = item.tokens ++ after ∧
      item.statement?.isSome ∧ item.EndsBefore (after.headD stop)) ∨
    ∃ (begun ahead : List Token) (fault : SyntaxFault), name :: rest = begun ++ ahead ∧
      Failure begun (ahead.headD stop) fault := by
  obtain ⟨operator, ahead, rfl⟩ := exists_cons_of_headD (by rw [hnext, hstop]; decide)
  by_cases hvalue : (ahead.headD stop).kind.isLiteral
  · obtain ⟨value, after, rfl⟩ := exists_cons_of_headD
      (TokenKind.ne_of_isLiteral hvalue (by rw [hstop]; decide))
    exact Or.inl ⟨.assigned name operator value hname hnext hvalue, after, rfl, rfl, trivial⟩
  · exact Or.inr ⟨[name, operator], ahead, .missingValue, rfl, .missingValue hname hnext hvalue⟩

/-- Tokens that are read as a statement start with an error token, with an item that can end
where it does, or with something in which reading breaks off. -/
theorem statement_ways (stop token : Token) (rest : List Token) (hstop : stop.kind = .endMark)
    (hline : token.kind ≠ .newline) (hend : token.kind ≠ .endMark) :
    token.kind = .error ∨
    (∃ (item : Item) (after : List Token), token :: rest = item.tokens ++ after ∧
      item.statement?.isSome ∧ item.EndsBefore (after.headD stop)) ∨
    ∃ (begun ahead : List Token) (fault : SyntaxFault), token :: rest = begun ++ ahead ∧
      Failure begun (ahead.headD stop) fault := by
  by_cases herror : token.kind = .error
  · exact Or.inl herror
  refine Or.inr ?_
  by_cases hvalue : token.kind.isLiteral
  · by_cases hnext : (rest.headD stop).kind = .assignmentOperator
    · by_cases hname : token.kind = .identifier
      · exact assignment_ways stop token rest hstop hname hnext
      · exact Or.inr ⟨[token], rest, .assignedLiteral, rfl, .assignedLiteral hvalue hname hnext⟩
    · exact Or.inl ⟨.bare token hvalue, rest, rfl, rfl, hnext⟩
  · by_cases hkeyword : token.kind = .keyword
    · exact Or.inr ⟨[], token :: rest, _, rfl, .keyword hkeyword⟩
    · exact Or.inr ⟨[], token :: rest, _, rfl, .unexpected hvalue hkeyword herror hline hend⟩

/-- A statement that fails is one in which reading breaks off. -/
theorem exists_failure_of_error {stop token : Token} {rest : List Token} {d : Diagnostic}
    (hstop : stop.kind = .endMark) (hline : token.kind ≠ .newline) (hend : token.kind ≠ .endMark)
    (h : (readStatement stop (token :: rest)).result = .error d) :
    ∃ (begun ahead : List Token) (fault : SyntaxFault), Failure begun (ahead.headD stop) fault ∧
      d = fault.about (ahead.headD stop) ∧
      readStatement stop (token :: rest) = ⟨.error d, nameFindings begun ++ [d], ahead⟩ := by
  rcases statement_ways stop token rest hstop hline hend with
    herror | ⟨item, after, hsplit, hitem, hends⟩ | ⟨begun, ahead, fault, hsplit, hfailure⟩
  · rw [readStatement_refused stop token rest herror] at h
    cases h
  · obtain ⟨statement, hstatement⟩ := Option.isSome_iff_exists.mp hitem
    rw [hsplit, readStatement_item stop item after statement hstatement hends] at h
    cases h
  · have hread := readStatement_failed stop begun ahead fault hfailure hstop
    rw [hsplit, hread] at h
    cases h
    exact ⟨begun, ahead, fault, hfailure, rfl, by rw [hsplit, hread]⟩

end Assay
