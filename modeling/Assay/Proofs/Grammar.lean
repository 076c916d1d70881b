-- The grammar: a program is a row of items, each a line break, a bare value or
-- an assignment. A row of tokens is the row of at most one list of items.
import Assay.Reading.Program

namespace Assay

/-! ## Items -/

/-- The leaf of a token that may stand as a value. -/
def Node.leafOf (token : Token) (h : token.kind.isLiteral) : Node :=
  ⟨token.kind.leafKind?.get h, some token.value, [], some token⟩

theorem Node.leaf?_eq_leafOf (token : Token) (h : token.kind.isLiteral) :
    Node.leaf? token = some (Node.leafOf token h) := by
  obtain ⟨kind, hkind⟩ := Option.isSome_iff_exists.mp h
  simp [Node.leaf?, Node.leafOf, hkind]

/-- An item of a program. -/
inductive Item where
  | lineBreak (mark : Token) (isNewline : mark.kind = .newline)
  /-- A name or a literal that stands alone. -/
  | bare (value : Token) (isLiteral : value.kind.isLiteral)
  /-- A name, an operator and the value that is assigned. -/
  | assigned (name operator value : Token) (isName : name.kind = .identifier)
      (isOperator : operator.kind = .assignmentOperator) (isLiteral : value.kind.isLiteral)

namespace Item

def tokens : Item → List Token
  | lineBreak mark _ => [mark]
  | bare value _ => [value]
  | assigned name operator value _ _ _ => [name, operator, value]

/-- The statement that an item makes: a line break makes none. -/
def statement? : Item → Option Node
  | lineBreak _ _ => none
  | bare value h => some (Node.leafOf value h)
  | assigned name _ value _ _ h =>
    some ⟨.assignment, some name.value, [Node.leafOf value h], some name⟩

/-- The statement is the one that the parser makes of a name and a leaf. -/
theorem statement?_assigned (name operator value : Token) (isName : name.kind = .identifier)
    (isOperator : operator.kind = .assignmentOperator) (isLiteral : value.kind.isLiteral) :
    (assigned name operator value isName isOperator isLiteral).statement? =
      some (Node.assignment name (Node.leafOf value isLiteral)) :=
  rfl

/-- Whether an item can end before the token `next`: a bare value cannot be assigned to. -/
def EndsBefore (next : Token) : Item → Prop
  | bare _ _ => next.kind ≠ .assignmentOperator
  | _ => True

/-! ## One list of items for a row of tokens -/

theorem tokens_ne_nil (item : Item) : item.tokens ≠ [] := by
  cases item <;> simp [tokens]

theorem head_tokens_ne_operator (items : List Item) {first : Token} {rest : List Token}
    (h : items.flatMap tokens = first :: rest) : first.kind ≠ .assignmentOperator := by
  cases items with
  | nil => simp at h
  | cons item items =>
    intro hkind
    cases item with
    | lineBreak mark hmark =>
      simp only [List.flatMap_cons, tokens, List.cons_append, List.cons.injEq] at h
      rw [h.1, hkind] at hmark
      cases hmark
    | bare value hvalue =>
      simp only [List.flatMap_cons, tokens, List.cons_append, List.cons.injEq] at h
      rw [← h.1] at hkind
      exact TokenKind.ne_of_isLiteral hvalue (by decide) hkind
    | assigned name operator value hname hoperator hvalue =>
      simp only [List.flatMap_cons, tokens, List.cons_append, List.cons.injEq] at h
      rw [h.1, hkind] at hname
      cases hname

/-- An item ends before whatever item comes next, and before the end mark. -/
theorem endsBefore_items (item : Item) (items : List Item) (stop : Token)
    (hstop : stop.kind = .endMark) :
    item.EndsBefore ((items.flatMap tokens).headD stop) := by
  cases item with
  | lineBreak mark hmark => trivial
  | assigned name operator value hname hoperator hvalue => trivial
  | bare value hvalue =>
    show ((items.flatMap tokens).headD stop).kind ≠ .assignmentOperator
    cases hrow : items.flatMap tokens with
    | nil => simp [hstop]
    | cons first rest => exact head_tokens_ne_operator items hrow

/-- Two items at the front of the same tokens are the same, if both end there. -/
theorem eq_of_tokens_append {a b : Item} {afterA afterB : List Token}
    (h : a.tokens ++ afterA = b.tokens ++ afterB)
    (ha : ∀ next ∈ afterA.head?, a.EndsBefore next)
    (hb : ∀ next ∈ afterB.head?, b.EndsBefore next) : a = b ∧ afterA = afterB := by
  -- Unlike items differ in the kind of their first token, but for a bare name before an operator,
  -- which cannot end there.
  cases a <;> cases b <;>
    simp only [tokens, List.cons_append, List.nil_append, List.cons.injEq] at h
  case lineBreak.lineBreak | bare.bare => simp [h]
  case assigned.assigned => simp [h]
  case lineBreak.bare mark hmark value hvalue =>
    rw [h.1] at hmark
    exact absurd hmark (TokenKind.ne_of_isLiteral hvalue (by decide))
  case bare.lineBreak value hvalue mark hmark =>
    rw [← h.1] at hmark
    exact absurd hmark (TokenKind.ne_of_isLiteral hvalue (by decide))
  case lineBreak.assigned mark hmark name operator value hname hoperator hvalue =>
    rw [← h.1, hmark] at hname
    cases hname
  case assigned.lineBreak name operator value hname hoperator hvalue mark hmark =>
    rw [h.1, hmark] at hname
    cases hname
  case bare.assigned value hvalue name operator other hname hoperator hother =>
    exact absurd hoperator (ha operator (by simp [h.2]))
  case assigned.bare name operator other hname hoperator hother value hvalue =>
    exact absurd hoperator (hb operator (by simp [← h.2]))

theorem flatMap_tokens_injective {items others : List Item}
    (h : items.flatMap tokens = others.flatMap tokens) : items = others := by
  induction items generalizing others with
  | nil =>
    cases others with
    | nil => rfl
    | cons other others =>
      have hnil : other.tokens = [] := by
        simp only [List.flatMap_nil, List.flatMap_cons] at h
        exact (List.append_eq_nil_iff.mp h.symm).1
      exact absurd hnil other.tokens_ne_nil
  | cons item items ih =>
    cases others with
    | nil =>
      have hnil : item.tokens = [] := by
        simp only [List.flatMap_nil, List.flatMap_cons] at h
        exact (List.append_eq_nil_iff.mp h).1
      exact absurd hnil item.tokens_ne_nil
    | cons other others =>
      simp only [List.flatMap_cons] at h
      have ends : ∀ (first : Item) (row : List Item),
          ∀ next ∈ (row.flatMap tokens).head?, first.EndsBefore next := by
        intro first row next hnext
        have hrow := first.endsBefore_items row (.endMark .start) rfl
        rw [List.headD_eq_head?_getD, Option.mem_def.mp hnext] at hrow
        exact hrow
      obtain ⟨hsame, hrest⟩ := eq_of_tokens_append h (ends item items) (ends other others)
      rw [hsame, ih hrest]

end Item

/-! ## Findings about names -/

/-- The findings about the names among some tokens, in their order: one for each name whose
text is no proper name. -/
def nameFindings (tokens : List Token) : List Diagnostic :=
  (tokens.filter (fun token => token.kind = .identifier)).filterMap
    (fun token => (identifierProblem? token.value).map (Diagnostic.about token))

@[simp] theorem nameFindings_nil : nameFindings [] = [] := rfl

theorem nameFindings_append (a b : List Token) :
    nameFindings (a ++ b) = nameFindings a ++ nameFindings b := by
  simp [nameFindings]

theorem nameFindings_flatMap (items : List Item) :
    nameFindings (items.flatMap Item.tokens) =
      items.flatMap (fun item => nameFindings item.tokens) := by
  induction items with
  | nil => rfl
  | cons item items ih =>
    rw [List.flatMap_cons, List.flatMap_cons, nameFindings_append, ih]

theorem nameFindings_of_name {token : Token} (h : token.kind = .identifier)
    (rest : List Token) :
    nameFindings (token :: rest) = nameReports token ++ nameFindings rest := by
  unfold nameFindings nameReports identifierProblem?
  rw [List.filter_cons_of_pos (by simp [h]), List.filterMap_cons]
  cases identifierFault? token.value with
  | none => rfl
  | some fault => rfl

theorem nameFindings_of_ne_name {token : Token} (h : token.kind ≠ .identifier)
    (rest : List Token) : nameFindings (token :: rest) = nameFindings rest := by
  unfold nameFindings
  rw [List.filter_cons_of_neg (by simp [h])]

theorem nameFindings_singleton (token : Token) :
    nameFindings [token] = if token.kind = .identifier then nameReports token else [] := by
  by_cases h : token.kind = .identifier
  · rw [if_pos h, nameFindings_of_name h, nameFindings_nil, List.append_nil]
  · rw [if_neg h, nameFindings_of_ne_name h, nameFindings_nil]

def nameCodes : List String := ["P006", "P007", "P008"]

theorem IdentifierFault.code_mem (text : String) (fault : IdentifierFault) :
    (fault.problem text).code ∈ nameCodes := by
  cases fault <;> simp [problem, nameCodes]

theorem code_of_mem_nameFindings {tokens : List Token} {d : Diagnostic}
    (h : d ∈ nameFindings tokens) : d.problem.code ∈ nameCodes := by
  obtain ⟨token, -, hd⟩ := List.mem_filterMap.mp h
  obtain ⟨problem, hproblem, rfl⟩ := Option.map_eq_some_iff.mp hd
  obtain ⟨fault, -, rfl⟩ := Option.map_eq_some_iff.mp hproblem
  exact fault.code_mem token.value

end Assay
