-- Block literals. A step reads one up to the first three quotes outside a
-- unit. Where there are none it takes all that is left, and then the literal
-- is found to be open, unless its last three characters are quotes: whether
-- the first of these is escaped is not looked at.
import Assay.Proofs.Literals

namespace Assay

/-! ## Where three quotes stand -/

/-- The first three quotes outside a unit stand behind these units. -/
structure FirstClose (quote : Char) (body : List Char) (units : List BodyUnit) : Prop where
  closes : ClosesAfter [quote, quote, quote] body units
  first : ∀ others, ClosesAfter [quote, quote, quote] body others →
    (unitsText units).length ≤ (unitsText others).length

/-- No three quotes stand in the body outside a unit. -/
def Unclosed (quote : Char) (body : List Char) : Prop :=
  ∀ units, ¬ ClosesAfter [quote, quote, quote] body units

/-- The body ends with an escaped quote and two more. -/
def EndsEscaped (quote : Char) (body : List Char) : Prop :=
  ∃ units, body = unitsText (units ++ [.escape quote]) ++ [quote, quote]

section

variable {quote : Char} {body : List Char}

theorem exists_firstClose {units : List BodyUnit}
    (h : ClosesAfter [quote, quote, quote] body units) :
    ∃ first, FirstClose quote body first := by
  obtain ⟨first, hcloses, hleast⟩ :=
    (measure fun units => (unitsText units).length).wf.has_min
      {units | ClosesAfter [quote, quote, quote] body units} ⟨units, h⟩
  exact ⟨first, hcloses, fun others hothers => Nat.le_of_not_lt (hleast others hothers)⟩

theorem FirstClose.of_plain {c : Char} {hc : c ≠ '\\'} {units : List BodyUnit}
    (h : FirstClose quote (c :: body) (.plain c hc :: units)) : FirstClose quote body units := by
  refine ⟨(closesAfter_plain.mp h.closes).2, ?_⟩
  intro others hothers
  have hle := h.first (.plain c hc :: others) (closesAfter_plain.mpr ⟨rfl, hothers⟩)
  simp only [unitsText_plain, List.length_cons] at hle
  omega

theorem FirstClose.of_escape {c : Char} {units : List BodyUnit}
    (h : FirstClose quote ('\\' :: c :: body) (.escape c :: units)) :
    FirstClose quote body units := by
  refine ⟨(closesAfter_escape.mp h.closes).2.2, ?_⟩
  intro others hothers
  have hle := h.first (.escape c :: others) (closesAfter_escape.mpr ⟨rfl, rfl, hothers⟩)
  simp only [unitsText_escape, List.length_cons] at hle
  omega

/-- Up to and with the first three quotes outside a unit, a body is a closed one. -/
theorem FirstClose.blockBody {units : List BodyUnit} (h : FirstClose quote body units) :
    BlockBody quote (unitsText units ++ [quote, quote, quote]) := by
  induction units generalizing body with
  | nil => exact .close
  | cons unit units ih =>
    obtain ⟨more, hmore⟩ := h.closes
    subst hmore
    cases unit with
    | escape c => exact .escape (ih h.of_escape)
    | plain c hc =>
      refine .plain hc ?_ (ih h.of_plain)
      -- Three quotes at this very place would come before the first ones.
      intro hquotes
      have hle := h.first [] (hquotes.trans (List.prefix_append _ more))
      simp at hle

theorem BlockBody.exists_units {closed : List Char} (h : BlockBody quote closed) :
    ∃ units, closed = unitsText units ++ [quote, quote, quote] := by
  induction h with
  | close => exact ⟨[], rfl⟩
  | @plain c rest hc _ _ ih =>
    obtain ⟨units, rfl⟩ := ih
    exact ⟨.plain c hc :: units, rfl⟩
  | @escape c rest _ ih =>
    obtain ⟨units, rfl⟩ := ih
    exact ⟨.escape c :: units, rfl⟩

/-- A body without three quotes outside a unit is read to its end. -/
theorem Unclosed.blockBodyLength_eq (h : Unclosed quote body) :
    blockBodyLength quote body = body.length := by
  rcases exists_closed_or_blockBodyLength quote body with ⟨closed, hclosed, hpre⟩ | hlength
  · obtain ⟨units, rfl⟩ := hclosed.exists_units
    exact absurd hpre (h units)
  · exact hlength

/-- If three quotes stand at the end of such a body, the first of them is escaped. -/
theorem Unclosed.suffix_iff (h : Unclosed quote body) :
    [quote, quote, quote] <:+ body ↔ EndsEscaped quote body := by
  constructor
  · rintro ⟨front, rfl⟩
    obtain ⟨units, rfl | rfl⟩ := Assay.exists_units front
    · exact absurd (List.prefix_refl _) (h units)
    · refine ⟨units, ?_⟩
      rw [unitsText_append]
      simp
  · rintro ⟨units, rfl⟩
    rw [unitsText_append]
    exact ⟨unitsText units ++ ['\\'], by simp⟩

end

/-! ## What is judged -/

/-- A block literal is judged by its last three characters, as far as these are not the quotes
that open it. -/
theorem literalFault?_block {quote : Char} (hquote : isQuote quote) (body : List Char) :
    literalFault? quote (quote :: quote :: body) =
      if [quote, quote, quote] <:+ body then none else some (.openBlock quote) := by
  have hpre : [quote, quote].isPrefixOf (quote :: quote :: body) :=
    List.isPrefixOf_iff_prefix.mpr ⟨body, rfl⟩
  have hopen : (quote :: quote :: body).length < 5 ∨
      ¬ [quote, quote, quote].isSuffixOf (quote :: quote :: body) ↔
        ¬ [quote, quote, quote] <:+ body := by
    rw [List.isSuffixOf_iff_suffix]
    constructor
    · rintro (hshort | hnot) hsuffix
      · have hlength := hsuffix.length_le
        simp only [List.length_cons, List.length_nil] at hshort hlength
        omega
      · exact hnot ((hsuffix.trans (List.suffix_cons _ _)).trans (List.suffix_cons _ _))
    · intro hnot
      by_cases hshort : (quote :: quote :: body).length < 5
      · exact Or.inl hshort
      · refine Or.inr fun hsuffix => hnot ?_
        simp only [List.length_cons] at hshort
        exact List.suffix_of_suffix_length_le hsuffix
          ((List.suffix_cons _ _).trans (List.suffix_cons _ _))
          (by simp only [List.length_cons, List.length_nil]; omega)
  unfold literalFault?
  rw [if_pos ⟨hquote, hpre⟩]
  by_cases hsuffix : [quote, quote, quote] <:+ body
  · rw [if_pos hsuffix, if_neg (fun h => hopen.mp h hsuffix)]
  · rw [if_neg hsuffix, if_pos (hopen.mpr hsuffix)]

section

variable {quote : Char} {body : List Char} (hquote : isQuote quote)

include hquote

/-- The literal that is read at the front of a text, and what is judged of it. -/
theorem Lexeme.first_of_firstClose {units : List BodyUnit} (h : FirstClose quote body units) :
    Lexeme.first quote (quote :: quote :: body) =
      ⟨.string, quote :: quote :: quote :: (unitsText units ++ [quote, quote, quote]), none⟩ := by
  obtain ⟨more, rfl⟩ := h.closes
  have hbody := h.blockBody
  rw [first_of_blockLiteral hquote, hbody.blockBodyLength_append hquote, List.take_left' rfl,
    judge_string, hbody.literalFault?_append hquote]
  rfl

theorem Lexeme.first_of_unclosed (h : Unclosed quote body) :
    Lexeme.first quote (quote :: quote :: body) =
      if [quote, quote, quote] <:+ body then ⟨.string, quote :: quote :: quote :: body, none⟩
      else ⟨.error, quote :: quote :: quote :: body, some (.openBlock quote)⟩ := by
  rw [first_of_blockLiteral hquote, h.blockBodyLength_eq, List.take_length, judge_string,
    literalFault?_block hquote]
  split <;> rfl

/-- A matched text is judged to be closed when quotes close it, or when it ends as if they did. -/
theorem literalFault?_matched :
    literalFault? quote (quote :: quote :: body.take (blockBodyLength quote body)) = none ↔
      (∃ units, ClosesAfter [quote, quote, quote] body units) ∨ EndsEscaped quote body := by
  by_cases hcloses : ∃ units, ClosesAfter [quote, quote, quote] body units
  · obtain ⟨units, hunits⟩ := hcloses
    obtain ⟨first, hfirst⟩ := exists_firstClose hunits
    obtain ⟨more, hmore⟩ := hfirst.closes
    have hclosed := hfirst.blockBody
    refine iff_of_true ?_ (Or.inl ⟨units, hunits⟩)
    rw [← hmore, hclosed.blockBodyLength_append hquote, List.take_left' rfl]
    exact hclosed.literalFault?_append hquote
  · have hopen : Unclosed quote body := fun units hunits => hcloses ⟨units, hunits⟩
    rw [or_iff_right hcloses, ← hopen.suffix_iff, hopen.blockBodyLength_eq, List.take_length,
      literalFault?_block hquote]
    split
    · rename_i hsuffix
      exact iff_of_true rfl hsuffix
    · rename_i hsuffix
      exact iff_of_false (Option.some_ne_none _) hsuffix

end

/-! ## The law -/

/-- A block literal is accepted by its last quotes. If three quotes stand in the body outside a
unit, a step gives a string up to and with the first ones. If there are none, it gives all of the
text as one error token, a literal that is never closed, unless the body ends with an escaped quote
and two more: these are taken for closing quotes, and the text is a string. So a matched text is
judged to be closed when quotes close it, and in this one case besides. -/
theorem a_block_literal_is_accepted_by_its_last_quotes (source : String) (offset : Nat)
    (quote : Char) (body : List Char) (hquote : isQuote quote)
    (htext : source.toList.drop offset = quote :: quote :: quote :: body) :
    ((∃ units, ClosesAfter [quote, quote, quote] body units) →
      ∃ units, FirstClose quote body units) ∧
    (∀ units, FirstClose quote body units →
      ReadAt source offset
        ⟨.string, quote :: quote :: quote :: (unitsText units ++ [quote, quote, quote]), none⟩) ∧
    (Unclosed quote body →
      (ReadAt source offset
          ⟨.error, quote :: quote :: quote :: body, some (.openBlock quote)⟩ ↔
        ¬ EndsEscaped quote body) ∧
      (EndsEscaped quote body →
        ReadAt source offset ⟨.string, quote :: quote :: quote :: body, none⟩)) ∧
    (LexicalFault.openBlock quote).problem.code = "L002" ∧
    (literalProblem? (String.ofList ((quote :: quote :: quote :: body).take
        (blockLength (quote :: quote :: quote :: body)))) = .ok none ↔
      (∃ units, ClosesAfter [quote, quote, quote] body units) ∨ EndsEscaped quote body) := by
  have hread := readAt_first htext
  refine ⟨fun ⟨_, h⟩ => exists_firstClose h, ?_, ?_, rfl, ?_⟩
  · intro units hunits
    rwa [Lexeme.first_of_firstClose hquote hunits] at hread
  · intro hopen
    rw [Lexeme.first_of_unclosed hquote hopen] at hread
    by_cases hends : EndsEscaped quote body
    · rw [if_pos (hopen.suffix_iff.mpr hends)] at hread
      refine ⟨iff_of_false (fun herror => ?_) (not_not.mpr hends), fun _ => hread⟩
      exact absurd (herror.kind_eq hread) (by simp)
    · rw [if_neg (fun hsuffix => hends (hopen.suffix_iff.mp hsuffix))] at hread
      exact ⟨iff_of_true hread hends, fun h => absurd h hends⟩
  · have hlength : blockLength (quote :: quote :: quote :: body) =
        blockBodyLength quote body + 3 := by
      rw [blockLength, if_pos ⟨hquote, rfl, rfl⟩, Nat.add_comm]
    rw [← literalFault?_matched hquote, hlength, List.take_succ_cons, List.take_succ_cons,
      List.take_succ_cons, literalProblem?, String.toList_ofList]
    simp

/-- A character, an escaped quote and four more. -/
def quotesInARow : List Char := ['a', '\\', '\'', '\'', '\'', '\'', '\'']

theorem firstClose_quotesInARow :
    FirstClose '\'' quotesInARow [.plain 'a' (by decide), .escape '\''] := by
  refine ⟨⟨['\''], rfl⟩, ?_⟩
  intro others hothers
  match others with
  | [] => simp [quotesInARow] at hothers
  | .plain _ _ :: .escape _ :: others => simp
  | [.plain _ _] => simp [quotesInARow] at hothers
  | .plain _ _ :: .plain d hd :: others => simp [quotesInARow, hd] at hothers
  | .escape _ :: others => simp [quotesInARow] at hothers

/-- The escaped quote does not count, and the last one is left for the next step. -/
theorem an_escaped_quote_stands_before_the_close :
    isQuote '\'' ∧ "s='''a\\'''''".toList.drop 2 = '\'' :: '\'' :: '\'' :: quotesInARow ∧
      FirstClose '\'' quotesInARow [.plain 'a' (by decide), .escape '\''] ∧
      ReadAt "s='''a\\'''''" 2 ⟨.string, "'''a\\''''".toList, none⟩ := by
  have htext : "s='''a\\'''''".toList.drop 2 = '\'' :: '\'' :: '\'' :: quotesInARow := by decide
  obtain ⟨-, hclosed, -⟩ := a_block_literal_is_accepted_by_its_last_quotes "s='''a\\'''''" 2 '\''
    quotesInARow (by decide) htext
  exact ⟨by decide, htext, firstClose_quotesInARow, hclosed _ firstClose_quotesInARow⟩

/-- Three quotes, an escaped quote and two more: nothing closes the literal, and it is accepted. -/
theorem an_open_block_literal_can_be_accepted :
    ¬ ∀ (source : String) (offset : Nat) (quote : Char) (body : List Char), isQuote quote →
      source.toList.drop offset = quote :: quote :: quote :: body → Unclosed quote body →
        ReadAt source offset
          ⟨.error, quote :: quote :: quote :: body, some (.openBlock quote)⟩ := by
  intro h
  have htext : "\"\"\"\\\"\"\"".toList.drop 0 = '"' :: '"' :: '"' :: ['\\', '"', '"', '"'] := by
    decide
  have hopen : Unclosed '"' ['\\', '"', '"', '"'] := by
    intro units hunits
    match units with
    | [] => simp at hunits
    | .plain c hc :: units => simp [hc] at hunits
    | .escape c :: units =>
      -- The escape takes two of the four characters, and three quotes do not fit behind it.
      have hlength := hunits.length_le
      simp only [unitsText_escape, List.cons_append, List.length_cons, List.length_append,
        List.length_nil] at hlength
      omega
  have hread := readAt_first htext
  rw [Lexeme.first_of_unclosed (by decide) hopen, if_pos ⟨['\\'], rfl⟩] at hread
  exact absurd ((h _ 0 '"' _ (by decide) htext hopen).kind_eq hread) (by simp)

end Assay
