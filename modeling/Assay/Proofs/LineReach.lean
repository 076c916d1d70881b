-- How far a rule sees: no further than the end of the line. What a rule takes
-- from the front of a text is settled before the first line end after it. Only
-- a block literal reads on, and it too stops at the quotes that close it.
import Assay.Proofs.Lexemes

namespace Assay

/-! ## What the shapes see -/

theorem lineEnd_cases {c : Char} (h : isLineEnd c) : c = '\r' ∨ c = '\n' := by
  simpa [isLineEnd] using h

section Front

variable {front rest : List Char}

theorem takeWhile_append_of_head {p : Char → Bool} (h : ∀ c ∈ rest.head?, ¬ p c)
    (front : List Char) : (front ++ rest).takeWhile p = front.takeWhile p := by
  induction front with
  | nil => exact takeWhile_append_stop (by simp) h
  | cons c front ih =>
    rw [List.cons_append]
    by_cases hc : p c
    · rw [List.takeWhile_cons_of_pos hc, List.takeWhile_cons_of_pos hc, ih]
    · rw [List.takeWhile_cons_of_neg hc, List.takeWhile_cons_of_neg hc]

theorem isPrefixOf_append_of_head {s : List Char} (h : ∀ c ∈ rest.head?, c ∉ s) :
    s.isPrefixOf (front ++ rest) = s.isPrefixOf front := by
  rw [Bool.eq_iff_iff, List.isPrefixOf_iff_prefix, List.isPrefixOf_iff_prefix]
  constructor
  · intro hpre
    by_cases hlength : s.length ≤ front.length
    · exact List.prefix_of_prefix_length_le hpre (List.prefix_append _ _) hlength
    · obtain ⟨c, more, rfl, hc⟩ := exists_head_of_longer hpre (by omega)
      exact absurd (by simp) (h c hc)
  · intro hpre
    exact hpre.trans (List.prefix_append _ _)

/-- A pattern sees no character that none of its classes holds. -/
theorem Pattern.length?_append {p : Pattern} (h : ∀ c ∈ rest.head?, ¬ p.uses c) :
    p.length? (front ++ rest) = p.length? front := by
  induction p generalizing front with
  | one member =>
    cases front with
    | cons c front => rfl
    | nil =>
      cases rest with
      | nil => rfl
      | cons c rest => exact if_neg (h c rfl)
  | many member =>
    have hrun : ∀ c ∈ rest.head?, ¬ member c := h
    simp only [length?, takeWhile_append_of_head hrun]
  | seq first second ihfirst ihsecond =>
    have hfirst : ∀ c ∈ rest.head?, ¬ first.uses c := fun c hc huses =>
      h c hc (Bool.or_eq_true_iff.mpr (Or.inl huses))
    have hsecond : ∀ c ∈ rest.head?, ¬ second.uses c := fun c hc huses =>
      h c hc (Bool.or_eq_true_iff.mpr (Or.inr huses))
    rw [length?, length?, ihfirst hfirst]
    cases hn : first.length? front with
    | none => rfl
    | some n =>
      rw [Option.bind_some, Option.bind_some, List.drop_append_of_le_length (length?_le hn),
        ihsecond hsecond]
  | optional part ih => rw [length?, length?, ih h]

theorem continuesWord_append (h : ∀ c ∈ rest.head?, ¬ isWordChar c) :
    continuesWord (front ++ rest) = continuesWord front := by
  cases front with
  | cons c front => rfl
  | nil =>
    cases rest with
    | nil => rfl
    | cons c rest => simpa [continuesWord] using h c rfl

/-- A literal on one line sees nothing past the line end. -/
theorem lineBodyLength_append_of_lineEnd (quote : Char) (h : ∀ c ∈ rest.head?, isLineEnd c)
    (front : List Char) : lineBodyLength quote (front ++ rest) = lineBodyLength quote front := by
  fun_induction lineBodyLength quote front with
  | case1 =>
    cases rest with
    | nil => rfl
    | cons c rest =>
      have hc : isLineEnd c := h c rfl
      rw [List.nil_append, lineBodyLength_cons (by rintro rfl; cases hc), if_pos hc]
  | case2 =>
    cases rest with
    | nil => rfl
    | cons c rest =>
      have hc : isLineEnd c := h c rfl
      rw [List.cons_append, List.nil_append, lineBodyLength, if_pos hc]
  | case3 c front hc => rw [List.cons_append, List.cons_append, lineBodyLength, if_pos hc]
  | case4 c front hc ih =>
    rw [List.cons_append, List.cons_append, lineBodyLength, if_neg hc, ih]
  | case5 c front hlast hunit hc =>
    rw [List.cons_append, lineBodyLength_cons (by rintro rfl; cases hc), if_pos hc]
  | case6 front hlast hunit hc =>
    rw [List.cons_append, lineBodyLength_cons (ne_backslash hlast hunit), if_neg hc, if_pos rfl]
  | case7 c front hlast hunit hc hquote ih =>
    rw [List.cons_append, lineBodyLength_cons (ne_backslash hlast hunit), if_neg hc,
      if_neg hquote, ih]

theorem lineLength_append_of_lineEnd (h : ∀ c ∈ rest.head?, isLineEnd c) :
    lineLength (front ++ rest) = lineLength front := by
  cases front with
  | cons quote front =>
    rw [List.cons_append, lineLength, lineLength, lineBodyLength_append_of_lineEnd quote h]
  | nil =>
    cases rest with
    | nil => rfl
    | cons c rest =>
      have hquote : ¬ isQuote c := fun hquote => isQuote_ne_lineEnd hquote (h c rfl)
      rw [List.nil_append, lineLength, if_neg hquote, lineLength]

/-- A run that is over within the front part is that of the front part. -/
theorem length_takeWhile_append_of_le {p : Char → Bool}
    (h : ((front ++ rest).takeWhile p).length ≤ front.length) :
    ((front ++ rest).takeWhile p).length = (front.takeWhile p).length := by
  rw [List.takeWhile_append] at h ⊢
  split at h
  · rename_i hall
    rw [if_pos hall, hall]
    rw [List.length_append] at h ⊢
    omega
  · rename_i hsome
    rw [if_neg hsome]

/-- A literal that is over within the front part is that of the front part. -/
theorem lineBodyLength_append_of_le (quote : Char)
    (h : lineBodyLength quote (front ++ rest) ≤ front.length) :
    lineBodyLength quote (front ++ rest) = lineBodyLength quote front := by
  fun_induction lineBodyLength quote front with
  | case1 => exact Nat.le_zero.mp h
  | case2 =>
    cases rest with
    | nil => rfl
    | cons c rest =>
      rw [List.cons_append, List.nil_append, lineBodyLength] at h ⊢
      split at h
      · rename_i hc
        rw [if_pos hc]
      · rw [List.length_singleton] at h
        omega
  | case3 c front hc => rw [List.cons_append, List.cons_append, lineBodyLength, if_pos hc]
  | case4 c front hc ih =>
    rw [List.cons_append, List.cons_append, lineBodyLength, if_neg hc] at h ⊢
    simp only [List.length_cons] at h
    rw [ih (by omega)]
  | case5 c front hlast hunit hc =>
    rw [List.cons_append, lineBodyLength_cons (by rintro rfl; cases hc), if_pos hc]
  | case6 front hlast hunit hc =>
    rw [List.cons_append, lineBodyLength_cons (ne_backslash hlast hunit), if_neg hc, if_pos rfl]
  | case7 c front hlast hunit hc hquote ih =>
    rw [List.cons_append, lineBodyLength_cons (ne_backslash hlast hunit), if_neg hc,
      if_neg hquote] at h ⊢
    rw [List.length_cons] at h
    rw [ih (by omega)]

theorem lineLength_append_of_le (h : lineLength (front ++ rest) ≤ front.length) :
    lineLength (front ++ rest) = lineLength front := by
  cases front with
  | nil => exact Nat.le_zero.mp h
  | cons quote front =>
    rw [List.cons_append, lineLength] at h ⊢
    rw [lineLength]
    split at h
    · rename_i hquote
      rw [List.length_cons] at h
      rw [if_pos hquote, if_pos hquote, lineBodyLength_append_of_le quote (by omega)]
    · rename_i hquote
      rw [if_neg hquote, if_neg hquote]

/-- Whether three quotes stand at the front is settled by three characters. -/
theorem blockLength_append_eq_zero_of_three (hthree : 3 ≤ front.length)
    (hfront : blockLength front = 0) : blockLength (front ++ rest) = 0 := by
  by_contra hne
  obtain ⟨quote, body, hquote, hrow⟩ := exists_quotes_of_blockLength hne
  have hprefix : [quote, quote, quote] <+: front ++ rest := ⟨body, hrow.symm⟩
  obtain ⟨tail, rfl⟩ :=
    List.prefix_of_prefix_length_le hprefix (List.prefix_append _ _) hthree
  rw [List.cons_append, List.cons_append, List.cons_append, blockLength,
    if_pos ⟨hquote, rfl, rfl⟩] at hfront
  omega

/-- No three quotes come to stand at the front for a line end that follows. -/
theorem blockLength_append_eq_zero (h : ∀ c ∈ rest.head?, isLineEnd c)
    (hfront : blockLength front = 0) : blockLength (front ++ rest) = 0 := by
  by_cases hthree : 3 ≤ front.length
  · exact blockLength_append_eq_zero_of_three hthree hfront
  · by_contra hne
    obtain ⟨quote, body, hquote, hrow⟩ := exists_quotes_of_blockLength hne
    have hprefix : [quote, quote, quote] <+: front ++ rest := ⟨body, hrow.symm⟩
    -- The character after the front part would be a quote and a line end at once.
    obtain ⟨c, more, hquotes, hc⟩ := exists_head_of_longer hprefix (not_le.mp hthree)
    have hmem : c ∈ [quote, quote, quote] := by simp [hquotes]
    have hsame : c = quote := by simpa using hmem
    rw [hsame] at hc
    exact isQuote_ne_lineEnd hquote (h quote hc)

end Front

/-! ## Block literals, closed and open -/

/-- A text that starts with three quotes, after which no three such quotes stand in a row outside a
unit. -/
def OpenBlock (text : List Char) : Prop :=
  ∃ quote body, isQuote quote ∧ text = quote :: quote :: quote :: body ∧
    ∀ closed, BlockBody quote closed → ¬ closed <+: body

/-- A block literal is read up to the quotes that close it, or else to the end of the text. -/
theorem exists_closed_or_blockBodyLength (quote : Char) (text : List Char) :
    (∃ closed, BlockBody quote closed ∧ closed <+: text) ∨
      blockBodyLength quote text = text.length := by
  fun_induction blockBodyLength quote text with
  | case1 => exact Or.inr rfl
  | case2 => exact Or.inr rfl
  | case3 c rest ih =>
    rcases ih with ⟨closed, hclosed, more, rfl⟩ | hlength
    · exact Or.inl ⟨_, .escape hclosed, more, rfl⟩
    · right
      rw [hlength, List.length_cons, List.length_cons]
      omega
  | case4 c rest _ _ h =>
    obtain ⟨rfl, hpre⟩ := h
    obtain ⟨more, rfl⟩ := List.isPrefixOf_iff_prefix.mp hpre
    exact Or.inl ⟨_, .close, more, rfl⟩
  | case5 c rest hlast hunit h ih =>
    rcases ih with ⟨closed, hclosed, hpre⟩ | hlength
    · refine Or.inl ⟨c :: closed, .plain (ne_backslash hlast hunit) ?_ hclosed, ?_⟩
      · intro hquotes
        obtain ⟨hsame, htail⟩ := List.cons_prefix_cons.mp hquotes
        exact h ⟨hsame.symm, List.isPrefixOf_iff_prefix.mpr (htail.trans hpre)⟩
      · exact List.cons_prefix_cons.mpr ⟨rfl, hpre⟩
    · right
      rw [hlength, List.length_cons, Nat.add_comm]

/-- Where a block literal is not open, what follows it is out of its sight, and where none starts,
it is enough that none starts for what follows. -/
theorem blockLength_append_of_not_open {front rest : List Char} (hopen : ¬ OpenBlock front)
    (h : blockLength front = 0 → blockLength (front ++ rest) = 0) :
    blockLength (front ++ rest) = blockLength front := by
  by_cases hzero : blockLength front = 0
  · rw [hzero]
    exact h hzero
  · obtain ⟨quote, body, hquote, rfl⟩ := exists_quotes_of_blockLength hzero
    have hclosed : ∃ closed, BlockBody quote closed ∧ closed <+: body := by
      by_contra hnone
      exact hopen ⟨quote, body, hquote, rfl, fun closed hclosed hpre =>
        hnone ⟨closed, hclosed, hpre⟩⟩
    obtain ⟨closed, hclosed, more, rfl⟩ := hclosed
    have hlength := hclosed.blockLength_append hquote
    simp only [List.cons_append, List.append_assoc] at hlength ⊢
    rw [hlength, hlength]

/-- An open block literal is all of the text. -/
theorem OpenBlock.blockLength_eq {text : List Char} (h : OpenBlock text) :
    blockLength text = text.length := by
  obtain ⟨quote, body, hquote, rfl, hopen⟩ := h
  rcases exists_closed_or_blockBodyLength quote body with ⟨closed, hclosed, hpre⟩ | hlength
  · exact absurd hpre (hopen closed hclosed)
  · rw [blockLength, if_pos ⟨hquote, rfl, rfl⟩, hlength]
    simp only [List.length_cons]
    omega

/-- A block literal that is over within a front part of the text is closed there. -/
theorem not_openBlock_of_le {front rest : List Char} (hne : rest ≠ [])
    (h : blockLength (front ++ rest) ≤ front.length) : ¬ OpenBlock front := by
  rintro ⟨quote, body, hquote, rfl, hopen⟩
  simp only [List.cons_append] at h
  rw [blockLength, if_pos ⟨hquote, rfl, rfl⟩] at h
  simp only [List.length_cons] at h
  rcases exists_closed_or_blockBodyLength quote (body ++ rest) with ⟨closed, hclosed, hpre⟩ | hall
  · refine hopen closed hclosed (List.prefix_of_prefix_length_le hpre (List.prefix_append _ _) ?_)
    obtain ⟨more, hrow⟩ := hpre
    rw [← hrow, hclosed.blockBodyLength_append hquote] at h
    omega
  · rw [hall, List.length_append] at h
    exact hne (List.length_eq_zero_iff.mp (by omega))

theorem blockLength_append_of_le {front rest : List Char}
    (h : blockLength (front ++ rest) ≤ front.length) :
    blockLength (front ++ rest) = blockLength front := by
  cases rest with
  | nil => rw [List.append_nil]
  | cons c rest =>
    refine blockLength_append_of_not_open (not_openBlock_of_le (List.cons_ne_nil c rest) h) ?_
    intro hfront
    by_contra hne
    obtain ⟨quote, body, hquote, hrow⟩ := exists_quotes_of_blockLength hne
    rw [hrow, blockLength, if_pos ⟨hquote, rfl, rfl⟩] at h
    exact hne (blockLength_append_eq_zero_of_three (by omega) hfront)

/-! ## What the rules see -/

/-- The rule for line breaks sees no more than its text and what follows a carriage return. -/
theorem Shape.length_lineBreak_append {front : List Char} (hne : front ≠ [])
    (hreturn : front.getLast? ≠ some '\r') (rest : List Char) :
    Shape.lineBreak.length (front ++ rest) = Shape.lineBreak.length front := by
  obtain ⟨c, front, rfl⟩ := List.exists_cons_of_ne_nil hne
  cases front with
  | cons d front => simp [Shape.length]
  | nil =>
    have hc : '\r' ≠ c := by
      rintro rfl
      exact hreturn rfl
    simp [Shape.length, hc]

namespace Rule

/-- No rule for numerals, signs or words has a blank, a number sign or a line end in what it looks
for. -/
theorem not_mem_of_ofChar {c : Char} (hc : Family.ofChar c ∈ [.blank, .lineEnd, .comment])
    {rule : Rule} (h : rule ∈ table) :
    (∀ p ∈ rule.pattern?, ¬ p.uses c) ∧ (∀ s ∈ rule.spellings, c ∉ s) ∧
      ∀ w ∈ rule.words, c ∉ w := by
  have hall : (∀ p ∈ table.filterMap pattern?, p.uses c = false) ∧
      (∀ group ∈ table.map spellings, ∀ s ∈ group, c ∉ s) ∧
      ∀ group ∈ table.map words, ∀ w ∈ group, c ∉ w := by
    have hchar := mem_of_ofChar hc
    simp only [List.mem_cons, List.not_mem_nil, or_false] at hchar
    rcases hchar with rfl | rfl | rfl | rfl | rfl <;> decide
  obtain ⟨hpatterns, hspellings, hwords⟩ := hall
  refine ⟨?_, hspellings _ (List.mem_map_of_mem h), hwords _ (List.mem_map_of_mem h)⟩
  intro p hp
  simpa using hpatterns p (List.mem_filterMap.mpr ⟨rule, h, hp⟩)

/-- What a rule for words, numerals or signs takes is settled before the next blank, number sign or
line end. -/
theorem length_append_of_opens {rule : Rule} (hrule : rule ∈ table)
    (hfamily : rule.shape.family ∈ [.word, .digit, .sign]) {rest : List Char}
    (h : Opens [.blank, .lineEnd, .comment] rest) (front : List Char) :
    rule.length (front ++ rest) = rule.length front := by
  have hnone := fun c hc => not_mem_of_ofChar (h c hc) hrule
  have hword : ∀ c ∈ rest.head?, ¬ isWordChar c := by
    intro c hc hchar
    have hwordfamily := ofChar_wordChar hchar
    simp only [List.mem_cons, List.not_mem_nil, or_false] at hwordfamily
    rcases hwordfamily with hwordfamily | hwordfamily
    · exact h.false hc hwordfamily (by decide)
    · exact h.false hc hwordfamily (by decide)
  obtain ⟨name, shape, kind⟩ := rule
  unfold length
  simp only at hfamily ⊢
  cases shape with
  | pattern p =>
    have huses : ∀ c ∈ rest.head?, ¬ p.uses c := fun c hc => (hnone c hc).1 p rfl
    rw [Shape.length, Shape.length, Pattern.length?_append huses]
  | spelling spellings =>
    rw [Shape.length, Shape.length]
    congr 1
    apply List.filter_congr
    intro s hs
    exact isPrefixOf_append_of_head (fun c hc => (hnone c hc).2.1 s hs)
  | wholeWord words =>
    rw [Shape.length, Shape.length]
    congr 1
    apply List.filter_congr
    intro w hw
    rw [isPrefixOf_append_of_head (fun c hc => (hnone c hc).2.2 w hw)]
    by_cases hpre : w.isPrefixOf front
    · have hlength := (List.isPrefixOf_iff_prefix.mp hpre).length_le
      rw [List.drop_append_of_le_length hlength, continuesWord_append hword]
    · simp [hpre]
  | word =>
    cases front with
    | cons c front =>
      rw [List.cons_append, Shape.length, Shape.length, takeWhile_append_of_head hword]
    | nil =>
      cases rest with
      | nil => rfl
      | cons c rest =>
        have hstart : ¬ isWordStart c := fun hstart =>
          hword c rfl (isWordChar_of_isWordStart hstart)
        rw [List.nil_append, Shape.length, if_neg hstart, Shape.length]
  | _ => exact absurd hfamily (by simp [Shape.family])

/-- What a rule takes is settled before the line end, unless the rule is for line breaks or block
literals. -/
theorem length_append_of_lineEnd {rule : Rule} (hrule : rule ∈ table)
    (hbreak : rule.shape ≠ .lineBreak) (hblock : rule.shape ≠ .blockLiteral)
    {rest : List Char} (h : ∀ c ∈ rest.head?, isLineEnd c) (front : List Char) :
    rule.length (front ++ rest) = rule.length front := by
  have hopens : Opens [.blank, .lineEnd, .comment] rest := by
    intro c hc
    rw [ofChar_lineEnd (h c hc)]
    decide
  by_cases hfamily : rule.shape.family ∈ [.word, .digit, .sign]
  · exact length_append_of_opens hrule hfamily hopens front
  obtain ⟨name, shape, kind⟩ := rule
  unfold length
  simp only at hbreak hblock hfamily ⊢
  cases shape with
  | lineBreak => exact absurd rfl hbreak
  | blockLiteral => exact absurd rfl hblock
  | blanks =>
    rw [Shape.length, Shape.length, takeWhile_append_of_head]
    intro c hc
    rcases lineEnd_cases (h c hc) with rfl | rfl <;> decide
  | comment =>
    have hsign : ∀ c ∈ rest.head?, c ∉ ['#'] := by
      intro c hc
      rcases lineEnd_cases (h c hc) with rfl | rfl <;> decide
    rw [Shape.length, Shape.length, isPrefixOf_append_of_head hsign, takeWhile_append_of_head]
    intro c hc
    simp [h c hc]
  | lineLiteral => exact lineLength_append_of_lineEnd h
  | _ => exact absurd (by simp [Shape.family]) hfamily

section Front

variable {rule : Rule} (hrule : rule ∈ table) {front rest : List Char} (hne : front ≠ [])
  (hreturn : front.getLast? ≠ some '\r')

include hrule hne hreturn

/-- No rule takes more for a line end that follows, if what it takes is no open block literal
and no half of a line end. -/
theorem length_append_of_not_open (h : ∀ c ∈ rest.head?, isLineEnd c) (hopen : ¬ OpenBlock front) :
    rule.length (front ++ rest) = rule.length front := by
  by_cases hbreak : rule.shape = .lineBreak
  · unfold length
    rw [hbreak, Shape.length_lineBreak_append hne hreturn]
  by_cases hblock : rule.shape = .blockLiteral
  · unfold length
    rw [hblock]
    exact blockLength_append_of_not_open hopen (blockLength_append_eq_zero h)
  · exact length_append_of_lineEnd hrule hbreak hblock h front

/-- What a rule takes in front of a number sign or a line end it takes at the end of the text, if
it takes no more than stands before that sign. -/
theorem length_append_of_le (h : Opens [.lineEnd, .comment] rest)
    (hle : rule.length (front ++ rest) ≤ front.length) :
    rule.length (front ++ rest) = rule.length front := by
  by_cases hfamily : rule.shape.family ∈ [.word, .digit, .sign]
  · exact length_append_of_opens hrule hfamily (h.mono (by decide)) front
  obtain ⟨name, shape, kind⟩ := rule
  unfold length at hle ⊢
  simp only at hfamily hle ⊢
  cases shape with
  | blanks =>
    rw [Shape.length] at hle
    rw [Shape.length, Shape.length, length_takeWhile_append_of_le hle]
  | lineBreak => exact Shape.length_lineBreak_append hne hreturn rest
  | comment =>
    obtain ⟨c, front, rfl⟩ := List.exists_cons_of_ne_nil hne
    have hsign : ['#'].isPrefixOf (c :: front ++ rest) = ['#'].isPrefixOf (c :: front) := rfl
    rw [Shape.length, hsign] at hle ⊢
    rw [Shape.length]
    split at hle
    · rename_i hc
      rw [if_pos hc, if_pos hc, length_takeWhile_append_of_le hle]
    · rename_i hc
      rw [if_neg hc, if_neg hc]
  | blockLiteral => exact blockLength_append_of_le hle
  | lineLiteral => exact lineLength_append_of_le hle
  | _ => exact absurd (by simp [Shape.family]) hfamily

end Front

end Rule

end Assay
