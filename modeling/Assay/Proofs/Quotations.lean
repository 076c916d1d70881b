-- Closed string literals: what stands between the quotes, and that reading
-- stops at the closing ones, whatever comes after.
import Assay.Lexeme.Quotation

namespace Assay

theorem isQuote_ne_backslash {quote : Char} (h : isQuote quote) : quote ≠ '\\' := by
  rintro rfl
  exact absurd h (by decide)

theorem isQuote_ne_lineEnd {quote : Char} (h : isQuote quote) : ¬ isLineEnd quote := by
  simp only [isQuote, Bool.or_eq_true, decide_eq_true_eq] at h
  rcases h with rfl | rfl <;> decide

/-! ## On one line -/

/-- What may stand between the quotes of a literal on one line: no such quote and no line end
outside a unit, and units that mean something. -/
inductive LineBody (quote : Char) : List Char → Prop
  | nil : LineBody quote []
  | plain {c : Char} {rest : List Char} (hquote : c ≠ quote) (hescape : c ≠ '\\')
      (hline : ¬ isLineEnd c) (h : LineBody quote rest) : LineBody quote (c :: rest)
  | escape {c : Char} {rest : List Char} (hc : c ∈ escapes) (h : LineBody quote rest) :
      LineBody quote ('\\' :: c :: rest)

section Plain

variable {quote c : Char} {rest : List Char} (h : c ≠ '\\')

include h

theorem lineBodyLength_cons :
    lineBodyLength quote (c :: rest) =
      if isLineEnd c then 0 else if c = quote then 1 else 1 + lineBodyLength quote rest :=
  lineBodyLength.eq_4 quote c rest (fun hc _ => h hc) (fun _ _ hc _ => h hc)

theorem closedBy_cons :
    closedBy quote (c :: rest) = if c = quote then rest.isEmpty else closedBy quote rest :=
  closedBy.eq_4 quote c rest (fun hc _ => h hc) (fun _ _ hc _ => h hc)

theorem unknownEscape?_cons : unknownEscape? (c :: rest) = unknownEscape? rest :=
  unknownEscape?.eq_4 c rest (fun hc _ => h hc) (fun _ _ hc _ => h hc)

theorem blockBodyLength_cons :
    blockBodyLength quote (c :: rest) =
      if c = quote ∧ [quote, quote].isPrefixOf rest then 3 else 1 + blockBodyLength quote rest :=
  blockBodyLength.eq_4 quote c rest (fun hc _ => h hc) (fun _ _ hc _ => h hc)

end Plain

/-- A character that is read on its own is no backslash, be it the last one or not. -/
theorem ne_backslash {c : Char} {rest : List Char} (hlast : c = '\\' → rest = [] → False)
    (hunit : ∀ d more, c = '\\' → rest = d :: more → False) : c ≠ '\\' := by
  intro hc
  cases rest with
  | nil => exact hlast hc rfl
  | cons d more => exact hunit d more hc rfl

namespace LineBody

variable {quote : Char} {body : List Char} (hquote : isQuote quote) (h : LineBody quote body)

include hquote h

/-- A body is read up to the quote that closes it. -/
theorem lineBodyLength_append (rest : List Char) :
    lineBodyLength quote (body ++ quote :: rest) = body.length + 1 := by
  induction h with
  | nil =>
    rw [List.nil_append, lineBodyLength_cons (isQuote_ne_backslash hquote),
      if_neg (isQuote_ne_lineEnd hquote), if_pos rfl]
    rfl
  | plain hne hescape hline _ ih =>
    rw [List.cons_append, lineBodyLength_cons hescape, if_neg hline, if_neg hne, ih,
      List.length_cons]
    omega
  | @escape c body hc _ ih =>
    have hline : ¬ isLineEnd c := by
      have hall : escapes.all (fun d => !isLineEnd d) := by decide
      simpa using List.all_eq_true.mp hall c hc
    rw [List.cons_append, List.cons_append, lineBodyLength, if_neg hline, ih]
    simp only [List.length_cons]
    omega

theorem closedBy_append : closedBy quote (body ++ [quote]) := by
  induction h with
  | nil => rw [List.nil_append, closedBy_cons (isQuote_ne_backslash hquote), if_pos rfl]; rfl
  | plain hne hescape _ _ ih => rw [List.cons_append, closedBy_cons hescape, if_neg hne, ih]
  | escape _ _ ih => rw [List.cons_append, List.cons_append, closedBy, ih]

theorem unknownEscape?_append : unknownEscape? (body ++ [quote]) = none := by
  induction h with
  | nil => rw [List.nil_append, unknownEscape?_cons (isQuote_ne_backslash hquote), unknownEscape?]
  | plain _ hescape _ _ ih => rw [List.cons_append, unknownEscape?_cons hescape, ih]
  | escape hc _ ih => rw [List.cons_append, List.cons_append, unknownEscape?, if_pos hc, ih]

/-- Two quotes stand at the front only if nothing stands between them and one follows. -/
theorem not_quotes_prefix (rest : List Char) (hrest : body = [] → quote ∉ rest.head?) :
    ¬ [quote, quote] <+: body ++ quote :: rest := by
  intro hpre
  cases h with
  | nil =>
    rw [List.nil_append, List.cons_prefix_cons] at hpre
    obtain ⟨more, rfl⟩ := hpre.2
    exact hrest rfl rfl
  | plain hne _ _ _ => exact hne (List.cons_prefix_cons.mp hpre).1.symm
  | escape _ _ => exact isQuote_ne_backslash hquote (List.cons_prefix_cons.mp hpre).1

theorem lineLength_append (rest : List Char) :
    lineLength (quote :: body ++ quote :: rest) = (quote :: body ++ [quote]).length := by
  rw [List.cons_append, lineLength, if_pos hquote, h.lineBodyLength_append hquote]
  simp only [List.length_cons, List.length_append, List.length_nil]
  omega

theorem blockLength_append {rest : List Char} (hrest : quote ∉ rest.head?) :
    blockLength (quote :: body ++ quote :: rest) = 0 := by
  have hnot := h.not_quotes_prefix hquote rest (fun _ => hrest)
  rw [List.cons_append]
  unfold blockLength
  split
  · rename_i a b c more hrow
    obtain ⟨rfl, htail⟩ := List.cons.inj hrow
    rw [if_neg]
    rintro ⟨-, rfl, rfl⟩
    apply hnot
    rw [htail]
    exact ⟨more, rfl⟩
  · rfl

theorem literalFault?_append : literalFault? quote (body ++ [quote]) = none := by
  have hnot := h.not_quotes_prefix hquote [] (fun _ => by simp)
  unfold literalFault?
  rw [if_neg (fun hpre => hnot (List.isPrefixOf_iff_prefix.mp hpre.2)),
    if_pos (h.closedBy_append hquote), h.unknownEscape?_append hquote, Option.map_none]

end LineBody

/-- A literal that is closed, that holds no bad escape and that is read up to its own end has such
a body. -/
theorem exists_lineBody {quote : Char} {tail : List Char} (after : List Char)
    (hclosed : closedBy quote tail) (hescape : unknownEscape? tail = none)
    (hlength : lineBodyLength quote (tail ++ after) = tail.length) :
    ∃ body, LineBody quote body ∧ tail = body ++ [quote] := by
  fun_induction closedBy quote tail with
  | case1 => cases hclosed
  | case2 => cases hclosed
  | case3 c rest ih =>
    rw [unknownEscape?] at hescape
    split at hescape
    · rename_i hc
      rw [List.cons_append, List.cons_append, lineBodyLength] at hlength
      split at hlength
      · simp only [List.length_cons] at hlength
        omega
      · simp only [List.length_cons] at hlength
        obtain ⟨body, hbody, rfl⟩ := ih hclosed hescape (by omega)
        exact ⟨'\\' :: c :: body, .escape hc hbody, rfl⟩
    · cases hescape
  | case4 rest hlast hunit =>
    rw [List.isEmpty_iff.mp hclosed]
    exact ⟨[], .nil, rfl⟩
  | case5 c rest hlast hunit hquote ih =>
    have hplain := ne_backslash hlast hunit
    rw [unknownEscape?_cons hplain] at hescape
    rw [List.cons_append, lineBodyLength_cons hplain, List.length_cons] at hlength
    by_cases hline : isLineEnd c
    · rw [if_pos hline] at hlength
      omega
    · rw [if_neg hline, if_neg hquote] at hlength
      obtain ⟨body, hbody, rfl⟩ := ih hclosed hescape (by omega)
      exact ⟨c :: body, .plain hquote hplain hline hbody, rfl⟩

/-- A text without a fault that does not start as a block literal is closed and holds no bad
escape. -/
theorem closedBy_of_literalFault? {quote : Char} {tail : List Char}
    (hnot : ¬ (isQuote quote ∧ [quote, quote].isPrefixOf tail))
    (h : literalFault? quote tail = none) : closedBy quote tail ∧ unknownEscape? tail = none := by
  unfold literalFault? at h
  rw [if_neg hnot] at h
  split at h
  · rename_i hclosed
    exact ⟨hclosed, Option.map_eq_none_iff.mp h⟩
  · cases h

/-! ## Between three quotes -/

/-- What may stand after the quotes that open a block literal, up to and with those that close it:
these are the first three in a row outside a unit, and a unit may hold any character. -/
inductive BlockBody (quote : Char) : List Char → Prop
  | close : BlockBody quote [quote, quote, quote]
  | plain {c : Char} {rest : List Char} (hescape : c ≠ '\\')
      (hopen : ¬ [quote, quote, quote] <+: c :: rest) (h : BlockBody quote rest) :
      BlockBody quote (c :: rest)
  | escape {c : Char} {rest : List Char} (h : BlockBody quote rest) :
      BlockBody quote ('\\' :: c :: rest)

namespace BlockBody

variable {quote : Char} {body : List Char}

theorem suffix (h : BlockBody quote body) : [quote, quote, quote] <:+ body := by
  induction h with
  | close => exact List.suffix_refl _
  | plain _ _ _ ih => exact ih.trans (List.suffix_cons _ _)
  | escape _ ih => exact (ih.trans (List.suffix_cons _ _)).trans (List.suffix_cons _ _)

theorem three_le_length (h : BlockBody quote body) : 3 ≤ body.length :=
  h.suffix.length_le

/-- A body is read up to the quotes that close it. -/
theorem blockBodyLength_append (hquote : isQuote quote) (h : BlockBody quote body)
    (rest : List Char) : blockBodyLength quote (body ++ rest) = body.length := by
  induction h with
  | close =>
    have hpre : [quote, quote].isPrefixOf ([quote, quote] ++ rest) :=
      List.isPrefixOf_iff_prefix.mpr (List.prefix_append _ _)
    rw [List.cons_append, blockBodyLength_cons (isQuote_ne_backslash hquote), if_pos ⟨rfl, hpre⟩]
    rfl
  | @plain c body hescape hopen hbody ih =>
    have hnot : ¬ (c = quote ∧ [quote, quote].isPrefixOf (body ++ rest)) := by
      rintro ⟨rfl, hpre⟩
      -- The body holds three quotes at least, so two at its front are its own.
      have hlength : [c, c].length ≤ body.length := by
        have hthree := hbody.three_le_length
        simp only [List.length_cons, List.length_nil]
        omega
      have hown : [c, c] <+: body :=
        List.prefix_of_prefix_length_le (List.isPrefixOf_iff_prefix.mp hpre)
          (List.prefix_append _ _) hlength
      exact hopen (List.cons_prefix_cons.mpr ⟨rfl, hown⟩)
    rw [List.cons_append, blockBodyLength_cons hescape, if_neg hnot, ih, List.length_cons]
    omega
  | escape _ ih =>
    rw [List.cons_append, List.cons_append, blockBodyLength, ih]
    simp only [List.length_cons]
    omega

theorem blockLength_append (hquote : isQuote quote) (h : BlockBody quote body)
    (rest : List Char) :
    blockLength (quote :: quote :: quote :: body ++ rest) =
      (quote :: quote :: quote :: body).length := by
  simp only [List.cons_append]
  rw [blockLength, if_pos ⟨hquote, rfl, rfl⟩, h.blockBodyLength_append hquote]
  simp only [List.length_cons]
  omega

theorem literalFault?_append (hquote : isQuote quote) (h : BlockBody quote body) :
    literalFault? quote (quote :: quote :: body) = none := by
  have hlength := h.three_le_length
  have hsuffix : [quote, quote, quote].isSuffixOf (quote :: quote :: body) :=
    List.isSuffixOf_iff_suffix.mpr
      ((h.suffix.trans (List.suffix_cons _ _)).trans (List.suffix_cons _ _))
  have hclosed : ¬ ((quote :: quote :: body).length < 5 ∨
      ¬ [quote, quote, quote].isSuffixOf (quote :: quote :: body)) := by
    rintro (hshort | hopen)
    · simp only [List.length_cons] at hshort
      omega
    · exact hopen hsuffix
  have hpre : [quote, quote].isPrefixOf (quote :: quote :: body) :=
    List.isPrefixOf_iff_prefix.mpr ⟨body, rfl⟩
  unfold literalFault?
  rw [if_pos ⟨hquote, hpre⟩, if_neg hclosed]

end BlockBody

end Assay
