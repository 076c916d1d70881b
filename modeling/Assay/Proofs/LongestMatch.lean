-- The first rule that takes anything decides, and by the order of the table it
-- is the one that takes most. Rules fall into families by the character that
-- they start with. Within a family every rule outdoes those that come after it.
import Mathlib.Data.List.Basic
import Assay.Proofs.Numerals
import Assay.Proofs.Reach
import Assay.Token.Scanner

namespace Assay

/-! ## Families -/

/-- What a lexeme starts with. -/
inductive Family where
  | blank
  | lineEnd
  | comment
  | quote
  | word
  | digit
  | sign
  deriving DecidableEq

/-- The family of the lexemes that start with a character. -/
def Family.ofChar (c : Char) : Family :=
  if c = ' ' ∨ c = '\t' then .blank
  else if isLineEnd c then .lineEnd
  else if c = '#' then .comment
  else if isQuote c then .quote
  else if isWordStart c then .word
  else if isDecimalDigit c then .digit
  else .sign

def Shape.family : Shape → Family
  | blanks => .blank
  | lineBreak => .lineEnd
  | comment => .comment
  | blockLiteral => .quote
  | lineLiteral => .quote
  | pattern _ => .digit
  | spelling _ => .sign
  | wholeWord _ => .word
  | word => .word

/-- The rules of a family, in the order of the table. -/
def Rule.ofFamily (family : Family) : List Rule :=
  table.filter (fun rule => rule.shape.family = family)

theorem ofChar_lineEnd {c : Char} (h : isLineEnd c) : Family.ofChar c = .lineEnd := by
  simp only [isLineEnd, Bool.or_eq_true, decide_eq_true_eq] at h
  rcases h with rfl | rfl <;> rfl

theorem ofChar_quote {c : Char} (h : isQuote c) : Family.ofChar c = .quote := by
  simp only [isQuote, Bool.or_eq_true, decide_eq_true_eq] at h
  rcases h with rfl | rfl <;> rfl

theorem ofChar_word {c : Char} (h : isWordStart c) : Family.ofChar c = .word := by
  have hne : ∀ d : Char, isWordStart d = false → c ≠ d := by
    rintro d hd rfl
    rw [h] at hd
    cases hd
  have hline : ¬ isLineEnd c := by
    simp [isLineEnd, hne '\r' (by decide), hne '\n' (by decide)]
  have hquote : ¬ isQuote c := by
    simp [isQuote, hne '"' (by decide), hne '\'' (by decide)]
  unfold Family.ofChar
  rw [if_neg (not_or.mpr ⟨hne ' ' (by decide), hne '\t' (by decide)⟩), if_neg hline,
    if_neg (hne '#' (by decide)), if_neg hquote, if_pos h]

/-- The code points of the ASCII letters, and some between and around the two cases. -/
theorem toNat_of_isAlpha {c : Char} (h : c.isAlpha) : 65 ≤ c.toNat ∧ c.toNat < 123 := by
  have hval : c.toNat = c.val.toNat := rfl
  rcases Bool.or_eq_true_iff.mp h with hupper | hlower
  · have hcase : 'A'.val ≤ c.val ∧ c.val ≤ 'Z'.val := of_decide_eq_true hupper
    simp [UInt32.le_iff_toNat_le] at hcase
    omega
  · obtain ⟨hlow, hhigh⟩ := Bool.and_eq_true_iff.mp hlower
    have hcase : 'a'.val ≤ c.val ∧ c.val ≤ 'z'.val :=
      ⟨of_decide_eq_true hlow, of_decide_eq_true hhigh⟩
    simp [UInt32.le_iff_toNat_le] at hcase
    omega

/-- The letters lie between the zeros of two scripts. -/
theorem not_isDecimalDigit_of_isAlpha {c : Char} (h : c.isAlpha) : ¬ isDecimalDigit c := by
  have hzeros : ∀ start ∈ decimalZeros, start + 10 ≤ 65 ∨ 123 ≤ start := by decide
  have hletter := toNat_of_isAlpha h
  intro hdigit
  obtain ⟨start, hstart, hspan⟩ := List.any_eq_true.mp hdigit
  simp only [Bool.and_eq_true, decide_eq_true_eq] at hspan
  rcases hzeros start hstart with hlow | hhigh
  · omega
  · omega

theorem ofChar_digit {c : Char} (h : isDecimalDigit c) : Family.ofChar c = .digit := by
  have hne : ∀ d : Char, isDecimalDigit d = false → c ≠ d := by
    rintro d hd rfl
    rw [h] at hd
    cases hd
  have hline : ¬ isLineEnd c := by
    simp [isLineEnd, hne '\r' (by decide), hne '\n' (by decide)]
  have hquote : ¬ isQuote c := by
    simp [isQuote, hne '"' (by decide), hne '\'' (by decide)]
  have hword : ¬ isWordStart c := by
    intro hword
    simp only [isWordStart, Bool.or_eq_true, decide_eq_true_eq] at hword
    rcases hword with rfl | halpha
    · exact absurd h (by decide)
    · exact not_isDecimalDigit_of_isAlpha halpha h
  unfold Family.ofChar
  rw [if_neg (not_or.mpr ⟨hne ' ' (by decide), hne '\t' (by decide)⟩), if_neg hline,
    if_neg (hne '#' (by decide)), if_neg hquote, if_neg hword, if_pos h]

/-! ## What the shapes take -/

namespace Rule

/-- The pattern of a rule for numerals. -/
def pattern? (rule : Rule) : Option Pattern :=
  match rule.shape with
  | .pattern p => some p
  | _ => none

/-- The spellings of a rule for signs, none for another rule. -/
def spellings (rule : Rule) : List (List Char) :=
  match rule.shape with
  | .spelling spellings => spellings
  | _ => []

/-- The words of a rule for word operators, none for another rule. -/
def words (rule : Rule) : List (List Char) :=
  match rule.shape with
  | .wholeWord words => words
  | _ => []

theorem filterMap_pattern?_table : table.filterMap pattern? = Pattern.numerals := rfl

theorem mem_numerals {rule : Rule} (h : rule ∈ table) {p : Pattern} (hp : rule.shape = .pattern p) :
    p ∈ Pattern.numerals := by
  rw [← filterMap_pattern?_table]
  exact List.mem_filterMap.mpr ⟨rule, h, by rw [pattern?, hp]⟩

end Rule

theorem Shape.exists_of_pattern {p : Pattern} (hp : p ∈ Pattern.numerals) {text : List Char}
    (h : (Shape.pattern p).length text ≠ 0) :
    ∃ word ∈ p.language, word <+: text ∧ word.length = (Shape.pattern p).length text := by
  rw [Shape.length] at h ⊢
  cases hn : p.length? text with
  | none =>
    rw [hn] at h
    exact absurd rfl h
  | some n => exact Pattern.length?_eq_some hp hn

theorem Shape.exists_of_spelling {spellings : List (List Char)} {text : List Char}
    (h : (Shape.spelling spellings).length text ≠ 0) :
    ∃ s ∈ spellings, s <+: text ∧ s.length = (Shape.spelling spellings).length text := by
  obtain ⟨s, hs, hlength⟩ := exists_of_longest h
  obtain ⟨hmem, hpre⟩ := List.mem_filter.mp hs
  exact ⟨s, hmem, List.isPrefixOf_iff_prefix.mp hpre, hlength⟩

/-- A whole word is the run of word characters at the front. -/
theorem Shape.exists_of_wholeWord {words : List (List Char)}
    (hwords : ∀ w ∈ words, ∀ c ∈ w, isWordChar c) {text : List Char}
    (h : (Shape.wholeWord words).length text ≠ 0) :
    text.takeWhile isWordChar ∈ words ∧
      (Shape.wholeWord words).length text = (text.takeWhile isWordChar).length := by
  obtain ⟨w, hw, hlength⟩ := exists_of_longest h
  obtain ⟨hmem, hfits⟩ := List.mem_filter.mp hw
  obtain ⟨hpre, hstop⟩ := Bool.and_eq_true_iff.mp hfits
  obtain ⟨rest, rfl⟩ := List.isPrefixOf_iff_prefix.mp hpre
  have hrun : (w ++ rest).takeWhile isWordChar = w := by
    apply takeWhile_append_stop (hwords w hmem)
    intro c hc
    rw [List.drop_left, continuesWord, Option.mem_def.mp hc] at hstop
    simpa using hstop
  rw [hrun]
  exact ⟨hmem, hlength.symm⟩

theorem isWordChar_of_isWordStart {c : Char} (h : isWordStart c) : isWordChar c := by
  simp only [isWordStart, Bool.or_eq_true] at h
  simp only [isWordChar, Char.isAlphanum, Bool.or_eq_true]
  rcases h with h | h
  · exact Or.inl h
  · exact Or.inr (Or.inl h)

/-- A word is the run of word characters at the front, if it starts as a word does. -/
theorem Shape.length_word {c : Char} {rest : List Char} (h : isWordStart c) :
    Shape.word.length (c :: rest) = ((c :: rest).takeWhile isWordChar).length := by
  rw [Shape.length, if_pos h, List.takeWhile_cons_of_pos (isWordChar_of_isWordStart h),
    List.length_cons, Nat.add_comm]

namespace Rule

/-- The signs start with no letter, digit, quote or blank, and the word operators start as
words do. -/
theorem ofChar_of_spelling {rule : Rule} (h : rule ∈ table) {c : Char} {s : List Char}
    (hs : c :: s ∈ rule.spellings) : Family.ofChar c = .sign := by
  have hall : ∀ group ∈ table.map spellings, ∀ s ∈ group,
      s.head?.all (fun c => Family.ofChar c = .sign) := by decide
  exact of_decide_eq_true (hall _ (List.mem_map_of_mem h) _ hs)

theorem words_of_mem {rule : Rule} (h : rule ∈ table) {w : List Char} (hw : w ∈ rule.words) :
    (∀ c ∈ w, isWordChar c) ∧ ∀ c ∈ w.head?, isWordStart c := by
  have hall : ∀ group ∈ table.map words, ∀ w ∈ group,
      w.all isWordChar ∧ w.head?.all isWordStart := by decide
  obtain ⟨hchars, hstart⟩ := hall _ (List.mem_map_of_mem h) w hw
  refine ⟨List.all_eq_true.mp hchars, ?_⟩
  intro c hc
  rw [Option.mem_def.mp hc] at hstart
  exact hstart

/-- A rule takes something only where its family starts. -/
theorem ofChar_of_length {rule : Rule} (h : rule ∈ table) {c : Char} {rest : List Char}
    (hlength : rule.length (c :: rest) ≠ 0) : Family.ofChar c = rule.shape.family := by
  obtain ⟨name, shape, kind⟩ := rule
  unfold length at hlength
  simp only at hlength ⊢
  cases shape with
  | blanks =>
    have hc : c = ' ' ∨ c = '\t' := by
      by_contra hne
      rw [Shape.length, List.takeWhile_cons_of_neg (by simpa using hne)] at hlength
      exact hlength rfl
    rcases hc with rfl | rfl <;> rfl
  | lineBreak =>
    apply ofChar_lineEnd
    by_contra hne
    simp only [isLineEnd, Bool.or_eq_true, decide_eq_true_eq, not_or] at hne
    rw [Shape.length] at hlength
    simp [Ne.symm hne.1, Ne.symm hne.2] at hlength
  | comment =>
    have hc : '#' = c := by
      by_contra hne
      rw [Shape.length] at hlength
      simp [hne] at hlength
    rw [← hc]
    rfl
  | blockLiteral =>
    apply ofChar_quote
    obtain ⟨quote, body, hquote, hrow⟩ := exists_quotes_of_blockLength hlength
    rw [(List.cons.inj hrow).1]
    exact hquote
  | lineLiteral =>
    apply ofChar_quote
    by_contra hne
    rw [Shape.length, lineLength, if_neg hne] at hlength
    exact hlength rfl
  | pattern p =>
    have hp := mem_numerals h rfl
    obtain ⟨word, hword, hpre, -⟩ := Shape.exists_of_pattern hp hlength
    obtain ⟨d, tail, rfl, hd⟩ := Pattern.exists_digit_of_mem hp hword
    rw [← (List.cons_prefix_cons.mp hpre).1]
    exact ofChar_digit hd
  | spelling spellings =>
    obtain ⟨s, hs, hpre, hn⟩ := Shape.exists_of_spelling hlength
    cases s with
    | nil => exact absurd hn.symm hlength
    | cons d tail =>
      rw [← (List.cons_prefix_cons.mp hpre).1]
      exact ofChar_of_spelling h hs
  | wholeWord words =>
    have hwords : ∀ w ∈ words, ∀ c ∈ w, isWordChar c := fun w hw => (words_of_mem h hw).1
    obtain ⟨hmem, hn⟩ := Shape.exists_of_wholeWord hwords hlength
    have hrun : isWordChar c := by
      by_contra hne
      rw [List.takeWhile_cons_of_neg hne] at hn
      exact hlength hn
    rw [List.takeWhile_cons_of_pos hrun] at hmem
    exact ofChar_word ((words_of_mem h hmem).2 c rfl)
  | word =>
    apply ofChar_word
    by_contra hne
    rw [Shape.length, if_neg hne] at hlength
    exact hlength rfl

/-! ## Rules that outdo others -/

def wordOperators : List String := ["logical", "identity", "membership"]

/-- Wherever `rule` takes something, `other` takes less. A word operator and a name may take the
same. -/
def Outdoes (rule other : Rule) : Prop :=
  ∀ text, rule.length text ≠ 0 → other.length text < rule.length text ∨
    (other.length text = rule.length text ∧ rule.name ∈ wordOperators ∧
      other.name = "identifier")

theorem outdoes_of_family {rule other : Rule} (hrule : rule ∈ table) (hother : other ∈ table)
    (h : rule.shape.family ≠ other.shape.family) : rule.Outdoes other := by
  intro text hlength
  cases text with
  | nil => exact absurd rule.length_nil hlength
  | cons c rest =>
    left
    by_contra hle
    have hne : other.length (c :: rest) ≠ 0 := by omega
    exact h ((ofChar_of_length hrule hlength).symm.trans (ofChar_of_length hother hne))

theorem shape_of_sign {rule : Rule} (h : rule.shape.family = .sign) :
    rule.shape = .spelling rule.spellings := by
  obtain ⟨name, shape, kind⟩ := rule
  cases shape <;> first | rfl | cases h

/-- A sign is outdone by one that it starts. -/
theorem pairwise_signs : (ofFamily .sign).Pairwise Outdoes := by
  have hspellings : ((ofFamily .sign).map spellings).Pairwise
      (fun a b => ∀ s ∈ a, ∀ t ∈ b, s.isPrefixOf t = false) := by decide
  rw [List.pairwise_map] at hspellings
  refine hspellings.imp_of_mem ?_
  intro rule other hrule hother hapart text hlength
  left
  by_contra hle
  have hne : other.length text ≠ 0 := by omega
  have hshape := shape_of_sign (of_decide_eq_true (List.mem_filter.mp hrule).2)
  have hshape' := shape_of_sign (of_decide_eq_true (List.mem_filter.mp hother).2)
  unfold length at hlength hle hne
  rw [hshape] at hlength hle
  rw [hshape'] at hle hne
  obtain ⟨s, hs, hspre, hslength⟩ := Shape.exists_of_spelling hlength
  obtain ⟨t, ht, htpre, htlength⟩ := Shape.exists_of_spelling hne
  have hpre : s <+: t := List.prefix_of_prefix_length_le hspre htpre (by omega)
  have hnot := hapart s hs t ht
  rw [List.isPrefixOf_iff_prefix.mpr hpre] at hnot
  cases hnot

/-- A plain numeral is outdone by one with a mark, and no text has two marks. -/
theorem pairwise_numerals : Pattern.numerals.Pairwise
    (fun p q => ∀ (text : List Char) (n m : Nat), p.length? text = some n →
      q.length? text = some m → m < n) := by
  have hmarks : Pattern.markedNumerals.Pairwise (fun a b => a.1.all (fun mark => mark ∉ b.1)) := by
    decide
  have hsplit : Pattern.numerals = Pattern.markedNumerals.map Prod.snd ++ [.digits] := rfl
  have hmem : ∀ entry ∈ Pattern.markedNumerals, entry.2 ∈ Pattern.numerals := by
    intro entry hentry
    rw [hsplit]
    exact List.mem_append_left _ (List.mem_map_of_mem hentry)
  rw [hsplit, List.pairwise_append]
  refine ⟨?_, List.pairwise_singleton _ _, ?_⟩
  · rw [List.pairwise_map]
    refine hmarks.imp_of_mem ?_
    intro a b ha hb hapart text n m hn hm
    obtain ⟨word, hword, hpre, -⟩ := Pattern.length?_eq_some (hmem a ha) hn
    obtain ⟨word', hword', hpre', -⟩ := Pattern.length?_eq_some (hmem b hb) hm
    obtain ⟨mark, hmark, hat, -⟩ := (Pattern.marked_of_mem ha).getElem?_run hword hpre
    obtain ⟨mark', hmark', hat', -⟩ := (Pattern.marked_of_mem hb).getElem?_run hword' hpre'
    rw [hat, Option.some.injEq] at hat'
    rw [hat'] at hmark
    exact absurd hmark' (of_decide_eq_true (List.all_eq_true.mp hapart mark' hmark))
  · intro p hp q hq text n m hn hm
    obtain ⟨entry, hentry, rfl⟩ := List.mem_map.mp hp
    rw [List.mem_singleton.mp hq] at hm
    obtain ⟨word, hword, hpre, rfl⟩ := Pattern.length?_eq_some (hmem entry hentry) hn
    obtain ⟨mark, -, -, hrun⟩ := (Pattern.marked_of_mem hentry).getElem?_run hword hpre
    rw [Pattern.digits, Pattern.length?] at hm
    split at hm
    · cases hm
    · cases hm
      exact hrun

/-- A rule for numerals takes what its pattern takes. -/
theorem exists_pattern {rule : Rule} (h : rule.shape.family = .digit) {text : List Char}
    (hlength : rule.length text ≠ 0) :
    ∃ p, rule.pattern? = some p ∧ p.length? text = some (rule.length text) := by
  obtain ⟨name, shape, kind⟩ := rule
  cases shape with
  | pattern p =>
    refine ⟨p, rfl, ?_⟩
    unfold length at hlength ⊢
    simp only [Shape.length] at hlength ⊢
    cases hn : p.length? text with
    | none =>
      rw [hn] at hlength
      exact absurd rfl hlength
    | some n => rfl
  | _ => cases h

theorem pairwise_digits : (ofFamily .digit).Pairwise Outdoes := by
  have hpatterns : ((ofFamily .digit).filterMap pattern?) = Pattern.numerals := rfl
  have hpairs := pairwise_numerals
  rw [← hpatterns, List.pairwise_filterMap] at hpairs
  refine hpairs.imp_of_mem ?_
  intro rule other hrule hother hless text hlength
  left
  by_contra hle
  have hne : other.length text ≠ 0 := by omega
  obtain ⟨p, hp, hn⟩ := exists_pattern (of_decide_eq_true (List.mem_filter.mp hrule).2) hlength
  obtain ⟨q, hq, hm⟩ := exists_pattern (of_decide_eq_true (List.mem_filter.mp hother).2) hne
  exact hle (hless p hp q hq text _ _ hn hm)

theorem shape_of_word {rule : Rule} (h : rule.shape.family = .word) :
    rule.shape = .wholeWord rule.words ∨ rule.shape = .word ∧ rule.words = [] := by
  obtain ⟨name, shape, kind⟩ := rule
  cases shape with
  | wholeWord words => exact Or.inl rfl
  | word => exact Or.inr ⟨rfl, rfl⟩
  | _ => cases h

/-- A word operator takes the run of word characters at the front, and this is one of its words. -/
theorem length_of_words {rule : Rule} (hrule : rule ∈ table)
    (hshape : rule.shape = .wholeWord rule.words) {text : List Char} (h : rule.length text ≠ 0) :
    text.takeWhile isWordChar ∈ rule.words ∧
      rule.length text = (text.takeWhile isWordChar).length := by
  unfold length at h ⊢
  rw [hshape] at h ⊢
  exact Shape.exists_of_wholeWord (fun w hw => (words_of_mem hrule hw).1) h

/-- Where the run of word characters at the front is one of its words, a word operator takes it. -/
theorem length_of_mem_words {rule : Rule} (hrule : rule ∈ table) {text : List Char}
    (h : text.takeWhile isWordChar ∈ rule.words) :
    rule.length text = (text.takeWhile isWordChar).length := by
  have hfamilies : ∀ r ∈ table, r.words ≠ [] → r.shape.family = .word := by decide
  have hshape : rule.shape = .wholeWord rule.words :=
    (shape_of_word (hfamilies rule hrule (List.ne_nil_of_mem h))).resolve_right
      (fun hword => List.ne_nil_of_mem h hword.2)
  by_cases hzero : rule.length text = 0
  · have hstop : continuesWord (text.drop (text.takeWhile isWordChar).length) = false := by
      have hdrop := congrArg (List.drop (text.takeWhile isWordChar).length)
        (List.takeWhile_append_dropWhile (p := isWordChar) (l := text)).symm
      rw [List.drop_left] at hdrop
      rw [continuesWord, hdrop]
      have hhead := List.head?_dropWhile_not isWordChar text
      revert hhead
      cases (text.dropWhile isWordChar).head? with
      | none => exact fun _ => rfl
      | some c => exact fun hc => hc
    have hfits : text.takeWhile isWordChar ∈ rule.words.filter
        (fun w => w.isPrefixOf text && !continuesWord (text.drop w.length)) := by
      refine List.mem_filter.mpr ⟨h, ?_⟩
      rw [hstop, List.isPrefixOf_iff_prefix.mpr (List.takeWhile_prefix _)]
      rfl
    have hle := length_le_longest hfits
    unfold length at hzero ⊢
    rw [hshape, Shape.length] at hzero ⊢
    omega
  · exact (length_of_words hrule hshape hzero).2

/-- Two word operators have no word in common, and a name takes no more than an operator. -/
theorem pairwise_words : (ofFamily .word).Pairwise Outdoes := by
  have hpairs : (ofFamily .word).Pairwise (fun a b => a.name ∈ wordOperators ∧ a.words ≠ [] ∧
      (∀ w ∈ a.words, w ∉ b.words) ∧ (b.words = [] → b.name = "identifier")) := by decide
  refine hpairs.imp_of_mem ?_
  rintro rule other hrule hother ⟨hname, hne, hapart, hidentifier⟩ text hlength
  obtain ⟨htable, hfamily⟩ := List.mem_filter.mp hrule
  obtain ⟨htable', hfamily'⟩ := List.mem_filter.mp hother
  obtain ⟨hmem, hrun⟩ : text.takeWhile isWordChar ∈ rule.words ∧
      rule.length text = (text.takeWhile isWordChar).length := by
    rcases shape_of_word (of_decide_eq_true hfamily) with hshape | ⟨-, hnil⟩
    · exact length_of_words htable hshape hlength
    · exact absurd hnil hne
  by_cases hzero : other.length text = 0
  · exact Or.inl (by omega)
  rcases shape_of_word (of_decide_eq_true hfamily') with hshape | ⟨hshape, hnil⟩
  · exact absurd (length_of_words htable' hshape hzero).1 (hapart _ hmem)
  · refine Or.inr ⟨?_, hname, hidentifier hnil⟩
    rw [hrun]
    unfold length at hzero ⊢
    rw [hshape] at hzero ⊢
    cases text with
    | nil => rfl
    | cons c rest =>
      apply Shape.length_word
      by_contra hstart
      rw [Shape.length, if_neg hstart] at hzero
      exact hzero rfl

theorem ofFamily_quote : ofFamily .quote =
    [⟨"triple_string", .blockLiteral, .string⟩, ⟨"string", .lineLiteral, .string⟩] := rfl

/-- Where three quotes stand, a literal on one line ends with the second. -/
theorem lineLength_lt_blockLength {text : List Char} (h : blockLength text ≠ 0) :
    lineLength text < blockLength text := by
  obtain ⟨quote, body, hquote, rfl⟩ := exists_quotes_of_blockLength h
  have hbody : lineBodyLength quote (quote :: quote :: body) = 1 := by
    simp only [isQuote, Bool.or_eq_true, decide_eq_true_eq] at hquote
    rcases hquote with rfl | rfl <;> simp [lineBodyLength, isLineEnd]
  rw [lineLength, if_pos hquote, hbody, blockLength, if_pos ⟨hquote, rfl, rfl⟩]
  omega

theorem pairwise_quotes : (ofFamily .quote).Pairwise Outdoes := by
  rw [ofFamily_quote, List.pairwise_pair]
  intro text hlength
  exact Or.inl (lineLength_lt_blockLength hlength)

/-! ## The order of the table -/

/-- A relation that holds between things of different sorts holds throughout a list, if it
holds throughout the things of each sort. -/
theorem pairwise_of_filter {α β : Type} [DecidableEq β] {r : α → α → Prop} (sort : α → β)
    {l : List α} (hsame : ∀ b, (l.filter (fun x => sort x = b)).Pairwise r)
    (hother : ∀ x ∈ l, ∀ y ∈ l, sort x ≠ sort y → r x y) : l.Pairwise r := by
  induction l with
  | nil => exact List.Pairwise.nil
  | cons x l ih =>
    rw [List.pairwise_cons]
    constructor
    · intro y hy
      by_cases hsort : sort x = sort y
      · have hpairs := hsame (sort x)
        rw [List.filter_cons_of_pos (by simp), List.pairwise_cons] at hpairs
        exact hpairs.1 y (List.mem_filter.mpr ⟨hy, by simp [hsort]⟩)
      · exact hother x List.mem_cons_self y (List.mem_cons_of_mem x hy) hsort
    · apply ih
      · intro b
        have hpairs := hsame b
        rw [List.filter_cons] at hpairs
        split at hpairs
        · exact (List.pairwise_cons.mp hpairs).2
        · exact hpairs
      · intro y hy z hz
        exact hother y (List.mem_cons_of_mem x hy) z (List.mem_cons_of_mem x hz)

/-- Every rule outdoes those that come after it in the table. -/
theorem pairwise_table : table.Pairwise Outdoes := by
  apply pairwise_of_filter (fun rule : Rule => rule.shape.family)
  · intro family
    cases family with
    | blank => exact List.pairwise_singleton Outdoes ⟨"whitespace", .blanks, .whitespace⟩
    | lineEnd => exact List.pairwise_singleton Outdoes ⟨"newline", .lineBreak, .newline⟩
    | comment => exact List.pairwise_singleton Outdoes ⟨"comment", .comment, .comment⟩
    | quote => exact pairwise_quotes
    | word => exact pairwise_words
    | digit => exact pairwise_digits
    | sign => exact pairwise_signs
  · intro rule hrule other hother hfamily
    exact outdoes_of_family hrule hother hfamily

/-- The rules for numerals by name, each with the pattern that it looks for. -/
def numeralRules : List (String × Pattern) :=
  [("float_decimal", .pointFloat), ("float_exponent", .exponentFloat),
   ("integer_binary", .binaryInteger), ("integer_octal", .octalInteger),
   ("integer_hex", .hexInteger), ("integer_decimal", .digits)]

theorem exists_rule_of_numeral {entry : String × Pattern} (h : entry ∈ numeralRules) :
    entry.2 ∈ Pattern.numerals ∧
      ∃ rule, ofName? entry.1 = some rule ∧ rule.shape = .pattern entry.2 := by
  refine ⟨List.mem_map_of_mem (f := Prod.snd) h, ?_⟩
  simp only [numeralRules, List.mem_cons, List.not_mem_nil, or_false] at h
  rcases h with rfl | rfl | rfl | rfl | rfl | rfl <;> exact ⟨_, rfl, rfl⟩

/-- A rule for numerals takes nothing just where no numeral of its pattern stands. -/
theorem isLongest_length {p : Pattern} (hp : p ∈ Pattern.numerals) {rule : Rule}
    (h : rule.shape = .pattern p) (text : List Char) :
    Pattern.IsLongest p.language text
      (if rule.length text = 0 then none else some (rule.length text)) := by
  have htext := Pattern.exact_numeral hp text
  have hlength : rule.length text = (p.length? text).getD 0 := by
    unfold length
    rw [h, Shape.length]
  rw [hlength]
  cases hn : p.length? text with
  | none =>
    rw [hn] at htext
    exact htext
  | some n =>
    obtain ⟨word, hword, -, hn'⟩ := Pattern.length?_eq_some hp hn
    obtain ⟨c, rest, rfl, -⟩ := Pattern.exists_digit_of_mem hp hword
    have hne : n ≠ 0 := by
      rw [← hn']
      exact Nat.succ_ne_zero _
    rw [hn] at htext
    rw [Option.getD_some, if_neg hne]
    exact htext

/-- The first rule that takes something from a text. -/
theorem exists_first {text : List Char} (h : ∃ rule ∈ table, rule.length text ≠ 0) :
    ∃ before rule after, table = before ++ rule :: after ∧
      (∀ earlier ∈ before, earlier.length text = 0) ∧ rule.length text ≠ 0 := by
  cases hfind : table.find? (fun rule => rule.length text ≠ 0) with
  | none =>
    obtain ⟨rule, hrule, hlength⟩ := h
    exact absurd (decide_eq_true hlength) (List.find?_eq_none.mp hfind rule hrule)
  | some rule =>
    obtain ⟨hlength, before, after, htable, hbefore⟩ := List.find?_eq_some_iff_append.mp hfind
    refine ⟨before, rule, after, htable, ?_, of_decide_eq_true hlength⟩
    intro earlier hearlier
    simpa using hbefore earlier hearlier

/-- The first rule that takes something outdoes all others. -/
theorem others_of_first {before after : List Rule} {rule : Rule} {text : List Char}
    (htable : table = before ++ rule :: after)
    (hbefore : ∀ earlier ∈ before, earlier.length text = 0) (hrule : rule.length text ≠ 0) :
    ∀ other ∈ before ++ after, other.length text < rule.length text ∨
      (other.length text = rule.length text ∧ rule.name ∈ wordOperators ∧
        other.name = "identifier") := by
  intro other hother
  rcases List.mem_append.mp hother with hmem | hmem
  · left
    rw [hbefore other hmem]
    exact Nat.pos_of_ne_zero hrule
  · have hpairs := pairwise_table
    rw [htable, List.pairwise_append, List.pairwise_cons] at hpairs
    exact hpairs.2.1.1 other hmem text hrule

/-- The rule that decides outdoes all others. -/
theorem others_of_first? {text : List Char} {rule : Rule} {n : Nat}
    (h : first? text = some (rule, n)) {other : Rule} (hother : other ∈ table) (hne : other ≠ rule) :
    other.length text < n ∨
      (other.length text = n ∧ rule.name ∈ wordOperators ∧ other.name = "identifier") := by
  obtain ⟨hrule, rfl, hlength⟩ := of_first? h
  obtain ⟨before, first, after, htable, hbefore, hfirst⟩ := exists_first ⟨rule, hrule, hlength⟩
  rw [first?_of_split htable hbefore hfirst] at h
  cases h
  apply others_of_first htable hbefore hfirst
  rw [htable] at hother
  simpa [hne] using hother

/-- No rule takes more than the first lexeme. -/
theorem length_le_first {rule : Rule} (hrule : rule ∈ table) (c : Char) (rest : List Char) :
    rule.length (c :: rest) ≤ (Lexeme.first c rest).text.length := by
  cases hfirst : first? (c :: rest) with
  | none =>
    have hzero := List.findSome?_eq_none_iff.mp hfirst rule hrule
    simp only [ite_eq_left_iff, reduceCtorEq, imp_false, not_not] at hzero
    omega
  | some pair =>
    obtain ⟨first, n⟩ := pair
    obtain ⟨-, rfl, hne⟩ := of_first? hfirst
    rw [(Lexeme.first_of_rule hfirst hne).2, List.length_take_of_le (first.length_le _)]
    by_cases hsame : rule = first
    · rw [hsame]
    · rcases others_of_first? hfirst hrule hsame with hless | ⟨hequal, -, -⟩
      · exact hless.le
      · exact hequal.le

end Rule

/-! ## One step of a scanner -/

namespace Scanner

variable {scanner : Scanner} {c : Char} {rest : List Char}

/-- A step takes the first lexeme of what is left. -/
theorem next?_of_rest (h : scanner.rest = c :: rest) :
    ∃ token next, scanner.next? = some (token, next) ∧
      token = (Lexeme.first c rest).toToken scanner.position ∧
      next.rest = (c :: rest).drop (Lexeme.first c rest).text.length := by
  obtain ⟨n, hn⟩ := Lexeme.first_text c rest
  unfold next?
  rw [h]
  refine ⟨_, _, rfl, rfl, ?_⟩
  rw [hn, List.length_cons, Nat.add_sub_cancel, List.drop_succ_cons]

theorem next?_of_rule {rule : Rule} (h : scanner.rest = c :: rest)
    (hrule : rule.length (c :: rest) ≠ 0)
    (hfirst : Rule.first? (c :: rest) = some (rule, rule.length (c :: rest))) :
    ∃ token next, scanner.next? = some (token, next) ∧
      token.value.toList = (c :: rest).take (rule.length (c :: rest)) ∧
      next.rest = (c :: rest).drop (rule.length (c :: rest)) := by
  obtain ⟨token, next, hnext, rfl, hrest⟩ := next?_of_rest h
  obtain ⟨-, htext⟩ := Lexeme.first_of_rule hfirst hrule
  refine ⟨_, next, hnext, ?_, ?_⟩
  · rw [Lexeme.toToken, String.toList_ofList, htext]
  · rw [hrest, htext, List.length_take_of_le (rule.length_le _)]

theorem next?_of_none (h : scanner.rest = c :: rest) (hfirst : Rule.first? (c :: rest) = none) :
    ∃ token next, scanner.next? = some (token, next) ∧ token.kind = .error ∧
      token.value = String.ofList [c] ∧ token.error.map Problem.code = some "L001" ∧
      next.rest = rest := by
  obtain ⟨token, next, hnext, rfl, hrest⟩ := next?_of_rest h
  have hlexeme : Lexeme.first c rest = ⟨.error, [c], some (.strayCharacter c)⟩ := by
    unfold Lexeme.first
    rw [hfirst]
  rw [hlexeme] at hnext hrest
  exact ⟨_, next, hnext, rfl, rfl, rfl, hrest⟩

end Scanner

/-! ## The law -/

/-- A step of the lexer takes the longest lexeme. Where some rule takes something, the first that
does so takes more than every other, a name apart that is a word operator, and the step takes as
much as this rule. The rules for numerals take the longest text that their patterns describe.
Where no rule takes anything, the step makes an error token of one character. -/
theorem a_step_takes_the_longest_lexeme (source : String) (offset : Nat)
    (hoffset : offset < source.length) :
    ((∃ rule ∈ Rule.table, rule.lengthAt source offset ≠ 0) →
      ∃ before rule after, Rule.table = before ++ rule :: after ∧
        (∀ earlier ∈ before, earlier.lengthAt source offset = 0) ∧
        rule.lengthAt source offset ≠ 0 ∧
        (∀ other ∈ before ++ after,
          other.lengthAt source offset < rule.lengthAt source offset ∨
          (other.lengthAt source offset = rule.lengthAt source offset ∧
            rule.name ∈ Rule.wordOperators ∧ other.name = "identifier")) ∧
        ∀ scanner : Scanner, scanner.rest = source.toList.drop offset →
          ∃ token next, scanner.next? = some (token, next) ∧
            token.value.toList =
              (source.toList.drop offset).take (rule.lengthAt source offset) ∧
            next.rest = source.toList.drop (offset + rule.lengthAt source offset)) ∧
    (∀ entry ∈ Rule.numeralRules, ∃ rule, Rule.ofName? entry.1 = some rule ∧
      Pattern.IsLongest entry.2.language (source.toList.drop offset)
        (if rule.lengthAt source offset = 0 then none
          else some (rule.lengthAt source offset))) ∧
    ((∀ rule ∈ Rule.table, rule.lengthAt source offset = 0) →
      ∀ scanner : Scanner, scanner.rest = source.toList.drop offset →
        ∃ c token next, source.toList[offset]? = some c ∧
          scanner.next? = some (token, next) ∧ token.kind = .error ∧
          token.value = String.ofList [c] ∧ token.error.map Problem.code = some "L001" ∧
          next.rest = source.toList.drop (offset + 1)) := by
  have hlength : offset < source.toList.length := by
    rw [String.length_toList]
    exact hoffset
  have hrow : source.toList.drop offset =
      source.toList[offset] :: source.toList.drop (offset + 1) :=
    List.drop_eq_getElem_cons hlength
  refine ⟨?_, ?_, ?_⟩
  · intro hsome
    obtain ⟨before, rule, after, htable, hbefore, hrule⟩ := Rule.exists_first hsome
    refine ⟨before, rule, after, htable, hbefore, hrule,
      Rule.others_of_first htable hbefore hrule, ?_⟩
    intro scanner hscanner
    have hfirst := Rule.first?_of_split htable hbefore hrule
    rw [hrow] at hscanner hrule hfirst
    obtain ⟨token, next, hnext, hvalue, hrest⟩ :=
      Scanner.next?_of_rule hscanner hrule hfirst
    rw [← hrow] at hvalue hrest
    rw [List.drop_drop] at hrest
    exact ⟨token, next, hnext, hvalue, hrest⟩
  · intro entry hentry
    obtain ⟨hp, rule, hname, hshape⟩ := Rule.exists_rule_of_numeral hentry
    exact ⟨rule, hname, Rule.isLongest_length hp hshape _⟩
  · intro hnone scanner hscanner
    have hfirst := Rule.first?_of_none hnone
    rw [hrow] at hscanner hfirst
    obtain ⟨token, next, hnext, hkind, hvalue, hcode, hrest⟩ :=
      Scanner.next?_of_none hscanner hfirst
    exact ⟨_, token, next, List.getElem?_eq_getElem hlength, hnext, hkind, hvalue, hcode, hrest⟩

/-- A power of ten without digits is no part of the numeral before it. -/
theorem a_numeral_before_an_unfinished_power :
    2 < "x=1.5e+x".length ∧
      ∃ rule, Rule.ofName? "float_decimal" = some rule ∧ rule.lengthAt "x=1.5e+x" 2 = 3 ∧
        ∀ word ∈ Pattern.pointFloat.language, word <+: "1.5e+x".toList → word.length ≤ 3 := by
  have hlength : 2 < "x=1.5e+x".length := by decide
  obtain ⟨-, hnumerals, -⟩ := a_step_takes_the_longest_lexeme "x=1.5e+x" 2 hlength
  obtain ⟨rule, hname, hlongest⟩ := hnumerals ("float_decimal", .pointFloat) List.mem_cons_self
  have hrule : rule.lengthAt "x=1.5e+x" 2 = 3 := by
    cases hname
    decide
  rw [hrule] at hlongest
  exact ⟨hlength, rule, hname, hrule, hlongest.2⟩

end Assay
