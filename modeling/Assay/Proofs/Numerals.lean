-- The languages of the numerals. A pattern is read part by part, each part as
-- far as it goes and without a second try. For the numerals that is enough:
-- what is taken is the longest text of the language at the front.
import Mathlib.Computability.Language
import Assay.Lexeme.Pattern

namespace Assay

/-- A run goes as far as its members do, if what follows starts with none. -/
theorem takeWhile_append_stop {p : Char → Bool} {run rest : List Char} (hrun : ∀ c ∈ run, p c)
    (hrest : ∀ c ∈ rest.head?, ¬ p c) : (run ++ rest).takeWhile p = run := by
  rw [List.takeWhile_append_of_pos hrun]
  cases rest with
  | nil => simp
  | cons c rest => rw [List.takeWhile_cons_of_neg (hrest c rfl), List.append_nil]

namespace Pattern

/-! ## Languages -/

/-- The texts that consist of one character of a class. -/
def ofClass (member : Char → Bool) : Language Char :=
  {word | ∃ c, member c ∧ word = [c]}

open Computability in
/-- The texts that a pattern describes. -/
def language : Pattern → Language Char
  | one member => ofClass member
  | many member => ofClass member * (ofClass member)∗
  | seq first second => first.language * second.language
  | optional part => 1 + part.language

theorem mem_one {member : Char → Bool} {word : List Char} :
    word ∈ (one member).language ↔ ∃ c, member c ∧ word = [c] := Iff.rfl

theorem mem_seq {first second : Pattern} {word : List Char} :
    word ∈ (seq first second).language ↔
      ∃ a ∈ first.language, ∃ b ∈ second.language, a ++ b = word :=
  Language.mem_mul

theorem mem_optional {part : Pattern} {word : List Char} :
    word ∈ (optional part).language ↔ word = [] ∨ word ∈ part.language := by
  rw [language, Language.mem_add, Language.mem_one]

theorem forall_of_mem_flatten {member : Char → Bool} {words : List (List Char)}
    (h : ∀ word ∈ words, word ∈ ofClass member) : ∀ c ∈ words.flatten, member c := by
  intro c hc
  obtain ⟨word, hword, hmem⟩ := List.mem_flatten.mp hc
  obtain ⟨d, hd, rfl⟩ := h word hword
  rw [List.mem_singleton.mp hmem]
  exact hd

theorem mem_many {member : Char → Bool} {word : List Char} :
    word ∈ (many member).language ↔ word ≠ [] ∧ ∀ c ∈ word, member c := by
  rw [language, Language.mem_mul]
  constructor
  · rintro ⟨a, ⟨c, hc, rfl⟩, b, hb, rfl⟩
    obtain ⟨words, rfl, hwords⟩ := Language.mem_kstar.mp hb
    refine ⟨by simp, ?_⟩
    intro d hd
    rcases List.mem_cons.mp hd with rfl | hd
    · exact hc
    · exact forall_of_mem_flatten hwords d hd
  · rintro ⟨hne, hall⟩
    obtain ⟨c, rest, rfl⟩ := List.exists_cons_of_ne_nil hne
    refine ⟨[c], ⟨c, hall c List.mem_cons_self, rfl⟩, rest, ?_, rfl⟩
    refine Language.mem_kstar.mpr ⟨rest.map (fun d => [d]), ?_, ?_⟩
    · rw [← List.flatMap_def, List.flatMap_singleton']
    · intro word hword
      obtain ⟨d, hd, rfl⟩ := List.mem_map.mp hword
      exact ⟨d, hall d (List.mem_cons_of_mem _ hd), rfl⟩

/-! ## The longest text at the front -/

/-- A length taken from the front of the text is that of the longest text of the language that
stands there. No length is taken only if no such text stands there. -/
def IsLongest (l : Language Char) (text : List Char) : Option Nat → Prop
  | none => ∀ word ∈ l, ¬ word <+: text
  | some n => (∃ word ∈ l, word <+: text ∧ word.length = n) ∧
      ∀ word ∈ l, word <+: text → word.length ≤ n

/-- A pattern that is read to the end of the longest text of its language. -/
def Exact (p : Pattern) : Prop := ∀ text, IsLongest p.language text (p.length? text)

theorem Exact.exists_length {p : Pattern} (h : Exact p) {word text : List Char}
    (hword : word ∈ p.language) (hpre : word <+: text) :
    ∃ n, p.length? text = some n ∧ word.length ≤ n := by
  have htext := h text
  cases hn : p.length? text with
  | none =>
    rw [hn] at htext
    exact absurd hpre (htext word hword)
  | some n =>
    rw [hn] at htext
    exact ⟨n, rfl, htext.2 word hword hpre⟩

theorem exact_one (member : Char → Bool) : Exact (one member) := by
  intro text
  cases text with
  | nil =>
    rintro word ⟨c, -, rfl⟩ hpre
    exact absurd (List.prefix_nil.mp hpre) (List.cons_ne_nil c [])
  | cons c rest =>
    rw [length?]
    by_cases hc : member c
    · rw [if_pos hc]
      refine ⟨⟨[c], ⟨c, hc, rfl⟩, ⟨rest, rfl⟩, rfl⟩, ?_⟩
      rintro word ⟨d, -, rfl⟩ -
      exact Nat.le_refl 1
    · rw [if_neg hc]
      rintro word ⟨d, hd, rfl⟩ hpre
      obtain ⟨rfl, -⟩ := List.cons_prefix_cons.mp hpre
      exact hc hd

theorem prefix_takeWhile {member : Char → Bool} {word text : List Char} (hpre : word <+: text)
    (hall : ∀ c ∈ word, member c) : word <+: text.takeWhile member := by
  obtain ⟨rest, rfl⟩ := hpre
  rw [List.takeWhile_append_of_pos hall]
  exact List.prefix_append _ _

theorem exact_many (member : Char → Bool) : Exact (many member) := by
  intro text
  rw [length?]
  by_cases hrun : (text.takeWhile member).isEmpty
  · rw [if_pos hrun]
    intro word hword hpre
    obtain ⟨hne, hall⟩ := mem_many.mp hword
    have hpart := prefix_takeWhile hpre hall
    rw [List.isEmpty_iff.mp hrun] at hpart
    exact hne (List.prefix_nil.mp hpart)
  · rw [if_neg hrun]
    have hclass : ∀ c ∈ text.takeWhile member, member c := List.all_eq_true.mp List.all_takeWhile
    refine ⟨⟨text.takeWhile member, mem_many.mpr ⟨?_, hclass⟩, List.takeWhile_prefix _, rfl⟩, ?_⟩
    · intro hnil
      exact hrun (List.isEmpty_iff.mpr hnil)
    · intro word hword hpre
      exact (prefix_takeWhile hpre (mem_many.mp hword).2).length_le

theorem exact_optional {part : Pattern} (h : Exact part) : Exact (optional part) := by
  intro text
  have htext := h text
  rw [length?]
  cases hn : part.length? text with
  | none =>
    rw [hn] at htext
    refine ⟨⟨[], mem_optional.mpr (Or.inl rfl), List.nil_prefix, rfl⟩, ?_⟩
    intro word hword hpre
    rcases mem_optional.mp hword with rfl | hword
    · exact Nat.le_refl 0
    · exact absurd hpre (htext word hword)
  | some n =>
    rw [hn] at htext
    obtain ⟨⟨longest, hlongest, hfront, hlength⟩, hmax⟩ := htext
    refine ⟨⟨longest, mem_optional.mpr (Or.inr hlongest), hfront, hlength⟩, ?_⟩
    intro word hword hpre
    rcases mem_optional.mp hword with rfl | hword
    · exact Nat.zero_le n
    · exact hmax word hword hpre

/-! ## Patterns in a row -/

/-- Where a text of both patterns stands, the first is read to the end of its part, or there is
nothing of the second. So nothing is lost by not trying the first again. -/
def Parts (first second : Pattern) : Prop :=
  ∀ (text a b : List Char) (n : Nat), a ∈ first.language → b ∈ second.language →
    a ++ b <+: text → first.length? text = some n → a.length = n ∨ b = []

theorem exact_seq {first second : Pattern} (hfirst : Exact first) (hsecond : Exact second)
    (hparts : Parts first second) : Exact (seq first second) := by
  intro text
  rw [length?]
  cases hn : first.length? text with
  | none =>
    rintro word hword hpre
    obtain ⟨a, ha, b, -, rfl⟩ := mem_seq.mp hword
    obtain ⟨n, hlength, -⟩ := hfirst.exists_length ha ((List.prefix_append a b).trans hpre)
    rw [hn] at hlength
    cases hlength
  | some n =>
    have hfront := hfirst text
    rw [hn] at hfront
    obtain ⟨⟨a₀, ha₀, ⟨rest, rfl⟩, rfl⟩, hmax⟩ := hfront
    rw [Option.bind_some, List.drop_left]
    have hrest := hsecond rest
    -- A text of both patterns at the front has its second part in the rest, or has none.
    have hsplit : ∀ word ∈ (seq first second).language, word <+: a₀ ++ rest →
        ∃ b ∈ second.language, b <+: rest ∧ word.length ≤ a₀.length + b.length := by
      intro word hword hpre
      obtain ⟨a, ha, b, hb, rfl⟩ := mem_seq.mp hword
      have hapre : a <+: a₀ ++ rest := (List.prefix_append a b).trans hpre
      have hle := hmax a ha hapre
      rcases hparts _ a b _ ha hb hpre hn with hlength | rfl
      · have heq : a = a₀ :=
          (List.prefix_of_prefix_length_le hapre (List.prefix_append _ _) hle).eq_of_length hlength
        rw [heq, List.prefix_append_right_inj] at hpre
        refine ⟨b, hb, hpre, ?_⟩
        rw [List.length_append]
        omega
      · refine ⟨[], hb, List.nil_prefix, ?_⟩
        rw [List.append_nil]
        exact hle
    cases hm : second.length? rest with
    | none =>
      rw [hm] at hrest
      intro word hword hpre
      obtain ⟨b, hb, hbpre, -⟩ := hsplit word hword hpre
      exact hrest b hb hbpre
    | some m =>
      rw [hm] at hrest
      obtain ⟨⟨b₀, hb₀, hb₀pre, rfl⟩, hmaxrest⟩ := hrest
      refine ⟨⟨a₀ ++ b₀, mem_seq.mpr ⟨a₀, ha₀, b₀, hb₀, rfl⟩, ?_, List.length_append⟩, ?_⟩
      · exact (List.prefix_append_right_inj a₀).mpr hb₀pre
      · intro word hword hpre
        obtain ⟨b, hb, hbpre, hle⟩ := hsplit word hword hpre
        exact hle.trans (Nat.add_le_add_left (hmaxrest b hb hbpre) a₀.length)

/-- No text of the pattern starts with a character of the class. -/
def Avoids (member : Char → Bool) (p : Pattern) : Prop :=
  ∀ (c : Char) (rest : List Char), c :: rest ∈ p.language → ¬ member c

theorem avoids_many {member other : Char → Bool} (h : ∀ c, other c → ¬ member c) :
    Avoids member (many other) := by
  intro c rest hmem
  exact h c ((mem_many.mp hmem).2 c List.mem_cons_self)

theorem avoids_seq_one {member other : Char → Bool} (h : ∀ c, other c → ¬ member c)
    (p : Pattern) : Avoids member (seq (one other) p) := by
  intro c rest hmem
  obtain ⟨a, ⟨d, hd, rfl⟩, b, -, hrow⟩ := mem_seq.mp hmem
  obtain ⟨rfl, -⟩ := List.cons.inj hrow
  exact h d hd

theorem avoids_optional {member : Char → Bool} {p : Pattern} (h : Avoids member p) :
    Avoids member (optional p) := by
  intro c rest hmem
  rcases mem_optional.mp hmem with hnil | hmem
  · cases hnil
  · exact h c rest hmem

theorem parts_one (member : Char → Bool) (second : Pattern) : Parts (one member) second := by
  rintro text a b n ⟨c, hc, rfl⟩ - hpre hn
  obtain ⟨rest, rfl⟩ := (List.prefix_append [c] b).trans hpre
  simp only [List.singleton_append, length?, if_pos hc, Option.some.injEq] at hn
  exact Or.inl hn

theorem parts_many {member : Char → Bool} {second : Pattern} (h : Avoids member second) :
    Parts (many member) second := by
  rintro text a b n ha hb ⟨rest, rfl⟩ hn
  cases b with
  | nil => exact Or.inr rfl
  | cons c b =>
    left
    obtain ⟨hne, hall⟩ := mem_many.mp ha
    have hrun : (a ++ c :: b ++ rest).takeWhile member = a := by
      rw [List.append_assoc]
      apply takeWhile_append_stop hall
      rintro d ⟨rfl⟩
      exact h c b hb
    rw [length?, hrun] at hn
    simpa [hne] using hn

theorem parts_optional {member : Char → Bool} {second : Pattern} (h : Avoids member second) :
    Parts (optional (one member)) second := by
  rintro text a b n ha hb ⟨rest, rfl⟩ hn
  simp only [length?, Option.some.injEq] at hn
  rcases mem_optional.mp ha with rfl | ⟨c, hc, rfl⟩
  · cases b with
    | nil => exact Or.inr rfl
    | cons c b =>
      left
      simpa [length?, h c b hb] using hn
  · left
    simpa [length?, hc] using hn

/-! ## Numerals -/

/-- The patterns of numerals, in the order in which they are tried. -/
def numerals : List Pattern :=
  [pointFloat, exponentFloat, binaryInteger, octalInteger, hexInteger, digits]

theorem not_digit_of_mem (chars : List Char) (h : chars.all (fun c => !isDecimalDigit c)) :
    ∀ c, decide (c ∈ chars) → ¬ isDecimalDigit c := by
  intro c hc
  simpa using List.all_eq_true.mp h c (of_decide_eq_true hc)

theorem exact_exponent : Exact exponent := by
  have hdigits : Avoids (fun c => c ∈ ['-', '+']) digits := by
    apply avoids_many
    intro c hdigit hsign
    exact not_digit_of_mem ['-', '+'] (by decide) c hsign hdigit
  have hsigned : Exact (seq (optional (oneOf ['-', '+'])) digits) :=
    exact_seq (exact_optional (exact_one _)) (exact_many _) (parts_optional hdigits)
  exact exact_seq (exact_one _) hsigned (parts_one _ _)

theorem avoids_exponent : Avoids isDecimalDigit exponent :=
  avoids_seq_one (not_digit_of_mem _ (by decide)) _

theorem exact_radixInteger (letters : List Char) (digit : Char → Bool) :
    Exact (radixInteger letters digit) := by
  have htail : Exact (seq (oneOf letters) (many digit)) :=
    exact_seq (exact_one _) (exact_many _) (parts_one _ _)
  exact exact_seq (exact_one _) htail (parts_one _ _)

theorem exact_pointFloat : Exact pointFloat := by
  have hfraction : Exact (seq digits (optional exponent)) :=
    exact_seq (exact_many _) (exact_optional exact_exponent)
      (parts_many (avoids_optional avoids_exponent))
  have htail : Exact (seq (oneOf ['.']) (seq digits (optional exponent))) :=
    exact_seq (exact_one _) hfraction (parts_one _ _)
  have havoids : Avoids isDecimalDigit (seq (oneOf ['.']) (seq digits (optional exponent))) :=
    avoids_seq_one (not_digit_of_mem _ (by decide)) _
  exact exact_seq (exact_many _) htail (parts_many havoids)

/-- Every numeral is read to the end of the longest text that its pattern describes. -/
theorem exact_numeral {p : Pattern} (h : p ∈ numerals) : Exact p := by
  simp only [numerals, List.mem_cons, List.not_mem_nil, or_false] at h
  rcases h with rfl | rfl | rfl | rfl | rfl | rfl
  · exact exact_pointFloat
  · exact exact_seq (exact_many _) exact_exponent (parts_many avoids_exponent)
  · exact exact_radixInteger _ _
  · exact exact_radixInteger _ _
  · exact exact_radixInteger _ _
  · exact exact_many _

theorem length?_eq_some {p : Pattern} (h : p ∈ numerals) {text : List Char} {n : Nat}
    (hn : p.length? text = some n) : ∃ word ∈ p.language, word <+: text ∧ word.length = n := by
  have htext := exact_numeral h text
  rw [hn] at htext
  exact htext.1

/-! ## The characters of a numeral -/

/-- Whether the character belongs to some class of the pattern. -/
def uses : Pattern → Char → Bool
  | one member, c => member c
  | many member, c => member c
  | seq first second, c => first.uses c || second.uses c
  | optional part, c => part.uses c

theorem uses_of_mem {p : Pattern} {word : List Char} (h : word ∈ p.language) :
    ∀ c ∈ word, p.uses c := by
  induction p generalizing word with
  | one member =>
    obtain ⟨d, hd, rfl⟩ := mem_one.mp h
    intro c hc
    rw [List.mem_singleton.mp hc]
    exact hd
  | many member => exact (mem_many.mp h).2
  | seq first second ihfirst ihsecond =>
    obtain ⟨a, ha, b, hb, rfl⟩ := mem_seq.mp h
    intro c hc
    rw [uses, Bool.or_eq_true]
    rcases List.mem_append.mp hc with hc | hc
    · exact Or.inl (ihfirst ha c hc)
    · exact Or.inr (ihsecond hb c hc)
  | optional part ih =>
    rcases mem_optional.mp h with rfl | h
    · simp
    · exact ih h

/-! ## What follows the first digits -/

/-- Every text of the pattern starts with decimal digits, and one of the marks follows them. -/
def Marked (marks : List Char) (p : Pattern) : Prop :=
  ∀ word ∈ p.language, ∃ run mark rest, word = run ++ mark :: rest ∧ run ≠ [] ∧
    (∀ c ∈ run, isDecimalDigit c) ∧ mark ∈ marks ∧ ¬ isDecimalDigit mark

theorem marked_seq {marks : List Char} (hmarks : marks.all (fun c => !isDecimalDigit c))
    {first : Pattern}
    (hfirst : ∀ a ∈ first.language, a ≠ [] ∧ ∀ c ∈ a, isDecimalDigit c) (rest : Pattern) :
    Marked marks (seq first (seq (oneOf marks) rest)) := by
  intro word hword
  obtain ⟨run, hrun, tail, htail, rfl⟩ := mem_seq.mp hword
  obtain ⟨a, ⟨mark, hmark, rfl⟩, b, -, rfl⟩ := mem_seq.mp htail
  obtain ⟨hne, hall⟩ := hfirst run hrun
  exact ⟨run, mark, b, rfl, hne, hall, of_decide_eq_true hmark,
    not_digit_of_mem marks hmarks mark hmark⟩

theorem marked_radixInteger {letters : List Char} (h : letters.all (fun c => !isDecimalDigit c))
    (digit : Char → Bool) : Marked letters (radixInteger letters digit) := by
  apply marked_seq h
  rintro a ⟨c, hc, rfl⟩
  refine ⟨List.cons_ne_nil c [], ?_⟩
  intro d hd
  rw [List.mem_singleton.mp hd, List.mem_singleton.mp (of_decide_eq_true hc)]
  decide

/-- The numerals but the plain ones, each with the marks that tell it from the others. -/
def markedNumerals : List (List Char × Pattern) :=
  [(['.'], pointFloat), (['e', 'E'], exponentFloat), (['b', 'B'], binaryInteger),
   (['o', 'O'], octalInteger), (['x', 'X'], hexInteger)]

theorem marked_of_mem {entry : List Char × Pattern} (h : entry ∈ markedNumerals) :
    Marked entry.1 entry.2 := by
  have hdigits : ∀ a ∈ digits.language, a ≠ [] ∧ ∀ c ∈ a, isDecimalDigit c :=
    fun a ha => mem_many.mp ha
  simp only [markedNumerals, List.mem_cons, List.not_mem_nil, or_false] at h
  rcases h with rfl | rfl | rfl | rfl | rfl
  · exact marked_seq (by decide) hdigits _
  · exact marked_seq (by decide) hdigits _
  · exact marked_radixInteger (by decide) _
  · exact marked_radixInteger (by decide) _
  · exact marked_radixInteger (by decide) _

/-- The mark of a numeral at the front of a text is the first character that is no digit. -/
theorem Marked.getElem?_run {marks : List Char} {p : Pattern} (h : Marked marks p)
    {word text : List Char} (hword : word ∈ p.language) (hpre : word <+: text) :
    ∃ mark ∈ marks, text[(text.takeWhile isDecimalDigit).length]? = some mark ∧
      (text.takeWhile isDecimalDigit).length < word.length := by
  obtain ⟨run, mark, rest, rfl, -, hrun, hmem, hmark⟩ := h word hword
  obtain ⟨more, rfl⟩ := hpre
  have htake : (run ++ mark :: rest ++ more).takeWhile isDecimalDigit = run := by
    rw [List.append_assoc]
    apply takeWhile_append_stop hrun
    rintro c ⟨rfl⟩
    exact hmark
  rw [htake]
  refine ⟨mark, hmem, by simp, ?_⟩
  rw [List.length_append, List.length_cons]
  omega

/-- No numeral is empty, and each starts with a decimal digit. -/
theorem exists_digit_of_mem {p : Pattern} (h : p ∈ numerals) {word : List Char}
    (hword : word ∈ p.language) : ∃ c rest, word = c :: rest ∧ isDecimalDigit c := by
  have hmarked : ∀ {marks : List Char} {q : Pattern}, Marked marks q → word ∈ q.language →
      ∃ c rest, word = c :: rest ∧ isDecimalDigit c := by
    intro marks q hq hmem
    obtain ⟨run, mark, rest, rfl, hne, hrun, -, -⟩ := hq word hmem
    obtain ⟨c, run, rfl⟩ := List.exists_cons_of_ne_nil hne
    exact ⟨c, run ++ mark :: rest, rfl, hrun c List.mem_cons_self⟩
  have hsplit : p ∈ markedNumerals.map Prod.snd ++ [digits] := h
  rcases List.mem_append.mp hsplit with hmem | hmem
  · obtain ⟨entry, hentry, rfl⟩ := List.mem_map.mp hmem
    exact hmarked (marked_of_mem hentry) hword
  · rw [List.mem_singleton.mp hmem] at hword
    obtain ⟨hne, hall⟩ := mem_many.mp hword
    obtain ⟨c, rest, rfl⟩ := List.exists_cons_of_ne_nil hne
    exact ⟨c, rest, rfl, hall c List.mem_cons_self⟩

end Pattern

end Assay
