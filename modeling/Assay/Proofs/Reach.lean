-- How far a rule reaches: never past the end of the text. So what a rule takes
-- is a front part of the text, as long as the rule says.
import Assay.Lexeme.Basic

namespace Assay

/-! ## The longest of some texts -/

theorem length_le_longest {texts : List (List Char)} {s : List Char} (h : s ∈ texts) :
    s.length ≤ longest texts := by
  induction texts with
  | nil => cases h
  | cons first rest ih =>
    have hcons : longest (first :: rest) = max first.length (longest rest) := rfl
    rw [hcons]
    rcases List.mem_cons.mp h with rfl | hmem
    · exact Nat.le_max_left _ _
    · exact Nat.le_trans (ih hmem) (Nat.le_max_right _ _)

theorem exists_of_longest {texts : List (List Char)} (h : longest texts ≠ 0) :
    ∃ s ∈ texts, s.length = longest texts := by
  induction texts with
  | nil => exact absurd rfl h
  | cons first rest ih =>
    have hcons : longest (first :: rest) = max first.length (longest rest) := rfl
    rw [hcons] at h ⊢
    by_cases hle : longest rest ≤ first.length
    · exact ⟨first, List.mem_cons_self, (Nat.max_eq_left hle).symm⟩
    · have hmax : max first.length (longest rest) = longest rest := Nat.max_eq_right (by omega)
      rw [hmax] at h ⊢
      obtain ⟨s, hs, hlength⟩ := ih h
      exact ⟨s, List.mem_cons_of_mem _ hs, hlength⟩

theorem longest_le {texts : List (List Char)} {n : Nat} (h : ∀ s ∈ texts, s.length ≤ n) :
    longest texts ≤ n := by
  by_cases hzero : longest texts = 0
  · rw [hzero]
    exact Nat.zero_le n
  · obtain ⟨s, hs, hlength⟩ := exists_of_longest hzero
    rw [← hlength]
    exact h s hs

/-! ## Literals -/

theorem blockBodyLength_le (quote : Char) (text : List Char) :
    blockBodyLength quote text ≤ text.length := by
  fun_induction blockBodyLength quote text with
  | case1 => exact Nat.le_refl 0
  | case2 => exact Nat.le_refl 1
  | case3 c rest ih =>
    simp only [List.length_cons]
    omega
  | case4 c rest _ _ h =>
    have hlength := (List.isPrefixOf_iff_prefix.mp h.2).length_le
    simp only [List.length_cons, List.length_nil] at hlength ⊢
    omega
  | case5 c rest _ _ _ ih =>
    simp only [List.length_cons]
    omega

theorem lineBodyLength_le (quote : Char) (text : List Char) :
    lineBodyLength quote text ≤ text.length := by
  fun_induction lineBodyLength quote text with
  | case1 => exact Nat.le_refl 0
  | case2 => exact Nat.le_refl 1
  | case3 c rest _ => simp
  | case4 c rest _ ih =>
    simp only [List.length_cons]
    omega
  | case5 c rest => exact Nat.zero_le _
  | case6 c rest => simp
  | case7 c rest _ _ _ _ ih =>
    simp only [List.length_cons]
    omega

theorem blockLength_le (text : List Char) : blockLength text ≤ text.length := by
  unfold blockLength
  split
  · rename_i a b c body
    split
    · have hbody := blockBodyLength_le a body
      simp only [List.length_cons]
      omega
    · exact Nat.zero_le _
  · exact Nat.zero_le _

/-- A block literal starts with three quotes that are the same. -/
theorem exists_quotes_of_blockLength {text : List Char} (h : blockLength text ≠ 0) :
    ∃ quote body, isQuote quote ∧ text = quote :: quote :: quote :: body := by
  unfold blockLength at h
  split at h
  · rename_i a b c body
    split at h
    · rename_i hquotes
      obtain ⟨hquote, rfl, rfl⟩ := hquotes
      exact ⟨c, body, hquote, rfl⟩
    · exact absurd rfl h
  · exact absurd rfl h

theorem lineLength_le (text : List Char) : lineLength text ≤ text.length := by
  unfold lineLength
  split
  · rename_i quote body
    split
    · have hbody := lineBodyLength_le quote body
      simp only [List.length_cons]
      omega
    · exact Nat.zero_le _
  · exact Nat.zero_le _

/-! ## Patterns -/

theorem Pattern.length?_le {p : Pattern} {text : List Char} {n : Nat}
    (h : p.length? text = some n) : n ≤ text.length := by
  induction p generalizing text n with
  | one member =>
    cases text with
    | nil => cases h
    | cons c rest =>
      rw [length?] at h
      split at h
      · cases h
        simp
      · cases h
  | many member =>
    rw [length?] at h
    split at h
    · cases h
    · cases h
      exact (List.takeWhile_prefix member).length_le
  | seq first second ihfirst ihsecond =>
    obtain ⟨a, ha, hmap⟩ := Option.bind_eq_some_iff.mp h
    obtain ⟨b, hb, rfl⟩ := Option.map_eq_some_iff.mp hmap
    have hfirst := ihfirst ha
    have hsecond := ihsecond hb
    rw [List.length_drop] at hsecond
    omega
  | optional part ih =>
    rw [length?, Option.some.injEq] at h
    subst h
    cases hpart : part.length? text with
    | none => exact Nat.zero_le _
    | some m => exact ih hpart

/-! ## Rules -/

theorem longest_filter_le {texts : List (List Char)} {p : List Char → Bool} {text : List Char}
    (h : ∀ s, p s → s <+: text) : longest (texts.filter p) ≤ text.length := by
  apply longest_le
  intro s hs
  exact (h s (List.mem_filter.mp hs).2).length_le

theorem Shape.length_le (shape : Shape) (text : List Char) : shape.length text ≤ text.length := by
  cases shape with
  | blanks => exact (List.takeWhile_prefix _).length_le
  | lineBreak =>
    rw [Shape.length]
    split
    · rename_i h
      exact (List.isPrefixOf_iff_prefix.mp h).length_le
    · split
      · rename_i h
        exact (List.isPrefixOf_iff_prefix.mp h).length_le
      · exact Nat.zero_le _
  | comment =>
    rw [Shape.length]
    split
    · exact (List.takeWhile_prefix _).length_le
    · exact Nat.zero_le _
  | blockLiteral => exact blockLength_le text
  | lineLiteral => exact lineLength_le text
  | pattern p =>
    rw [Shape.length]
    cases h : p.length? text with
    | none => exact Nat.zero_le _
    | some n => exact Pattern.length?_le h
  | spelling spellings => exact longest_filter_le fun s hs => List.isPrefixOf_iff_prefix.mp hs
  | wholeWord words =>
    apply longest_filter_le
    intro w hw
    exact List.isPrefixOf_iff_prefix.mp (Bool.and_eq_true_iff.mp hw).1
  | word =>
    cases text with
    | nil => exact Nat.zero_le _
    | cons c rest =>
      rw [Shape.length]
      split
      · have hrun := (List.takeWhile_prefix (l := rest) isWordChar).length_le
        rw [List.length_cons]
        omega
      · exact Nat.zero_le _

namespace Rule

/-- No rule takes more than there is. -/
theorem length_le (rule : Rule) (text : List Char) : rule.length text ≤ text.length :=
  rule.shape.length_le text

theorem length_nil (rule : Rule) : rule.length [] = 0 :=
  Nat.le_zero.mp (rule.length_le [])

/-- The first rule that takes something is the one that decides. -/
theorem first?_of_split {before after : List Rule} {rule : Rule} {text : List Char}
    (htable : table = before ++ rule :: after) (hbefore : ∀ r ∈ before, r.length text = 0)
    (hrule : rule.length text ≠ 0) : first? text = some (rule, rule.length text) := by
  unfold first?
  rw [htable, List.findSome?_append, List.findSome?_eq_none_iff.mpr, Option.none_or]
  · rw [List.findSome?_cons]
    simp [hrule]
  · intro r hr
    exact if_pos (hbefore r hr)

/-- The rule that decides is one of the table, and takes something. -/
theorem of_first? {text : List Char} {rule : Rule} {n : Nat} (h : first? text = some (rule, n)) :
    rule ∈ table ∧ n = rule.length text ∧ n ≠ 0 := by
  obtain ⟨other, hmem, hother⟩ := List.exists_of_findSome?_eq_some h
  simp only at hother
  split at hother
  · cases hother
  · rename_i hne
    cases hother
    exact ⟨hmem, rfl, hne⟩

/-- Where all rules take the same from two texts, the same rule decides. -/
theorem first?_congr {text other : List Char}
    (h : ∀ rule ∈ table, rule.length text = rule.length other) : first? text = first? other := by
  unfold first?
  generalize table = rules at h ⊢
  induction rules with
  | nil => rfl
  | cons rule rules ih =>
    rw [List.findSome?_cons, List.findSome?_cons, h rule List.mem_cons_self,
      ih (fun other hmem => h other (List.mem_cons_of_mem _ hmem))]

theorem first?_of_none {text : List Char} (h : ∀ rule ∈ table, rule.length text = 0) :
    first? text = none := by
  unfold first?
  rw [List.findSome?_eq_none_iff]
  intro rule hmem
  exact if_pos (h rule hmem)

end Rule

namespace Lexeme

/-- Where a rule decides, the lexeme is what the rule makes of the front part that it takes, and
the reading goes on after it. -/
theorem first_of_rule {rule : Rule} {c : Char} {rest : List Char}
    (h : Rule.first? (c :: rest) = some (rule, rule.length (c :: rest)))
    (hrule : rule.length (c :: rest) ≠ 0) :
    first c rest = judge rule.kind c (rest.take (rule.length (c :: rest) - 1)) ∧
      (first c rest).text = (c :: rest).take (rule.length (c :: rest)) := by
  have hfirst : first c rest = judge rule.kind c (rest.take (rule.length (c :: rest) - 1)) := by
    unfold first
    rw [h]
  refine ⟨hfirst, ?_⟩
  rw [hfirst, judge_text]
  obtain ⟨n, hn⟩ := Nat.exists_eq_succ_of_ne_zero hrule
  rw [hn, Nat.succ_eq_add_one, Nat.add_sub_cancel, List.take_succ_cons]

/-- A rule of the table makes the first lexeme, or else the first character is a stray one. -/
theorem first_cases (c : Char) (rest : List Char) :
    (∃ rule ∈ Rule.table, rule.length (c :: rest) ≠ 0 ∧
      first c rest = judge rule.kind c (rest.take (rule.length (c :: rest) - 1))) ∨
    first c rest = ⟨.error, [c], some (.strayCharacter c)⟩ := by
  unfold first
  split
  · rename_i rule n hfirst
    obtain ⟨hrule, rfl, hne⟩ := Rule.of_first? hfirst
    exact Or.inl ⟨rule, hrule, hne, rfl⟩
  · exact Or.inr rfl

end Lexeme

end Assay
