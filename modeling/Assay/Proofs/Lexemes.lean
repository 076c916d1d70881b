-- Lexemes in a text: how each of them is read in front of whatever can follow
-- it. A rule that takes the lexeme decides if no other rule of its family
-- reaches further, so only the first character of what follows matters.
import Assay.Identifier
import Assay.Proofs.LongestMatch
import Assay.Proofs.Quotations

namespace Assay

/-! ## What follows -/

/-- The text starts as a lexeme of one of these families does, or is empty. -/
def Opens (families : List Family) (text : List Char) : Prop :=
  ∀ c ∈ text.head?, Family.ofChar c ∈ families

theorem opens_nil (families : List Family) : Opens families [] := by
  intro c hc
  cases hc

theorem opens_cons {families : List Family} {c : Char} (h : Family.ofChar c ∈ families)
    (rest : List Char) : Opens families (c :: rest) := by
  intro d hd
  cases hd
  exact h

def Family.all : List Family :=
  [blank, lineEnd, comment, quote, word, digit, sign]

theorem opens_all (text : List Char) : Opens Family.all text := by
  intro c _
  cases Family.ofChar c <;> decide

theorem Opens.mono {families others : List Family} {text : List Char} (h : Opens families text)
    (hsub : families ⊆ others) : Opens others text :=
  fun c hc => hsub (h c hc)

theorem Opens.false {families : List Family} {text : List Char} (h : Opens families text) {c : Char}
    (hc : c ∈ text.head?) {family : Family} (hfamily : Family.ofChar c = family)
    (hnot : family ∉ families) : False := by
  have hmem := h c hc
  rw [hfamily] at hmem
  exact hnot hmem

/-- The text starts as a lexeme of one of these families does. -/
def Starts (families : List Family) (text : List Char) : Prop :=
  ∃ c rest, text = c :: rest ∧ Family.ofChar c ∈ families

theorem Starts.mono {families others : List Family} {text : List Char} (h : Starts families text)
    (hsub : families ⊆ others) : Starts others text := by
  obtain ⟨c, rest, hrow, hfamily⟩ := h
  exact ⟨c, rest, hrow, hsub hfamily⟩

theorem Starts.opens_append {families : List Family} {text : List Char} (h : Starts families text)
    (rest : List Char) : Opens families (text ++ rest) := by
  obtain ⟨c, tail, rfl, hfamily⟩ := h
  exact opens_cons hfamily _

/-- A front part of the text that is longer than another holds the character after that one. -/
theorem exists_head_of_longer {front rest longer : List Char} (hpre : longer <+: front ++ rest)
    (hlonger : front.length < longer.length) :
    ∃ c more, longer = front ++ c :: more ∧ c ∈ rest.head? := by
  obtain ⟨more, rfl⟩ : front <+: longer :=
    List.prefix_of_prefix_length_le (List.prefix_append _ _) hpre hlonger.le
  rw [List.prefix_append_right_inj] at hpre
  cases more with
  | nil => simp at hlonger
  | cons c more =>
    obtain ⟨after, rfl⟩ := hpre
    exact ⟨c, more, rfl, rfl⟩

theorem ofChar_blank {c : Char} (h : c = ' ' ∨ c = '\t') : Family.ofChar c = .blank := by
  rcases h with rfl | rfl <;> rfl

theorem ofChar_wordChar {c : Char} (h : isWordChar c) : Family.ofChar c ∈ [.word, .digit] := by
  by_cases hstart : isWordStart c
  · rw [ofChar_word hstart]
    decide
  · have hdigit : c.isDigit := by
      simp only [isWordStart, Bool.or_eq_true, not_or] at hstart
      simp only [isWordChar, Char.isAlphanum, Bool.or_eq_true] at h
      tauto
    have hdecimal : isDecimalDigit c := by
      simp only [Char.isDigit, Bool.and_eq_true, decide_eq_true_eq, ge_iff_le,
        UInt32.le_iff_toNat_le] at hdigit
      simp at hdigit
      have hval : c.toNat = c.val.toNat := rfl
      refine List.any_eq_true.mpr ⟨0x30, List.mem_cons_self, ?_⟩
      simp only [Bool.and_eq_true, decide_eq_true_eq]
      omega
    rw [ofChar_digit hdecimal]
    decide

/-- Blanks, number signs and line ends are single characters, unlike words, digits and signs. -/
theorem mem_of_ofChar {c : Char} (h : Family.ofChar c ∈ [.blank, .lineEnd, .comment]) :
    c ∈ [' ', '\t', '#', '\r', '\n'] := by
  unfold Family.ofChar at h
  split_ifs at h with hblank hline hcomment hquote hword hdigit
  · rcases hblank with rfl | rfl <;> decide
  · simp only [isLineEnd, Bool.or_eq_true, decide_eq_true_eq] at hline
    rcases hline with rfl | rfl <;> decide
  · rw [hcomment]
    decide
  all_goals exact absurd h (by decide)

theorem isLineEnd_of_ofChar {c : Char} (h : Family.ofChar c = .lineEnd) : isLineEnd c := by
  by_contra hline
  unfold Family.ofChar at h
  rw [if_neg hline] at h
  split_ifs at h

theorem eq_of_ofChar_comment {c : Char} (h : Family.ofChar c = .comment) : c = '#' := by
  by_contra hne
  unfold Family.ofChar at h
  rw [if_neg hne] at h
  split_ifs at h

/-! ## The rule that decides -/

/-- A rule decides where no other rule of its family takes more, and a name only where no word
operator stands. -/
theorem Rule.first?_of_most {rule : Rule} {text : List Char} (hrule : rule ∈ table)
    (hlength : rule.length text ≠ 0)
    (hmost : ∀ other ∈ ofFamily rule.shape.family, other.length text ≤ rule.length text)
    (hname : rule.name = "identifier" →
      ∀ other ∈ table, other.name ∈ wordOperators → other.length text = 0) :
    first? text = some (rule, rule.length text) := by
  obtain ⟨before, first, after, htable, hbefore, hfirst⟩ := exists_first ⟨rule, hrule, hlength⟩
  have hmem : first ∈ table := by
    rw [htable]
    exact List.mem_append_right _ List.mem_cons_self
  have hfamily : first.shape.family = rule.shape.family := by
    cases text with
    | nil => exact absurd rule.length_nil hlength
    | cons c rest =>
      rw [← ofChar_of_length hmem hfirst]
      exact ofChar_of_length hrule hlength
  have hle : first.length text ≤ rule.length text :=
    hmost first (List.mem_filter.mpr ⟨hmem, decide_eq_true hfamily⟩)
  suffices hsame : rule = first by
    rw [hsame]
    exact first?_of_split htable hbefore hfirst
  by_contra hne
  have hother : rule ∈ before ++ after := by
    rw [htable] at hrule
    simpa [hne] using hrule
  rcases others_of_first htable hbefore hfirst rule hother with hless | ⟨-, hoperator, hword⟩
  · omega
  · exact hfirst (hname hword first hmem hoperator)

theorem Rule.kind_of_name {rule : Rule} (hrule : rule ∈ table) (h : rule.name = "identifier") :
    rule.kind = .identifier := by
  have hall : ∀ r ∈ table, r.name = "identifier" → r.kind = .identifier := by decide
  exact hall rule hrule h

theorem Rule.shape_of_wordOperator {rule : Rule} (hrule : rule ∈ table)
    (h : rule.name ∈ wordOperators) : rule.shape = .wholeWord rule.words := by
  have hall : ∀ r ∈ table, r.name ∈ wordOperators → r.words ≠ [] := by decide
  have hwords := hall rule hrule h
  obtain ⟨name, shape, kind⟩ := rule
  cases shape with
  | wholeWord words => rfl
  | _ => exact absurd rfl hwords

/-- The operators that assign, alone or after a computation. -/
def Rule.assignmentOperators : List (List Char) :=
  ['='] :: compoundAssignments

namespace Lexeme

/-- In front of any text that starts with one of these families, or of none, the lexeme is read
as it is, and reading goes on after it. -/
def ReadBefore (families : List Family) (lexeme : Lexeme) : Prop :=
  ∀ rest, Opens families rest → split (lexeme.text ++ rest) = lexeme :: split rest

theorem ReadBefore.mono {families others : List Family} {lexeme : Lexeme}
    (h : lexeme.ReadBefore families) (hsub : others ⊆ families) : lexeme.ReadBefore others :=
  fun rest hrest => h rest (hrest.mono hsub)

theorem split_of_rule {rule : Rule} (hrule : rule ∈ Rule.table) {c : Char} {tail rest : List Char}
    (hlength : rule.length (c :: tail ++ rest) = (c :: tail).length)
    (hmost : ∀ other ∈ Rule.ofFamily rule.shape.family,
      other.length (c :: tail ++ rest) ≤ (c :: tail).length)
    (hname : rule.name = "identifier" → ∀ other ∈ Rule.table, other.name ∈ Rule.wordOperators →
      other.length (c :: tail ++ rest) = 0) :
    split (c :: tail ++ rest) = judge rule.kind c tail :: split rest := by
  have hne : rule.length (c :: tail ++ rest) ≠ 0 := by
    rw [hlength]
    exact Nat.succ_ne_zero _
  rw [← hlength] at hmost
  have hfirst : first c (tail ++ rest) = judge rule.kind c
      ((tail ++ rest).take (rule.length (c :: tail ++ rest) - 1)) :=
    (first_of_rule (Rule.first?_of_most hrule hne hmost hname) hne).1
  rw [hlength, List.length_cons, Nat.add_sub_cancel, List.take_left' rfl] at hfirst
  rw [List.cons_append, split_cons, hfirst, judge_text, List.length_cons, Nat.add_sub_cancel,
    List.drop_left' rfl]

/-- A lexeme that its rule takes, and of which no rule of the family takes more, is read as the
rule makes it. -/
theorem readBefore_of_rule {rule : Rule} {families : List Family} {c : Char} {tail : List Char}
    (hrule : rule ∈ Rule.table) (hkind : rule.kind ≠ .identifier)
    (hlength : ∀ rest, Opens families rest →
      rule.length (c :: tail ++ rest) = (c :: tail).length)
    (hmost : ∀ rest, Opens families rest → ∀ other ∈ Rule.ofFamily rule.shape.family,
      other.length (c :: tail ++ rest) ≤ (c :: tail).length) :
    (judge rule.kind c tail).ReadBefore families := by
  intro rest hrest
  rw [judge_text]
  exact split_of_rule hrule (hlength rest hrest) (hmost rest hrest)
    (fun hname => absurd (Rule.kind_of_name hrule hname) hkind)

/-! ## Blanks, line ends and comments -/

theorem readBefore_of_single {rule : Rule} {families : List Family} {c : Char} {tail : List Char}
    (hrule : rule ∈ Rule.table) (hkind : rule.kind ≠ .identifier)
    (hfamily : Rule.ofFamily rule.shape.family = [rule])
    (hlength : ∀ rest, Opens families rest →
      rule.length (c :: tail ++ rest) = (c :: tail).length) :
    (judge rule.kind c tail).ReadBefore families := by
  apply readBefore_of_rule hrule hkind hlength
  intro rest hrest other hother
  rw [hfamily, List.mem_singleton] at hother
  rw [hother, hlength rest hrest]

theorem readBefore_blanks {blanks : List Char} (hne : blanks ≠ [])
    (hblanks : ∀ c ∈ blanks, c = ' ' ∨ c = '\t') :
    (⟨.whitespace, blanks, none⟩ : Lexeme).ReadBefore
      [.lineEnd, .comment, .quote, .word, .digit, .sign] := by
  obtain ⟨c, tail, rfl⟩ := List.exists_cons_of_ne_nil hne
  have hrule : (⟨"whitespace", .blanks, .whitespace⟩ : Rule) ∈ Rule.table := List.mem_cons_self
  apply readBefore_of_single hrule (by decide) rfl
  intro rest hrest
  unfold Rule.length
  rw [Shape.length, takeWhile_append_stop]
  · intro d hd
    simpa using hblanks d hd
  · intro d hd hblank
    exact hrest.false hd (ofChar_blank (by simpa using hblank)) (by decide)

theorem readBefore_lineBreak {mark : List Char} (hmark : mark ∈ [['\n'], ['\r', '\n']]) :
    (⟨.newline, mark, none⟩ : Lexeme).ReadBefore Family.all := by
  have hrule : (⟨"newline", .lineBreak, .newline⟩ : Rule) ∈ Rule.table := by simp [Rule.table]
  simp only [List.mem_cons, List.not_mem_nil, or_false] at hmark
  rcases hmark with rfl | rfl
  · apply readBefore_of_single hrule (by decide) rfl
    intro rest _
    simp [Rule.length, Shape.length]
  · apply readBefore_of_single hrule (by decide) rfl
    intro rest _
    simp [Rule.length, Shape.length]

theorem readBefore_comment {body : List Char} (hbody : ∀ c ∈ body, ¬ isLineEnd c) :
    (⟨.comment, '#' :: body, none⟩ : Lexeme).ReadBefore [.lineEnd] := by
  have hrule : (⟨"comment", .comment, .comment⟩ : Rule) ∈ Rule.table := by simp [Rule.table]
  apply readBefore_of_single hrule (by decide) rfl
  intro rest hrest
  have hsign : ['#'].isPrefixOf ('#' :: body ++ rest) :=
    List.isPrefixOf_iff_prefix.mpr ⟨body ++ rest, rfl⟩
  unfold Rule.length
  rw [Shape.length, if_pos hsign, takeWhile_append_stop]
  · intro c hc
    rcases List.mem_cons.mp hc with rfl | hmem
    · decide
    · simpa using hbody c hmem
  · intro c hc hline
    have hfamily := List.mem_singleton.mp (hrest c hc)
    rw [isLineEnd_of_ofChar hfamily] at hline
    exact absurd hline (by decide)

/-! ## Words -/

/-- A word ends where no character of a word follows. -/
theorem takeWhile_word_append {word rest : List Char} (hword : ∀ c ∈ word, isWordChar c)
    (hrest : Opens [.blank, .lineEnd, .comment, .quote, .sign] rest) :
    (word ++ rest).takeWhile isWordChar = word := by
  apply takeWhile_append_stop hword
  intro c hc hchar
  have hfamily := ofChar_wordChar hchar
  simp only [List.mem_cons, List.not_mem_nil, or_false] at hfamily
  rcases hfamily with hfamily | hfamily
  · exact hrest.false hc hfamily (by decide)
  · exact hrest.false hc hfamily (by decide)

/-- A word that is no operator is read up to its end. -/
theorem readBefore_word {word : List Char} (hname : isName word)
    (hoperator : ∀ rule ∈ Rule.table, word ∉ rule.words) :
    (⟨classifyWord (String.ofList word), word, none⟩ : Lexeme).ReadBefore
      [.blank, .lineEnd, .comment, .quote, .sign] := by
  intro rest hrest
  cases word with
  | nil => cases hname
  | cons c tail =>
    obtain ⟨hstart, htail⟩ := Bool.and_eq_true_iff.mp hname
    have hchars : ∀ d ∈ c :: tail, isWordChar d := by
      intro d hd
      rcases List.mem_cons.mp hd with rfl | hmem
      · exact isWordChar_of_isWordStart hstart
      · exact List.all_eq_true.mp htail d hmem
    have hrun := takeWhile_word_append hchars hrest
    have hrule : (⟨"identifier", .word, .identifier⟩ : Rule) ∈ Rule.table := by simp [Rule.table]
    have hlength : (⟨"identifier", .word, .identifier⟩ : Rule).length (c :: tail ++ rest) =
        (c :: tail).length := by
      unfold Rule.length
      rw [List.cons_append, Shape.length_word hstart, ← List.cons_append, hrun]
    -- What stands here is the whole word, and it is none of the word operators.
    have hnone : ∀ other ∈ Rule.table, other.shape = .wholeWord other.words →
        other.length (c :: tail ++ rest) = 0 := by
      intro other hother hshape
      by_contra hne
      have hmem := (Rule.length_of_words hother hshape hne).1
      rw [hrun] at hmem
      exact hoperator other hother hmem
    apply split_of_rule hrule hlength
    · intro other hother
      obtain ⟨htable, hfamily⟩ := List.mem_filter.mp hother
      rcases Rule.shape_of_word (of_decide_eq_true hfamily) with hshape | ⟨hshape, -⟩
      · rw [hnone other htable hshape]
        exact Nat.zero_le _
      · unfold Rule.length at hlength ⊢
        rw [hshape, hlength]
    · intro _ other hother hmem
      exact hnone other hother (Rule.shape_of_wordOperator hother hmem)

/-- A word operator is read up to its end. -/
theorem readBefore_wordOperator {rule : Rule} (hrule : rule ∈ Rule.table) {c : Char}
    {tail : List Char} (hword : c :: tail ∈ rule.words) :
    (judge rule.kind c tail).ReadBefore [.blank, .lineEnd, .comment, .quote, .sign] := by
  have hkinds : ∀ r ∈ Rule.table, r.words ≠ [] → r.kind ≠ .identifier ∧ r.shape.family = .word := by
    decide
  obtain ⟨hkind, hfamily⟩ := hkinds rule hrule (List.ne_nil_of_mem hword)
  have hchars := (Rule.words_of_mem hrule hword).1
  apply readBefore_of_rule hrule hkind
  · intro rest hrest
    have hrun := takeWhile_word_append hchars hrest
    rw [Rule.length_of_mem_words hrule (by rw [hrun]; exact hword), hrun]
  · intro rest hrest other hother
    rw [hfamily] at hother
    obtain ⟨htable, hword'⟩ := List.mem_filter.mp hother
    by_cases hzero : other.length (c :: tail ++ rest) = 0
    · rw [hzero]
      exact Nat.zero_le _
    rcases Rule.shape_of_word (of_decide_eq_true hword') with hshape' | ⟨hshape', -⟩
    · rw [(Rule.length_of_words htable hshape' hzero).2, takeWhile_word_append hchars hrest]
    · have hstart := (Rule.words_of_mem hrule hword).2 c rfl
      unfold Rule.length
      rw [hshape', List.cons_append, Shape.length_word hstart, ← List.cons_append,
        takeWhile_word_append hchars hrest]

/-! ## Operators -/

/-- No sign holds a blank, a number sign or a line end. -/
theorem length_le_of_sign (sign : List Char) {rest : List Char}
    (hrest : Opens [.blank, .lineEnd, .comment] rest) :
    ∀ other ∈ Rule.ofFamily .sign, other.length (sign ++ rest) ≤ sign.length := by
  have hsigns : ∀ group ∈ Rule.table.map Rule.spellings, ∀ s ∈ group,
      [' ', '\t', '#', '\r', '\n'].all (fun c => c ∉ s) := by decide
  intro other hother
  obtain ⟨htable, hfamily⟩ := List.mem_filter.mp hother
  by_contra hlonger
  unfold Rule.length at hlonger
  rw [Rule.shape_of_sign (of_decide_eq_true hfamily)] at hlonger
  obtain ⟨s, hs, hpre, hlength⟩ := Shape.exists_of_spelling (Nat.ne_zero_of_lt (not_le.mp hlonger))
  rw [← hlength, not_le] at hlonger
  obtain ⟨c, more, rfl, hc⟩ := exists_head_of_longer hpre hlonger
  have hnot := List.all_eq_true.mp (hsigns _ (List.mem_map_of_mem htable) _ hs) c
    (mem_of_ofChar (hrest c hc))
  simp at hnot

/-- A sign is read up to its end before a blank, a comment or a line end. -/
theorem readBefore_sign {rule : Rule} (hrule : rule ∈ Rule.ofFamily .sign) {c : Char}
    {tail : List Char} (hspelling : c :: tail ∈ rule.spellings) :
    (judge rule.kind c tail).ReadBefore [.blank, .lineEnd, .comment] := by
  obtain ⟨htable, hfamily⟩ := List.mem_filter.mp hrule
  have hsign : rule.shape.family = .sign := of_decide_eq_true hfamily
  have hkind : rule.kind ≠ .identifier := by
    have hall : ∀ r ∈ Rule.ofFamily .sign, r.kind ≠ .identifier := by decide
    exact hall rule hrule
  apply readBefore_of_rule htable hkind
  · intro rest hrest
    refine Nat.le_antisymm (length_le_of_sign (c :: tail) hrest rule hrule) ?_
    unfold Rule.length
    rw [Rule.shape_of_sign hsign]
    refine length_le_longest (List.mem_filter.mpr ⟨hspelling, ?_⟩)
    exact List.isPrefixOf_iff_prefix.mpr (List.prefix_append _ _)
  · intro rest hrest
    rw [hsign]
    exact length_le_of_sign (c :: tail) hrest

/-- A sign reaches further than an operator only with an equals sign after it. -/
theorem length_le_of_operator {operator rest : List Char} (h : operator ∈ Rule.assignmentOperators)
    (hrest : Opens [.blank, .lineEnd, .comment, .quote, .word, .digit] rest) :
    ∀ other ∈ Rule.ofFamily .sign, other.length (operator ++ rest) ≤ operator.length := by
  have hequals : ∀ operator ∈ Rule.assignmentOperators, ∀ group ∈ Rule.table.map Rule.spellings,
      ∀ s ∈ group, operator <+: s → s[operator.length]? ∈ [none, some '='] := by decide
  intro other hother
  obtain ⟨htable, hfamily⟩ := List.mem_filter.mp hother
  by_contra hlonger
  unfold Rule.length at hlonger
  rw [Rule.shape_of_sign (of_decide_eq_true hfamily)] at hlonger
  obtain ⟨s, hs, hpre, hlength⟩ := Shape.exists_of_spelling (Nat.ne_zero_of_lt (not_le.mp hlonger))
  rw [← hlength, not_le] at hlonger
  obtain ⟨c, more, rfl, hc⟩ := exists_head_of_longer hpre hlonger
  have hequal := hequals operator h _ (List.mem_map_of_mem htable) _ hs (List.prefix_append _ _)
  simp only [List.getElem?_append_right (Nat.le_refl _), Nat.sub_self, List.getElem?_cons_zero,
    List.mem_cons, List.not_mem_nil, or_false, Option.some.injEq, reduceCtorEq, false_or] at hequal
  rw [hequal] at hc
  exact hrest.false hc rfl (by decide)

theorem exists_rule_of_operator {operator : List Char} (h : operator ∈ Rule.assignmentOperators) :
    ∃ rule ∈ Rule.ofFamily .sign, operator ∈ rule.spellings ∧ rule.kind = .assignmentOperator := by
  rcases List.mem_cons.mp h with rfl | hmem
  · refine ⟨⟨"assignment", .spelling [['=']], .assignmentOperator⟩, ?_, List.mem_cons_self, rfl⟩
    exact List.mem_filter.mpr ⟨by simp [Rule.table], rfl⟩
  · refine ⟨⟨"compound_assignment", .spelling Rule.compoundAssignments, .assignmentOperator⟩, ?_,
      hmem, rfl⟩
    exact List.mem_filter.mpr ⟨by simp [Rule.table], rfl⟩

theorem readBefore_operator {operator : List Char} (h : operator ∈ Rule.assignmentOperators) :
    (⟨.assignmentOperator, operator, none⟩ : Lexeme).ReadBefore
      [.blank, .lineEnd, .comment, .quote, .word, .digit] := by
  obtain ⟨rule, hmem, hspelling, hkind⟩ := exists_rule_of_operator h
  obtain ⟨htable, hfamily⟩ := List.mem_filter.mp hmem
  have hsign : rule.shape.family = .sign := of_decide_eq_true hfamily
  cases operator with
  | nil => exact absurd h (by decide)
  | cons c tail =>
    have hjudge : judge rule.kind c tail = ⟨.assignmentOperator, c :: tail, none⟩ := by
      rw [hkind]
      rfl
    rw [← hjudge]
    apply readBefore_of_rule htable (by rw [hkind]; decide)
    · intro rest hrest
      have hle := length_le_of_operator h hrest rule hmem
      refine Nat.le_antisymm hle ?_
      unfold Rule.length
      rw [Rule.shape_of_sign hsign]
      refine length_le_longest (List.mem_filter.mpr ⟨hspelling, ?_⟩)
      exact List.isPrefixOf_iff_prefix.mpr (List.prefix_append _ _)
    · intro rest hrest
      rw [hsign]
      exact length_le_of_operator h hrest

/-! ## Numerals -/

/-- No numeral holds a blank, a number sign or a line end. -/
theorem length_le_of_numeral (word : List Char) {rest : List Char}
    (hrest : Opens [.blank, .lineEnd, .comment] rest) :
    ∀ other ∈ Rule.ofFamily .digit, other.length (word ++ rest) ≤ word.length := by
  have hclasses : ∀ p ∈ Pattern.numerals,
      [' ', '\t', '#', '\r', '\n'].all (fun c => !p.uses c) := by decide
  intro other hother
  obtain ⟨htable, hfamily⟩ := List.mem_filter.mp hother
  by_contra hlonger
  obtain ⟨p, hp, hlength⟩ := Rule.exists_pattern (of_decide_eq_true hfamily)
    (Nat.ne_zero_of_lt (not_le.mp hlonger))
  have hnumeral : p ∈ Pattern.numerals := by
    rw [← Rule.filterMap_pattern?_table]
    exact List.mem_filterMap.mpr ⟨other, htable, hp⟩
  obtain ⟨longer, hlanguage, hpre, hn⟩ := Pattern.length?_eq_some hnumeral hlength
  rw [← hn, not_le] at hlonger
  obtain ⟨c, more, rfl, hc⟩ := exists_head_of_longer hpre hlonger
  have huses := Pattern.uses_of_mem hlanguage c (by simp)
  have hnot := List.all_eq_true.mp (hclasses p hnumeral) c (mem_of_ofChar (hrest c hc))
  simp [huses] at hnot

theorem readBefore_numeral {name : String} {p : Pattern} {kind : TokenKind} {word : List Char}
    (hrule : ⟨name, .pattern p, kind⟩ ∈ Rule.table) (hkind : kind ∈ [.integer, .float])
    (hword : word ∈ p.language) :
    (⟨kind, word, none⟩ : Lexeme).ReadBefore [.blank, .lineEnd, .comment] := by
  have hp := Rule.mem_numerals hrule rfl
  obtain ⟨c, tail, rfl, -⟩ := Pattern.exists_digit_of_mem hp hword
  have hjudge : judge kind c tail = ⟨kind, c :: tail, none⟩ := by
    simp only [List.mem_cons, List.not_mem_nil, or_false] at hkind
    rcases hkind with rfl | rfl <;> rfl
  rw [← hjudge]
  have hmem : ⟨name, .pattern p, kind⟩ ∈ Rule.ofFamily .digit :=
    List.mem_filter.mpr ⟨hrule, rfl⟩
  apply readBefore_of_rule hrule
  · rintro rfl
    exact absurd hkind (by decide)
  · intro rest hrest
    have hle := length_le_of_numeral (c :: tail) hrest _ hmem
    refine Nat.le_antisymm hle ?_
    obtain ⟨n, hn, hlength⟩ :=
      (Pattern.exact_numeral hp).exists_length hword (List.prefix_append _ rest)
    unfold Rule.length
    rw [Shape.length, hn]
    exact hlength
  · intro rest hrest
    exact length_le_of_numeral _ hrest

/-! ## String literals -/

theorem length_le_of_quotes {text : List Char} {n : Nat} (hblock : blockLength text ≤ n)
    (hline : lineLength text ≤ n) : ∀ other ∈ Rule.ofFamily .quote, other.length text ≤ n := by
  intro other hother
  rw [Rule.ofFamily_quote] at hother
  simp only [List.mem_cons, List.not_mem_nil, or_false] at hother
  rcases hother with rfl | rfl
  · exact hblock
  · exact hline

theorem readBefore_lineLiteral {quote : Char} {body : List Char} (hquote : isQuote quote)
    (h : LineBody quote body) :
    (⟨.string, quote :: body ++ [quote], none⟩ : Lexeme).ReadBefore
      [.blank, .lineEnd, .comment, .word, .digit, .sign] := by
  have hrule : (⟨"string", .lineLiteral, .string⟩ : Rule) ∈ Rule.table := by simp [Rule.table]
  have hjudge : judge .string quote (body ++ [quote]) =
      ⟨.string, quote :: body ++ [quote], none⟩ := by
    rw [judge, h.literalFault?_append hquote]
    rfl
  have hrow : ∀ rest, quote :: (body ++ [quote]) ++ rest = quote :: body ++ quote :: rest := by simp
  have hlength : ∀ rest, lineLength (quote :: (body ++ [quote]) ++ rest) =
      (quote :: (body ++ [quote])).length := by
    intro rest
    rw [hrow]
    exact h.lineLength_append hquote rest
  rw [← hjudge]
  apply readBefore_of_rule hrule (by decide)
  · intro rest _
    exact hlength rest
  · intro rest hrest
    have hnone : quote ∉ rest.head? :=
      fun hmem => hrest.false hmem (ofChar_quote hquote) (by decide)
    apply length_le_of_quotes
    · rw [hrow, h.blockLength_append hquote hnone]
      exact Nat.zero_le _
    · exact (hlength rest).le

theorem readBefore_blockLiteral {quote : Char} {body : List Char} (hquote : isQuote quote)
    (h : BlockBody quote body) :
    (⟨.string, quote :: quote :: quote :: body, none⟩ : Lexeme).ReadBefore Family.all := by
  have hrule : (⟨"triple_string", .blockLiteral, .string⟩ : Rule) ∈ Rule.table := by
    simp [Rule.table]
  have hjudge : judge .string quote (quote :: quote :: body) =
      ⟨.string, quote :: quote :: quote :: body, none⟩ := by
    rw [judge, h.literalFault?_append hquote]
  have hlength : ∀ rest, blockLength (quote :: quote :: quote :: body ++ rest) =
      (quote :: quote :: quote :: body).length := fun rest => h.blockLength_append hquote rest
  rw [← hjudge]
  apply readBefore_of_rule hrule (by decide)
  · intro rest _
    exact hlength rest
  · intro rest _
    have hne : blockLength (quote :: quote :: quote :: body ++ rest) ≠ 0 := by
      rw [hlength]
      exact Nat.succ_ne_zero _
    have hless := Rule.lineLength_lt_blockLength hne
    rw [hlength] at hless
    exact length_le_of_quotes (hlength rest).le hless.le

end Lexeme

/-! ## Values -/

def Pattern.integers : List Pattern :=
  [binaryInteger, octalInteger, hexInteger, digits]

def Pattern.floats : List Pattern :=
  [pointFloat, exponentFloat]

theorem exists_rule_of_integer {p : Pattern} (h : p ∈ Pattern.integers) :
    ∃ name, ⟨name, .pattern p, .integer⟩ ∈ Rule.table := by
  simp only [Pattern.integers, List.mem_cons, List.not_mem_nil, or_false] at h
  rcases h with rfl | rfl | rfl | rfl
  · exact ⟨"integer_binary", by simp [Rule.table]⟩
  · exact ⟨"integer_octal", by simp [Rule.table]⟩
  · exact ⟨"integer_hex", by simp [Rule.table]⟩
  · exact ⟨"integer_decimal", by simp [Rule.table]⟩

theorem exists_rule_of_float {p : Pattern} (h : p ∈ Pattern.floats) :
    ∃ name, ⟨name, .pattern p, .float⟩ ∈ Rule.table := by
  simp only [Pattern.floats, List.mem_cons, List.not_mem_nil, or_false] at h
  rcases h with rfl | rfl
  · exact ⟨"float_decimal", by simp [Rule.table]⟩
  · exact ⟨"float_exponent", by simp [Rule.table]⟩

/-- The texts that may stand as a value, each with the kind of leaf that it makes. -/
inductive ValueText : List Char → NodeKind → Prop
  | name {word : List Char} (h : identifierFault? (String.ofList word) = none) :
      ValueText word .identifier
  | boolean {word : List Char} (h : String.ofList word ∈ booleanWords) :
      ValueText word .booleanLiteral
  | none {word : List Char} (h : String.ofList word ∈ noneWords) : ValueText word .noneLiteral
  | integer {p : Pattern} {digits : List Char} (hp : p ∈ Pattern.integers)
      (h : digits ∈ p.language) : ValueText digits .integerLiteral
  | float {p : Pattern} {digits : List Char} (hp : p ∈ Pattern.floats)
      (h : digits ∈ p.language) : ValueText digits .floatLiteral
  | lineLiteral {quote : Char} {body : List Char} (hquote : isQuote quote)
      (h : LineBody quote body) : ValueText (quote :: body ++ [quote]) .stringLiteral
  | blockLiteral {quote : Char} {body : List Char} (hquote : isQuote quote)
      (h : BlockBody quote body) : ValueText (quote :: quote :: quote :: body) .stringLiteral

theorem faultless_name {word : List Char} (h : identifierFault? (String.ofList word) = none) :
    isName word ∧ String.ofList word ∉ reservedWords := by
  unfold identifierFault? at h
  split_ifs at h with hdigit hreserved hname
  rw [String.toList_ofList] at hname
  exact ⟨hname, hreserved⟩

theorem not_operator_of_faultless {word : List Char}
    (h : identifierFault? (String.ofList word) = none) :
    ∀ rule ∈ Rule.table, word ∉ rule.words := by
  have hall : ∀ group ∈ Rule.table.map Rule.words, ∀ w ∈ group,
      String.ofList w ∈ reservedWords := by decide
  intro rule hrule hmem
  exact (faultless_name h).2 (hall _ (List.mem_map_of_mem hrule) word hmem)

theorem classifyWord_of_faultless {word : String} (h : word ∉ reservedWords) :
    classifyWord word = .identifier := by
  simp only [reservedWords, List.mem_append, not_or] at h
  unfold classifyWord
  rw [if_neg h.1.1, if_neg h.1.2, if_neg h.2]

theorem readBefore_name {word : List Char} (h : identifierFault? (String.ofList word) = none) :
    (⟨.identifier, word, none⟩ : Lexeme).ReadBefore
      [.blank, .lineEnd, .comment, .quote, .sign] := by
  obtain ⟨hname, hreserved⟩ := faultless_name h
  have hread := Lexeme.readBefore_word hname (not_operator_of_faultless h)
  rw [classifyWord_of_faultless hreserved] at hread
  exact hread

/-- Words that are literals are words like names, and none is an operator. -/
theorem literal_word {word : List Char} (h : String.ofList word ∈ booleanWords ++ noneWords) :
    isName word ∧ ∀ rule ∈ Rule.table, word ∉ rule.words := by
  have hall : ∀ w ∈ booleanWords ++ noneWords, isName w.toList ∧
      ∀ group ∈ Rule.table.map Rule.words, w.toList ∉ group := by decide
  obtain ⟨hname, hgroups⟩ := hall _ h
  rw [String.toList_ofList] at hname hgroups
  exact ⟨hname, fun rule hrule => hgroups _ (List.mem_map_of_mem hrule)⟩

theorem starts_name {word : List Char} (h : isName word) : Starts [.word] word := by
  cases word with
  | nil => cases h
  | cons c tail =>
    have hstart : isWordStart c := (Bool.and_eq_true_iff.mp h).1
    exact ⟨c, tail, rfl, by simp [ofChar_word hstart]⟩

theorem starts_numeral {p : Pattern} {digits : List Char} (hp : p ∈ Pattern.numerals)
    (h : digits ∈ p.language) : Starts [.digit] digits := by
  obtain ⟨c, tail, rfl, hdigit⟩ := Pattern.exists_digit_of_mem hp h
  exact ⟨c, tail, rfl, by simp [ofChar_digit hdigit]⟩

theorem starts_quote {quote : Char} (h : isQuote quote) (rest : List Char) :
    Starts [.quote] (quote :: rest) :=
  ⟨quote, rest, rfl, by simp [ofChar_quote h]⟩

theorem starts_operator {operator : List Char} (h : operator ∈ Rule.assignmentOperators) :
    Starts [.sign] operator := by
  have hall : ∀ operator ∈ Rule.assignmentOperators, operator ≠ [] ∧
      operator.head?.all (fun c => Family.ofChar c ∈ [.sign]) := by decide
  obtain ⟨hne, hfamily⟩ := hall operator h
  obtain ⟨c, tail, rfl⟩ := List.exists_cons_of_ne_nil hne
  exact ⟨c, tail, rfl, of_decide_eq_true hfamily⟩

namespace ValueText

variable {text : List Char} {kind : NodeKind}

/-- A value starts as a word, a numeral or a string literal does. -/
theorem starts (h : ValueText text kind) : Starts [.quote, .word, .digit] text := by
  cases h with
  | name h => exact (starts_name (faultless_name h).1).mono (by simp)
  | boolean h =>
    exact (starts_name (literal_word (List.mem_append_left _ h)).1).mono (by simp)
  | none h => exact (starts_name (literal_word (List.mem_append_right _ h)).1).mono (by simp)
  | integer hp h =>
    obtain ⟨name, hrule⟩ := exists_rule_of_integer hp
    exact (starts_numeral (Rule.mem_numerals hrule rfl) h).mono (by simp)
  | float hp h =>
    obtain ⟨name, hrule⟩ := exists_rule_of_float hp
    exact (starts_numeral (Rule.mem_numerals hrule rfl) h).mono (by simp)
  | lineLiteral hquote _ => exact (starts_quote hquote _).mono (by simp)
  | blockLiteral hquote _ => exact (starts_quote hquote _).mono (by simp)

/-- A value at the end of its line is read as one lexeme, of the kind that makes its leaf. -/
theorem exists_lexeme (h : ValueText text kind) : ∃ token : TokenKind,
    token.leafKind? = some kind ∧
      (⟨token, text, .none⟩ : Lexeme).ReadBefore [.blank, .lineEnd, .comment] ∧
      (token = .identifier → identifierFault? (String.ofList text) = .none) := by
  cases h with
  | name h => exact ⟨.identifier, rfl, (readBefore_name h).mono (by decide), fun _ => h⟩
  | boolean h =>
    obtain ⟨hname, hoperator⟩ := literal_word (List.mem_append_left noneWords h)
    have hread := Lexeme.readBefore_word hname hoperator
    rw [classifyWord, if_pos h] at hread
    exact ⟨.boolean, rfl, hread.mono (by decide), nofun⟩
  | none h =>
    obtain ⟨hname, hoperator⟩ := literal_word (List.mem_append_right booleanWords h)
    have hread := Lexeme.readBefore_word hname hoperator
    have hboolean : String.ofList text ∉ booleanWords := by
      have hapart : ∀ w ∈ noneWords, w ∉ booleanWords := by decide
      exact hapart _ h
    rw [classifyWord, if_neg hboolean, if_pos h] at hread
    exact ⟨.none, rfl, hread.mono (by decide), nofun⟩
  | integer hp h =>
    obtain ⟨name, hrule⟩ := exists_rule_of_integer hp
    exact ⟨.integer, rfl, Lexeme.readBefore_numeral hrule (by decide) h, nofun⟩
  | float hp h =>
    obtain ⟨name, hrule⟩ := exists_rule_of_float hp
    exact ⟨.float, rfl, Lexeme.readBefore_numeral hrule (by decide) h, nofun⟩
  | lineLiteral hquote h =>
    exact ⟨.string, rfl, (Lexeme.readBefore_lineLiteral hquote h).mono (by decide), nofun⟩
  | blockLiteral hquote h =>
    exact ⟨.string, rfl, (Lexeme.readBefore_blockLiteral hquote h).mono (by decide), nofun⟩

end ValueText

end Assay
