-- Comments among the lexemes. A comment reaches to the end of its line, and what
-- stands before it is read as if the line ended there. So the text without its
-- comments falls into the other lexemes.
import Assay.Proofs.ScanLines

namespace Assay

/-! ## Comments among the lexemes -/

/-- Every carriage return stands before a line feed. -/
def ReturnsPaired (text : List Char) : Prop :=
  ∀ i, text[i]? = some '\r' → text[i + 1]? = some '\n'

theorem ReturnsPaired.drop {text : List Char} (h : ReturnsPaired text) (n : Nat) :
    ReturnsPaired (text.drop n) := by
  intro i hi
  rw [List.getElem?_drop] at hi ⊢
  exact h (n + i) hi

/-- No carriage return stands before another character than a line feed. -/
theorem ReturnsPaired.getLast?_ne {front rest : List Char} {c : Char}
    (h : ReturnsPaired (front ++ c :: rest)) (hc : c ≠ '\n') : front.getLast? ≠ some '\r' := by
  intro hlast
  obtain ⟨before, rfl⟩ := List.getLast?_eq_some_iff.mp hlast
  have hnext := h before.length (by simp)
  exact hc (by simpa using hnext)

namespace Lexeme

/-- A number sign opens a comment, which reaches to the end of its line. -/
theorem exists_first_comment (rest : List Char) :
    ∃ body after, rest = body ++ after ∧ (∀ c ∈ body, ¬ isLineEnd c) ∧
      (∀ c ∈ after.head?, isLineEnd c) ∧ first '#' rest = ⟨.comment, '#' :: body, none⟩ := by
  have hbody : ∀ c ∈ rest.takeWhile (fun c => !isLineEnd c), ¬ isLineEnd c := by
    intro c hc
    simpa using List.all_eq_true.mp List.all_takeWhile c hc
  have hafter : ∀ c ∈ (rest.dropWhile (fun c => !isLineEnd c)).head?, isLineEnd c := by
    intro c hc
    have hhead := List.head?_dropWhile_not (fun c => !isLineEnd c) rest
    rw [Option.mem_def.mp hc] at hhead
    simpa using hhead
  have hopens : Opens [.lineEnd] (rest.dropWhile (fun c => !isLineEnd c)) := by
    intro c hc
    rw [ofChar_lineEnd (hafter c hc)]
    exact List.mem_singleton_self _
  have hread := readBefore_comment hbody _ hopens
  simp only [List.cons_append, List.takeWhile_append_dropWhile] at hread
  rw [split_cons] at hread
  exact ⟨_, _, List.takeWhile_append_dropWhile.symm, hbody, hafter, (List.cons.inj hread).1⟩

theorem judge_kind_ne_comment {kind : TokenKind} (h : kind ≠ .comment) (c : Char)
    (rest : List Char) : (judge kind c rest).kind ≠ .comment := by
  have hword : classifyWord (String.ofList (c :: rest)) ≠ .comment := by
    unfold classifyWord
    split_ifs <;> decide
  unfold judge
  split
  · split <;> simp
  · exact hword
  · exact h

/-- Nothing but a number sign opens a comment. -/
theorem first_kind_ne_comment {c : Char} (hc : c ≠ '#') (rest : List Char) :
    (first c rest).kind ≠ .comment := by
  have hcomments : ∀ rule ∈ Rule.table, rule.kind = .comment → rule.shape.family = .comment := by
    decide
  rcases first_cases c rest with ⟨rule, hrule, hlength, hfirst⟩ | hstray
  · rw [hfirst]
    apply judge_kind_ne_comment
    intro hkind
    have hfamily := Rule.ofChar_of_length hrule hlength
    rw [hcomments rule hrule hkind] at hfamily
    exact hc (eq_of_ofChar_comment hfamily)
  · rw [hstray]
    simp

/-- Lexemes among which each comment ends its line: a line break comes after it, or nothing. -/
inductive CommentsEndLines : List Lexeme → Prop
  | nil : CommentsEndLines []
  | plain {lexeme : Lexeme} {rest : List Lexeme} (hkind : lexeme.kind ≠ .comment)
      (h : CommentsEndLines rest) : CommentsEndLines (lexeme :: rest)
  | last {body : List Char} (hbody : ∀ c ∈ body, ¬ isLineEnd c) :
      CommentsEndLines [⟨.comment, '#' :: body, none⟩]
  | comment {body mark : List Char} {rest : List Lexeme} (hbody : ∀ c ∈ body, ¬ isLineEnd c)
      (hmark : mark ∈ [['\n'], ['\r', '\n']]) (h : CommentsEndLines rest) :
      CommentsEndLines (⟨.comment, '#' :: body, none⟩ :: ⟨.newline, mark, none⟩ :: rest)

theorem CommentsEndLines.tail {lexeme : Lexeme} {rest : List Lexeme}
    (hkind : lexeme.kind ≠ .comment) (h : CommentsEndLines (lexeme :: rest)) :
    CommentsEndLines rest := by
  cases h with
  | plain _ h => exact h
  | last _ => exact absurd rfl hkind
  | comment _ _ _ => exact absurd rfl hkind

/-- Where carriage returns stand before line feeds, each line end of a text is a lexeme. -/
theorem exists_split_lineEnd {c : Char} {rest : List Char} (hc : isLineEnd c)
    (h : ReturnsPaired (c :: rest)) :
    ∃ mark ∈ [['\n'], ['\r', '\n']], ∃ after,
      split (c :: rest) = ⟨.newline, mark, none⟩ :: split after := by
  have hread : ∀ mark ∈ [['\n'], ['\r', '\n']], ∀ after,
      split (mark ++ after) = ⟨.newline, mark, none⟩ :: split after :=
    fun mark hmark after => readBefore_lineBreak hmark after (opens_all after)
  rcases lineEnd_cases hc with rfl | rfl
  · have hnext := h 0 rfl
    cases rest with
    | nil => cases hnext
    | cons d rest =>
      cases hnext
      exact ⟨['\r', '\n'], by decide, rest, hread ['\r', '\n'] (by decide) rest⟩
  · exact ⟨['\n'], by decide, rest, hread ['\n'] (by decide) rest⟩

theorem commentsEndLines_split {text : List Char} (h : ReturnsPaired text) :
    CommentsEndLines (split text) := by
  fun_induction split text with
  | case1 => exact .nil
  | case2 c rest lexeme ih =>
    have hpaired : ReturnsPaired (rest.drop (lexeme.text.length - 1)) :=
      h.drop (lexeme.text.length - 1 + 1)
    have hrest := ih hpaired
    by_cases hc : c = '#'
    · subst hc
      obtain ⟨body, after, rfl, hbody, hafter, hlexeme⟩ := exists_first_comment rest
      have hdrop : (body ++ after).drop (lexeme.text.length - 1) = after := by
        show (body ++ after).drop ((first '#' (body ++ after)).text.length - 1) = after
        rw [hlexeme, List.length_cons, Nat.add_sub_cancel, List.drop_left]
      show CommentsEndLines (first '#' (body ++ after) :: _)
      rw [hdrop] at hpaired hrest ⊢
      rw [hlexeme]
      cases after with
      | nil =>
        rw [split_nil]
        exact .last hbody
      | cons d after =>
        obtain ⟨mark, hmark, more, hsplit⟩ := exists_split_lineEnd (hafter d rfl) hpaired
        rw [hsplit] at hrest ⊢
        exact .comment hbody hmark (hrest.tail (by simp))
    · exact .plain (first_kind_ne_comment hc rest) hrest

/-! ## The text without its comments -/

/-- The lexemes that are no comments. -/
def uncommented (lexemes : List Lexeme) : List Lexeme :=
  lexemes.filter (fun lexeme => lexeme.kind ≠ .comment)

/-- The text and the text without comments are the same up to the first comment, and where that
stood the other text has the end of a line. -/
theorem CommentsEndLines.exists_front {lexemes : List Lexeme} (h : CommentsEndLines lexemes) :
    ∃ front rest other, lexemes.flatMap text = front ++ rest ∧
      (uncommented lexemes).flatMap text = front ++ other ∧
      (rest = other ∨ (∃ more, rest = '#' :: more) ∧ ∀ c ∈ other.head?, isLineEnd c) := by
  unfold uncommented
  induction h with
  | nil => exact ⟨[], [], [], rfl, rfl, Or.inl rfl⟩
  | @plain lexeme lexemes hkind _ ih =>
    obtain ⟨front, rest, other, hrest, hother, hsame⟩ := ih
    refine ⟨lexeme.text ++ front, rest, other, ?_, ?_, hsame⟩
    · rw [List.flatMap_cons, hrest, List.append_assoc]
    · rw [List.filter_cons_of_pos (by simpa using hkind), List.flatMap_cons, hother,
        List.append_assoc]
  | @last body _ => exact ⟨[], '#' :: body, [], by simp, rfl, Or.inr ⟨⟨body, rfl⟩, by simp⟩⟩
  | @comment body mark lexemes _ hmark _ _ =>
    refine ⟨[], _, _, rfl, rfl, Or.inr ⟨⟨_, rfl⟩, ?_⟩⟩
    simp only [List.mem_cons, List.not_mem_nil, or_false] at hmark
    rcases hmark with rfl | rfl <;> simp [isLineEnd]

/-- A lexeme that is over before the next comment is read as it would be at the end of the text. -/
theorem first_append_comment {c : Char} {front more : List Char}
    (hreturn : (c :: front).getLast? ≠ some '\r')
    (hle : (first c (front ++ '#' :: more)).text.length ≤ (c :: front).length) :
    first c (front ++ '#' :: more) = first c front ∧ ¬ OpenBlock (c :: front) := by
  have hopens : Opens [.lineEnd, .comment] ('#' :: more) := opens_cons (by decide) more
  have hlength : ∀ rule ∈ Rule.table,
      rule.length (c :: front ++ '#' :: more) ≤ (c :: front).length :=
    fun rule hrule => (Rule.length_le_first hrule c _).trans hle
  have hblock : (⟨"triple_string", .blockLiteral, .string⟩ : Rule) ∈ Rule.table := by
    simp [Rule.table]
  exact ⟨first_append_of_length fun rule hrule =>
      Rule.length_append_of_le hrule (List.cons_ne_nil c front) hreturn hopens
        (hlength rule hrule),
    not_openBlock_of_le (List.cons_ne_nil '#' more) (hlength _ hblock)⟩

theorem exists_first_tail (c : Char) (rest : List Char) :
    ∃ tail after, rest = tail ++ after ∧ (first c rest).text = c :: tail ∧
      rest.drop ((first c rest).text.length - 1) = after := by
  obtain ⟨n, hn⟩ := first_text c rest
  have happend := first_text_append c rest
  rw [hn] at happend ⊢
  exact ⟨rest.take n, _, (List.cons.inj happend).2.symm, rfl, rfl⟩

/-- The text without comments falls into the lexemes that are no comments. -/
theorem split_uncommented {text : List Char} (h : ReturnsPaired text) :
    split ((uncommented (split text)).flatMap Lexeme.text) = uncommented (split text) := by
  fun_induction split text with
  | case1 =>
    show split [] = []
    rw [split_nil]
  | case2 c rest lexeme ih =>
    obtain ⟨tail, after, hrow, htext, hdrop⟩ : ∃ tail after, rest = tail ++ after ∧
        lexeme.text = c :: tail ∧ rest.drop (lexeme.text.length - 1) = after :=
      exists_first_tail c rest
    have hpaired : ReturnsPaired after := hdrop ▸ h.drop (lexeme.text.length - 1 + 1)
    rw [hdrop] at ih ⊢
    have hafter := ih hpaired
    unfold uncommented at hafter ⊢
    by_cases hcomment : lexeme.kind = .comment
    · rw [List.filter_cons_of_neg (by simpa using hcomment)]
      exact hafter
    · obtain ⟨front, more, other, hmore, hother, hsame⟩ :=
        (commentsEndLines_split hpaired).exists_front
      rw [flatMap_text_split] at hmore
      unfold uncommented at hother
      have hfirst : first c (tail ++ front ++ other) = lexeme := by
        rw [hmore, ← List.append_assoc] at hrow
        rcases hsame with rfl | ⟨⟨body, rfl⟩, hend⟩
        · rw [← hrow]
        · -- What stands before the comment is all that the lexeme sees in either text.
          have hlexeme : first c (tail ++ front ++ '#' :: body) = lexeme := by rw [← hrow]
          have hreturn : (c :: (tail ++ front)).getLast? ≠ some '\r' := by
            rw [hrow, ← List.cons_append] at h
            exact h.getLast?_ne (by decide)
          have hle : lexeme.text.length ≤ (c :: (tail ++ front)).length := by
            rw [htext, ← List.cons_append, List.length_append]
            exact Nat.le_add_right _ _
          obtain ⟨hbefore, hopen⟩ := first_append_comment hreturn (hlexeme ▸ hle)
          rw [first_append_lineEnd hreturn hopen hend, ← hbefore, hlexeme]
      rw [List.filter_cons_of_pos (by simpa using hcomment), List.flatMap_cons, htext, hother,
        List.cons_append, ← List.append_assoc, split_cons, hfirst, htext, List.length_cons,
        Nat.add_sub_cancel, List.append_assoc, List.drop_left, ← hother, hafter]

end Lexeme

end Assay
