-- The scan goes line by line. At a line feed a lexeme is over, unless it is a
-- block literal that no quotes have closed. So the text before a line feed and
-- the text after it are read as if each stood alone, further down on the page.
import Assay.Proofs.LineReach
import Assay.Proofs.Places

namespace Assay

/-! ## Lexemes before a line feed -/

namespace Lexeme

/-- Where no rule sees what follows, the first lexeme is the same. -/
theorem first_append_of_length {c : Char} {tail rest : List Char}
    (h : ∀ rule ∈ Rule.table, rule.length (c :: tail ++ rest) = rule.length (c :: tail)) :
    first c (tail ++ rest) = first c tail := by
  have hfirst : Rule.first? (c :: (tail ++ rest)) = Rule.first? (c :: tail) := Rule.first?_congr h
  unfold first
  rw [hfirst]
  cases hdecide : Rule.first? (c :: tail) with
  | none => rfl
  | some pair =>
    obtain ⟨rule, n⟩ := pair
    obtain ⟨-, hn, -⟩ := Rule.of_first? hdecide
    have hle : n - 1 ≤ tail.length := by
      have hlength := rule.length_le (c :: tail)
      rw [List.length_cons] at hlength
      omega
    simp only [List.take_append_of_le_length hle]

/-- A lexeme is over at the line end that follows, if it is no open block literal and no half of a
line end. -/
theorem first_append_lineEnd {c : Char} {tail rest : List Char}
    (hreturn : (c :: tail).getLast? ≠ some '\r') (hopen : ¬ OpenBlock (c :: tail))
    (h : ∀ d ∈ rest.head?, isLineEnd d) : first c (tail ++ rest) = first c tail :=
  first_append_of_length fun _ hrule =>
    Rule.length_append_of_not_open hrule (List.cons_ne_nil c tail) hreturn h hopen

/-- An open block literal is one lexeme, to the end of the text. -/
theorem split_of_openBlock {text : List Char} (h : OpenBlock text) :
    ∃ lexeme, split text = [lexeme] ∧ lexeme.text = text := by
  have hlength := h.blockLength_eq
  obtain ⟨quote, body, hquote, rfl, -⟩ := h
  have hrule : (⟨"triple_string", .blockLiteral, .string⟩ : Rule) ∈ Rule.table := by
    simp [Rule.table]
  have hless : lineLength (quote :: quote :: quote :: body) <
      blockLength (quote :: quote :: quote :: body) :=
    Rule.lineLength_lt_blockLength (by rw [hlength]; exact Nat.succ_ne_zero _)
  rw [hlength] at hless
  have hsplit : split (quote :: quote :: quote :: body ++ []) =
      judge .string quote (quote :: quote :: body) :: split [] := by
    apply split_of_rule hrule
    · rw [List.append_nil]
      exact hlength
    · rw [List.append_nil]
      exact length_le_of_quotes hlength.le hless.le
    · intro hname
      exact absurd hname (by decide)
  rw [List.append_nil, split_nil] at hsplit
  exact ⟨_, hsplit, judge_text _ _ _⟩

/-- The lexemes of a text and those of the lines after it are together the lexemes of all. -/
theorem split_append_newline (text more : List Char) (hreturn : text.getLast? ≠ some '\r')
    (hclosed : ∀ lexeme ∈ (split text).getLast?, ¬ OpenBlock lexeme.text) :
    split (text ++ '\n' :: more) = split text ++ ⟨.newline, ['\n'], none⟩ :: split more := by
  fun_induction split text with
  | case1 =>
    have hmark : ['\n'] ∈ [['\n'], ['\r', '\n']] := List.mem_cons_self
    exact readBefore_lineBreak hmark more (opens_all more)
  | case2 c rest lexeme ih =>
    have hopen : ¬ OpenBlock (c :: rest) := by
      intro hopen
      obtain ⟨last, hlast, htext⟩ := split_of_openBlock hopen
      rw [split_cons] at hlast
      have hmem : last ∈ (first c rest :: split (rest.drop (lexeme.text.length - 1))).getLast? := by
        rw [hlast]
        rfl
      exact hclosed last hmem (by rw [htext]; exact hopen)
    have hle : lexeme.text.length - 1 ≤ rest.length := by
      obtain ⟨n, hn⟩ := first_text c rest
      have hlength : lexeme.text = c :: rest.take n := hn
      rw [hlength, List.length_cons, List.length_take]
      omega
    have hdrop : (rest.drop (lexeme.text.length - 1)).getLast? ≠ some '\r' := by
      rw [List.getLast?_drop]
      split
      · simp
      · rename_i hlonger
        have hne : rest ≠ [] := by
          rintro rfl
          simp at hlonger
        rw [List.getLast?_cons_of_ne_nil hne] at hreturn
        exact hreturn
    have hrest : ∀ last ∈ (split (rest.drop (lexeme.text.length - 1))).getLast?,
        ¬ OpenBlock last.text := by
      intro last hlast
      apply hclosed
      rw [List.getLast?_cons, Option.mem_def.mp hlast]
      rfl
    rw [List.cons_append, split_cons, first_append_lineEnd hreturn hopen (by simp [isLineEnd]),
      List.drop_append_of_le_length hle, ih hdrop hrest]
    rfl

end Lexeme

/-! ## Further down -/

/-- The place some lines further down, in the same column. -/
def Position.down (lines : Int) (p : Position) : Position :=
  ⟨p.line + lines, p.column⟩

/-- The token some lines further down. -/
def Token.down (lines : Int) (token : Token) : Token :=
  { token with position := token.position.down lines }

theorem Position.down_step (lines : Int) (p : Position) (c : Char) :
    (p.down lines).step c = (p.step c).down lines := by
  unfold step down
  split
  · simp only [Position.mk.injEq, and_true]
    omega
  · rfl

theorem Position.down_past (lines : Int) (p : Position) (text : List Char) :
    (p.down lines).past text = (p.past text).down lines := by
  induction text generalizing p with
  | nil => rfl
  | cons c text ih => rw [past_cons, past_cons, down_step, ih]

/-- Lexemes that start further down stand further down, all by as many lines. -/
theorem Lexeme.place_down (lines : Int) (position : Position) (lexemes : List Lexeme) :
    place (position.down lines) lexemes = (place position lexemes).map (Token.down lines) := by
  induction lexemes generalizing position with
  | nil => rfl
  | cons lexeme rest ih =>
    rw [place, place, List.map_cons, Position.down_past, ih]
    rfl

theorem Lexeme.exists_getLast?_place (position : Position) {lexemes : List Lexeme}
    {lexeme : Lexeme} (h : lexeme ∈ lexemes.getLast?) :
    ∃ start, lexeme.toToken start ∈ (place position lexemes).getLast? := by
  obtain ⟨before, rfl⟩ := List.getLast?_eq_some_iff.mp h
  refine ⟨position.past (before.flatMap Lexeme.text), ?_⟩
  rw [place_append, List.getLast?_append]
  rfl

/-! ## Literals on one line -/

/-- A literal that is judged as one on a line does not start with three quotes. -/
theorem not_openBlock_of_literalFault? {first : Char} {rest : List Char}
    (h : literalFault? first rest = some .openLine) : ¬ OpenBlock (first :: rest) := by
  rintro ⟨quote, body, hquote, hrow, -⟩
  obtain ⟨rfl, rfl⟩ := List.cons.inj hrow
  have hpre : [first, first].isPrefixOf (first :: first :: body) :=
    List.isPrefixOf_iff_prefix.mpr ⟨body, rfl⟩
  unfold literalFault? at h
  rw [if_pos ⟨hquote, hpre⟩] at h
  split at h
  · cases h
  · cases h

theorem Lexeme.not_openBlock_of_openLine {c : Char} {rest : List Char}
    (h : (first c rest).fault = some .openLine) : ¬ OpenBlock (first c rest).text := by
  rcases fault_of_first h with hstray | ⟨-, tail, htext, hfault⟩
  · cases hstray
  · rw [htext]
    exact not_openBlock_of_literalFault? hfault

theorem LexicalFault.eq_openLine_of_problem {fault : LexicalFault}
    (h : fault.problem = LexicalFault.openLine.problem) : fault = .openLine := by
  have hmessages : ¬ "Unterminated string: triple-quoted string is never closed" =
      "Unterminated string: string is not closed on the same line" := by simp
  cases fault with
  | openLine => rfl
  | openBlock quote => exact (hmessages (Problem.mk.inj h).2.1).elim
  | strayCharacter c => exact absurd (congrArg Problem.code h) (by simp [problem, code])
  | unknownEscape c => exact absurd (congrArg Problem.code h) (by simp [problem, code])

theorem not_openBlock_of_mem_scan {source : String} {token : Token} (h : token ∈ scan source)
    (herror : token.error = some LexicalFault.openLine.problem) :
    ¬ OpenBlock token.value.toList := by
  obtain ⟨lexeme, hmem, start, rfl⟩ := Lexeme.exists_of_mem_place h
  obtain ⟨c, rest, rfl⟩ := Lexeme.exists_first_of_mem_split hmem
  obtain ⟨fault, hfault, hproblem⟩ := Option.map_eq_some_iff.mp herror
  rw [LexicalFault.eq_openLine_of_problem hproblem] at hfault
  rw [Lexeme.toToken, String.toList_ofList]
  exact Lexeme.not_openBlock_of_openLine hfault

/-! ## The law -/

/-- The place past a text, one line feed further: as many lines down as there are line feeds. -/
theorem placeAfter_step_newline (text : List Char) :
    (placeAfter text).step '\n' = Position.start.down (1 + text.count '\n') := by
  unfold placeAfter Position.step Position.down Position.start
  simp only [if_pos, Position.mk.injEq, and_true]
  omega

/-- The scan goes line by line. If a text does not end in a carriage return or in a block literal
that is open, then the scan of this text, a line feed and any other text is the scan of the first,
the line break just past it, and the scan of the other as many lines further down as the first
text and the break hold. A literal on one line that is not closed is no open block literal, so it
keeps to its line. -/
theorem the_scan_goes_line_by_line (before after : String)
    (hreturn : before.toList.getLast? ≠ some '\r') :
    ((∀ token ∈ (scan before).getLast?, ¬ OpenBlock token.value.toList) →
      scan (before ++ "\n" ++ after) =
        scan before ++ ⟨.newline, "\n", placeAfter before.toList, none⟩ ::
          (scan after).map (Token.down (1 + before.toList.count '\n'))) ∧
    ∀ token ∈ (scan before).getLast?, token.error = some LexicalFault.openLine.problem →
      ¬ OpenBlock token.value.toList := by
  constructor
  · intro hclosed
    have htext : (before ++ "\n" ++ after).toList = before.toList ++ '\n' :: after.toList := by
      simp [String.toList_append]
    have hlast : ∀ lexeme ∈ (Lexeme.split before.toList).getLast?, ¬ OpenBlock lexeme.text := by
      intro lexeme hlexeme hopen
      obtain ⟨start, htoken⟩ := Lexeme.exists_getLast?_place .start hlexeme
      apply hclosed _ htoken
      rw [Lexeme.toToken, String.toList_ofList]
      exact hopen
    unfold scan
    rw [htext, Lexeme.split_append_newline _ _ hreturn hlast, Lexeme.place_append,
      Lexeme.flatMap_text_split, Lexeme.place, Position.past_cons, Position.past_nil, start_past,
      placeAfter_step_newline, Lexeme.place_down]
    rfl
  · intro token hlast herror
    exact not_openBlock_of_mem_scan (List.mem_of_getLast? hlast) herror

/-- A string without its end, and a backslash as the last character of its line. -/
theorem an_open_string_leaves_the_next_line_alone :
    (scan "s='a\\").getLast? =
        some ⟨.error, "'a\\", ⟨1, 3⟩, some LexicalFault.openLine.problem⟩ ∧
      scan ("s='a\\" ++ "\n" ++ "b'") =
        scan "s='a\\" ++ [⟨.newline, "\n", ⟨1, 6⟩, none⟩, ⟨.identifier, "b", ⟨2, 1⟩, none⟩,
          ⟨.error, "'", ⟨2, 2⟩, some LexicalFault.openLine.problem⟩] := by
  have hlast : (scan "s='a\\").getLast? =
      some ⟨.error, "'a\\", ⟨1, 3⟩, some LexicalFault.openLine.problem⟩ := by
    decide +kernel
  obtain ⟨hscan, hopen⟩ := the_scan_goes_line_by_line "s='a\\" "b'" (by decide)
  refine ⟨hlast, ?_⟩
  rw [hscan]
  · decide +kernel
  · intro token htoken
    apply hopen token htoken
    rw [hlast] at htoken
    cases htoken
    rfl

end Assay
