-- Lexemes: the pieces that a text falls into, each with its kind and, where
-- it is malformed, the fault. Places do not matter here: what a lexeme is
-- depends on the rest of the text alone.
import Assay.Lexeme.Quotation
import Assay.Lexeme.Rule

namespace Assay

/-- A piece of text. Faulty pieces have the kind `error`. -/
structure Lexeme where
  kind : TokenKind
  text : List Char
  fault : Option LexicalFault
  deriving DecidableEq, Repr

namespace Lexeme

/-! ## One lexeme -/

/-- The lexeme that a rule of the given kind makes of the text `c :: rest`: string literals are
judged, names are told from words with a meaning. -/
def judge (kind : TokenKind) (c : Char) (rest : List Char) : Lexeme :=
  match kind with
  | .string =>
    match literalFault? c rest with
    | some fault => ⟨.error, c :: rest, some fault⟩
    | none => ⟨.string, c :: rest, none⟩
  | .identifier => ⟨classifyWord (String.ofList (c :: rest)), c :: rest, none⟩
  | kind => ⟨kind, c :: rest, none⟩

/-- The lexeme at the front of the text `c :: rest`. Where no rule takes anything, the first
character alone is a faulty one. -/
def first (c : Char) (rest : List Char) : Lexeme :=
  match Rule.first? (c :: rest) with
  | some (rule, n) => judge rule.kind c (rest.take (n - 1))
  | none => ⟨.error, [c], some (.strayCharacter c)⟩

/-! ## All lexemes -/

/-- The lexemes of the text, blanks included. -/
def split : List Char → List Lexeme
  | [] => []
  | c :: rest =>
    let lexeme := first c rest
    lexeme :: split (rest.drop (lexeme.text.length - 1))
  termination_by text => text.length
  decreasing_by
    simp only [List.length_drop, List.length_cons]
    omega

/-! ## The lexemes make up the text -/

theorem judge_text (kind : TokenKind) (c : Char) (rest : List Char) :
    (judge kind c rest).text = c :: rest := by
  unfold judge
  split
  · split
    · rfl
    · rfl
  · rfl
  · rfl

/-- The first lexeme is a front part of the text, and holds at least one character. -/
theorem first_text (c : Char) (rest : List Char) :
    ∃ n, (first c rest).text = c :: rest.take n := by
  unfold first
  split
  · rename_i rule n _
    exact ⟨n - 1, judge_text rule.kind c (rest.take (n - 1))⟩
  · exact ⟨0, rfl⟩

theorem split_nil : split [] = [] := by
  unfold split
  rfl

theorem split_cons (c : Char) (rest : List Char) :
    split (c :: rest) =
      first c rest :: split (rest.drop ((first c rest).text.length - 1)) := by
  rw [split]

/-- The first lexeme and what is left after it are the text. -/
theorem first_text_append (c : Char) (rest : List Char) :
    (first c rest).text ++ rest.drop ((first c rest).text.length - 1) = c :: rest := by
  obtain ⟨n, hn⟩ := first_text c rest
  rw [hn, List.cons_append, List.length_cons, Nat.add_sub_cancel, List.length_take]
  rcases Nat.le_total n rest.length with h | h
  · rw [Nat.min_eq_left h, List.take_append_drop]
  · rw [Nat.min_eq_right h, List.take_of_length_le h, List.drop_length, List.append_nil]

/-- One after the other, the lexemes are the text. -/
theorem flatMap_text_split (text : List Char) : (split text).flatMap Lexeme.text = text := by
  fun_induction split text with
  | case1 => rfl
  | case2 c rest lexeme ih =>
    rw [List.flatMap_cons, ih]
    exact first_text_append c rest

end Lexeme

end Assay
