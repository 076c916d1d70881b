-- Places in a text: line and column, both counted from one, as a reader
-- moves through the characters.
namespace Assay

/-- A place in a text. Columns count characters. Places of tokens that no text produced may be
any two numbers. -/
structure Position where
  line : Int
  column : Int
  deriving DecidableEq, Repr

namespace Position

/-- The place of the first character. -/
def start : Position := ⟨1, 1⟩

/-- The place after one character: a line feed starts a line, everything else, a carriage return
included, takes one column. -/
def step (p : Position) (c : Char) : Position :=
  if c = '\n' then ⟨p.line + 1, 1⟩ else ⟨p.line, p.column + 1⟩

/-- The place after some characters. -/
def past (p : Position) (text : List Char) : Position :=
  text.foldl step p

/-- The place written as `line:column`. -/
def render (p : Position) : String :=
  s!"{p.line}:{p.column}"

@[simp] theorem past_nil (p : Position) : p.past [] = p := rfl

@[simp] theorem past_cons (p : Position) (c : Char) (text : List Char) :
    p.past (c :: text) = (p.step c).past text := rfl

theorem past_append (p : Position) (a b : List Char) : p.past (a ++ b) = (p.past a).past b :=
  List.foldl_append

end Position

end Assay
