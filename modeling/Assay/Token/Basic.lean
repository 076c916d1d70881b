-- Tokens: a kind, the text it stands for, a place, and for a malformed span
-- the reason.
import Assay.Position
import Assay.Problem
import Assay.Text.Quoted
import Assay.Token.Kind

namespace Assay

/-- A token at its place. Error tokens of the lexer, and only they, carry a problem. -/
structure Token where
  kind : TokenKind
  value : String
  position : Position
  error : Option Problem
  deriving DecidableEq, Repr

namespace Token

/-- The mark that ends a stream at the given place. -/
def endMark (position : Position) : Token :=
  ⟨.endMark, "EOF", position, none⟩

/-- A token on one line: its kind, its quoted value and its place. Line breaks and the end mark
are shown without a value. -/
def render (token : Token) : String :=
  if token.kind = .newline ∨ token.kind = .endMark then
    s!"Token({token.kind.tag}, {token.position.render})"
  else
    s!"Token({token.kind.tag}, {quoted token.value}, {token.position.render})"

end Token

end Assay
