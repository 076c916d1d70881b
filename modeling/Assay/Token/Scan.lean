-- Tokens of a text: its lexemes at their places. The raw scan holds every
-- lexeme; the stream for the parser leaves the blanks out and ends with the
-- end mark.
import Assay.Lexeme.Basic
import Assay.Lexeme.Fault
import Assay.Token.Basic

namespace Assay

/-! ## Placing -/

/-- A lexeme as a token at a place. -/
def Lexeme.toToken (lexeme : Lexeme) (position : Position) : Token :=
  ⟨lexeme.kind, String.ofList lexeme.text, position, lexeme.fault.map LexicalFault.problem⟩

/-- Lexemes as tokens, the first at the given place and each where the one before it ends. -/
def Lexeme.place (position : Position) : List Lexeme → List Token
  | [] => []
  | lexeme :: rest => lexeme.toToken position :: place (position.past lexeme.text) rest

/-! ## Streams -/

/-- Every token of the text, blanks included and without the end mark. -/
def scan (source : String) : List Token :=
  Lexeme.place .start (Lexeme.split source.toList)

/-- The place just past the text. -/
def endOf (source : String) : Position :=
  Position.start.past source.toList

/-- The tokens of a text, the end mark last, and the error tokens among them. -/
structure TokenStream where
  tokens : List Token
  errors : List Token
  deriving DecidableEq, Repr

/-- The tokens of the text for the parser. -/
def tokenize (source : String) : TokenStream :=
  let all := scan source
  { tokens := all.filter (fun token => token.kind ≠ .whitespace) ++ [Token.endMark (endOf source)]
    errors := all.filter (fun token => token.kind = .error) }

end Assay
