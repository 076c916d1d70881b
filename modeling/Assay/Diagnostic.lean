-- Findings at their tokens, from the lexer and from the parser alike, and
-- the wording of syntax faults.
import Assay.Identifier
import Assay.Token.Basic

namespace Assay

/-! ## Findings -/

/-- A problem, the token it is about and the place of that token. -/
structure Diagnostic where
  problem : Problem
  position : Position
  token : Token
  deriving DecidableEq, Repr

namespace Diagnostic

/-- The finding about a token, at its place. -/
def about (token : Token) (problem : Problem) : Diagnostic :=
  ⟨problem, token.position, token⟩

/-- The finding that an error token carries. A token without a problem of its own counts as a
stray character. -/
def ofErrorToken (token : Token) : Diagnostic :=
  .about token (token.error.getD ⟨"L001", "Unrecognized character", defaultSuggestion⟩)

/-- A finding on one line: place, code and message. -/
def render (d : Diagnostic) : String :=
  s!"{d.position.render}: {d.problem.code} {d.problem.message}"

end Diagnostic

/-! ## Syntax faults -/

/-- Why a token is out of place. -/
inductive SyntaxFault where
  /-- The token is an error token, with its own problem if it has one. -/
  | lexical (detail : Option Problem)
  | misplacedKeyword (word : String)
  | assignedLiteral
  | unexpected (kind : TokenKind) (value : String)
  | missingValue
  /-- The text stands as a name and is none. -/
  | badName (fault : IdentifierFault) (text : String)
  deriving DecidableEq, Repr

def SyntaxFault.problem : SyntaxFault → Problem
  | lexical none =>
    ⟨"P001", "Lexical error: Unrecognized character", "Check the character at this position"⟩
  | lexical (some detail) => ⟨"P001", s!"Lexical error: {detail.message}", detail.suggestion⟩
  | misplacedKeyword word =>
    ⟨"P002", s!"Keyword '{word}' used incorrectly in this context",
     "Keywords cannot be used as identifiers or start a statement here"⟩
  | assignedLiteral =>
    ⟨"P003", "Cannot assign to a literal", "The left-hand side of = must be a valid identifier"⟩
  | unexpected kind value =>
    ⟨"P004", s!"Expected a declaration or expression, got {kind.tag} {quoted value}",
     defaultSuggestion⟩
  | missingValue =>
    ⟨"P005", "Expected a valid expression",
     "Provide an identifier or a literal (number, string, True, False, None)"⟩
  | badName fault text => fault.problem text

/-- The finding that a token is at fault. -/
def SyntaxFault.about (fault : SyntaxFault) (token : Token) : Diagnostic :=
  .about token fault.problem

end Assay
