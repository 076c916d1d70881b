-- Names: what a name looks like, and why a text is none. The parser asks
-- this of every name, also of those that no text produced.
import Assay.Problem
import Assay.Text.Digit
import Assay.Token.Word

namespace Assay

/-- Why a text is not a name. -/
inductive IdentifierFault where
  | startsWithDigit
  | reserved
  /-- The text is empty or holds a character that no name holds. -/
  | badCharacter
  deriving DecidableEq, Repr

/-- A word that starts as a name does and goes on with characters of words. -/
def isName : List Char → Bool
  | [] => false
  | c :: rest => isWordStart c && rest.all isWordChar

/-- Why a text is not a name, if it is none: a digit at the front counts before a reserved word,
and that before a bad character. -/
def identifierFault? (text : String) : Option IdentifierFault :=
  if text.toList.head?.any isDigitLike then some .startsWithDigit
  else if text ∈ reservedWords then some .reserved
  else if isName text.toList then none
  else some .badCharacter

/-- A fault of the given text in words. -/
def IdentifierFault.problem (text : String) : IdentifierFault → Problem
  | startsWithDigit =>
    ⟨"P006", s!"Invalid identifier '{text}': identifier cannot start with a digit",
     "Start identifiers with a letter or _"⟩
  | reserved =>
    ⟨"P007", s!"Reserved word used as identifier: '{text}'",
     "Choose a name that is not a Python reserved word"⟩
  | badCharacter =>
    ⟨"P008", s!"Invalid characters in identifier: '{text}'",
     "Use only letters, digits and _ in identifiers"⟩

def identifierProblem? (text : String) : Option Problem :=
  (identifierFault? text).map (IdentifierFault.problem text)

end Assay
