-- The wording of lexical faults.
import Assay.Lexeme.Quotation
import Assay.Problem
import Assay.Text.Quoted

namespace Assay

namespace LexicalFault

def code : LexicalFault → String
  | strayCharacter _ => "L001"
  | openBlock _ => "L002"
  | openLine => "L002"
  | unknownEscape _ => "L003"

/-- The message of a fault. A stray character is shown quoted, an escaped one as it is. -/
def message : LexicalFault → String
  | strayCharacter c => "Unrecognized character: " ++ String.ofList (quotedChars [c])
  | openBlock _ => "Unterminated string: triple-quoted string is never closed"
  | openLine => "Unterminated string: string is not closed on the same line"
  | unknownEscape c => "Invalid escape sequence: \\" ++ String.ofList [c]

def suggestion : LexicalFault → String
  | strayCharacter _ =>
    "Valid characters are letters, digits, operators (+, -, *, /, ...) and symbols"
  | openBlock quote => "Close the string with " ++ String.ofList [quote, quote, quote]
  | openLine => "Close the string with the same quote character used to open it"
  | unknownEscape _ =>
    "Valid escape sequences are \\\", \\', \\\\, \\n, \\t, \\r, \\b, \\f, \\v and \\0"

def problem (fault : LexicalFault) : Problem :=
  ⟨fault.code, fault.message, fault.suggestion⟩

end LexicalFault

/-! ## Judging a text as a literal -/

/-- Why a text cannot be judged as a string literal at all. -/
inductive LiteralError where
  /-- The text has no first character that could be its quote. -/
  | noQuote
  deriving DecidableEq, Repr

/-- What is wrong with a text when it is taken for a string literal, whatever its first
character is. -/
def literalProblem? (text : String) : Except LiteralError (Option Problem) :=
  match text.toList with
  | [] => .error .noQuote
  | first :: rest => .ok ((literalFault? first rest).map LexicalFault.problem)

end Assay
