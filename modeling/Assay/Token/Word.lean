-- Words with a meaning of their own, and the kind of token that a word makes.
import Assay.Token.Kind

namespace Assay

/-! ## Reserved words -/

def booleanWords : List String := ["True", "False"]

def noneWords : List String := ["None"]

def keywords : List String :=
  ["and", "as", "assert", "async", "await", "break", "class", "continue",
   "def", "del", "elif", "else", "except", "finally", "for", "from",
   "global", "if", "import", "in", "is", "lambda", "nonlocal", "not", "or",
   "pass", "raise", "return", "try", "while", "with", "yield"]

/-- The words that cannot be names. -/
def reservedWords : List String := booleanWords ++ noneWords ++ keywords

/-- The kind of token that a whole word makes. -/
def classifyWord (word : String) : TokenKind :=
  if word ∈ booleanWords then .boolean
  else if word ∈ noneWords then .none
  else if word ∈ keywords then .keyword
  else .identifier

/-! ## Characters of words -/

/-- A character that may stand in a word: an ASCII letter or digit, or the underscore. -/
def isWordChar (c : Char) : Bool :=
  c = '_' || c.isAlphanum

/-- A character that may start a word: an ASCII letter or the underscore. -/
def isWordStart (c : Char) : Bool :=
  c = '_' || c.isAlpha

end Assay
