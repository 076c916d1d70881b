-- String literals: how far one reaches, closed or not, and what is wrong
-- with it. A backslash and the character after it are read as one unit.
namespace Assay

/-! ## Quotes and line ends -/

/-- The characters that open and close a string literal. -/
def isQuote (c : Char) : Bool :=
  c = '"' || c = '\''

/-- The characters that a string literal on one line never passes. -/
def isLineEnd (c : Char) : Bool :=
  c = '\r' || c = '\n'

/-! ## Reach -/

/-- The reach of a block literal's body: up to and with the first three quotes outside a unit,
or else all of the text. -/
def blockBodyLength (quote : Char) : List Char → Nat
  | [] => 0
  | ['\\'] => 1
  | '\\' :: _ :: rest => 2 + blockBodyLength quote rest
  | c :: rest =>
    if c = quote ∧ [quote, quote].isPrefixOf rest then 3 else 1 + blockBodyLength quote rest

/-- The reach of a literal between three quotes, zero where none starts. -/
def blockLength : List Char → Nat
  | a :: b :: c :: body => if isQuote a ∧ b = a ∧ c = a then 3 + blockBodyLength a body else 0
  | _ => 0

/-- The reach of a one-line literal's body: up to and with the first quote outside a unit, or
else to the end of the line. A unit never takes the line end in. -/
def lineBodyLength (quote : Char) : List Char → Nat
  | [] => 0
  | ['\\'] => 1
  | '\\' :: c :: rest => if isLineEnd c then 1 else 2 + lineBodyLength quote rest
  | c :: rest =>
    if isLineEnd c then 0 else if c = quote then 1 else 1 + lineBodyLength quote rest

/-- The reach of a literal on one line, zero where none starts. -/
def lineLength : List Char → Nat
  | quote :: body => if isQuote quote then 1 + lineBodyLength quote body else 0
  | [] => 0

/-! ## Faults -/

/-- What is wrong with a span of text that is no proper lexeme. -/
inductive LexicalFault where
  | strayCharacter (c : Char)
  /-- A literal between three of these quotes is not closed. -/
  | openBlock (quote : Char)
  | openLine
  /-- This character means nothing after a backslash. -/
  | unknownEscape (c : Char)
  deriving DecidableEq, Repr

/-- The characters that mean something after a backslash. -/
def escapes : List Char := ['"', '\'', '\\', 'n', 't', 'r', 'b', 'f', 'v', '0']

/-- Whether the first quote outside a unit is the last character. -/
def closedBy (quote : Char) : List Char → Bool
  | [] => false
  | ['\\'] => false
  | '\\' :: _ :: rest => closedBy quote rest
  | c :: rest => if c = quote then rest.isEmpty else closedBy quote rest

/-- The first character after a backslash that means nothing there. -/
def unknownEscape? : List Char → Option Char
  | [] => none
  | ['\\'] => none
  | '\\' :: c :: rest => if c ∈ escapes then unknownEscape? rest else some c
  | _ :: rest => unknownEscape? rest

/-- What is wrong with a literal that starts with the character `first`. A block literal is
judged by its length and its last three characters alone; on one line, a missing end counts
before a bad escape. -/
def literalFault? (first : Char) (rest : List Char) : Option LexicalFault :=
  if isQuote first ∧ [first, first].isPrefixOf rest then
    if rest.length < 5 ∨ ¬ [first, first, first].isSuffixOf rest then some (.openBlock first)
    else none
  else if closedBy first rest then (unknownEscape? rest).map .unknownEscape
  else some .openLine

end Assay
