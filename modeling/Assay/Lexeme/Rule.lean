-- The table of lexical rules. The rules are tried in the order of the table
-- and the first that takes anything decides, so the order is part of the
-- language: what is longer stands before what it starts with.
import Assay.Lexeme.Pattern
import Assay.Lexeme.Quotation
import Assay.Token.Kind
import Assay.Token.Word

namespace Assay

/-! ## Shapes -/

/-- What a rule looks for at the front of the text. -/
inductive Shape where
  | blanks
  /-- A line feed, alone or after a carriage return. -/
  | lineBreak
  /-- A number sign and the rest of its line. -/
  | comment
  /-- A string literal between three quotes, closed or not. -/
  | blockLiteral
  /-- A string literal on one line, closed or not. -/
  | lineLiteral
  | pattern (p : Pattern)
  | spelling (spellings : List (List Char))
  /-- The longest of some words that ends where the word in the text ends. -/
  | wholeWord (words : List (List Char))
  | word

/-- The length of the longest text of the list, zero for none. -/
def longest (texts : List (List Char)) : Nat :=
  (texts.map List.length).foldr max 0

def continuesWord (text : List Char) : Bool :=
  text.head?.any isWordChar

/-- The number of characters that the shape takes from the front of the text. -/
def Shape.length : Shape → List Char → Nat
  | blanks, text => (text.takeWhile (fun c => c = ' ' || c = '\t')).length
  | lineBreak, text =>
    if ['\r', '\n'].isPrefixOf text then 2 else if ['\n'].isPrefixOf text then 1 else 0
  | comment, text =>
    if ['#'].isPrefixOf text then (text.takeWhile (fun c => !isLineEnd c)).length else 0
  | blockLiteral, text => blockLength text
  | lineLiteral, text => lineLength text
  | pattern p, text => (p.length? text).getD 0
  | spelling spellings, text => longest (spellings.filter (fun s => s.isPrefixOf text))
  | wholeWord words, text =>
    longest (words.filter (fun w => w.isPrefixOf text && !continuesWord (text.drop w.length)))
  | word, text =>
    match text with
    | c :: rest => if isWordStart c then 1 + (rest.takeWhile isWordChar).length else 0
    | [] => 0

/-! ## The table -/

/-- A rule: its name, what it looks for, and the kind of token it makes. -/
structure Rule where
  name : String
  shape : Shape
  kind : TokenKind

namespace Rule

/-- The number of characters that the rule takes from the front of the text. -/
def length (rule : Rule) (text : List Char) : Nat :=
  rule.shape.length text

/-- The operators that compute and assign. -/
def compoundAssignments : List (List Char) :=
  [['*', '*', '='], ['/', '/', '='], ['<', '<', '='], ['>', '>', '='], ['+', '='], ['-', '='],
   ['*', '='], ['/', '='], ['%', '='], ['&', '='], ['|', '='], ['^', '=']]

/-- The rules in the order in which they are tried. -/
def table : List Rule :=
  [⟨"whitespace", .blanks, .whitespace⟩,
   ⟨"newline", .lineBreak, .newline⟩,
   ⟨"comment", .comment, .comment⟩,
   ⟨"triple_string", .blockLiteral, .string⟩,
   ⟨"string", .lineLiteral, .string⟩,
   ⟨"float_decimal", .pattern .pointFloat, .float⟩,
   ⟨"float_exponent", .pattern .exponentFloat, .float⟩,
   ⟨"integer_binary", .pattern .binaryInteger, .integer⟩,
   ⟨"integer_octal", .pattern .octalInteger, .integer⟩,
   ⟨"integer_hex", .pattern .hexInteger, .integer⟩,
   ⟨"integer_decimal", .pattern .digits, .integer⟩,
   ⟨"compound_assignment", .spelling compoundAssignments, .assignmentOperator⟩,
   ⟨"arrow", .spelling [['-', '>']], .arrow⟩,
   ⟨"arithmetic", .spelling [['*', '*'], ['/', '/'], ['+'], ['-'], ['*'], ['%']],
    .arithmeticOperator⟩,
   ⟨"bitwise", .spelling [['<', '<'], ['>', '>'], ['&'], ['|'], ['^'], ['~']],
    .bitwiseOperator⟩,
   ⟨"comparison", .spelling [['=', '='], ['!', '='], ['<', '='], ['>', '='], ['<'], ['>']],
    .comparisonOperator⟩,
   ⟨"logical", .wholeWord [['a', 'n', 'd'], ['o', 'r'], ['n', 'o', 't']], .logicalOperator⟩,
   ⟨"identity", .wholeWord [['i', 's']], .identityOperator⟩,
   ⟨"membership", .wholeWord [['i', 'n']], .membershipOperator⟩,
   ⟨"assignment", .spelling [['=']], .assignmentOperator⟩,
   ⟨"division", .spelling [['/']], .arithmeticOperator⟩,
   ⟨"lparen", .spelling [['(']], .leftParen⟩,
   ⟨"rparen", .spelling [[')']], .rightParen⟩,
   ⟨"lbracket", .spelling [['[']], .leftBracket⟩,
   ⟨"rbracket", .spelling [[']']], .rightBracket⟩,
   ⟨"lbrace", .spelling [['{']], .leftBrace⟩,
   ⟨"rbrace", .spelling [['}']], .rightBrace⟩,
   ⟨"comma", .spelling [[',']], .comma⟩,
   ⟨"colon", .spelling [[':']], .colon⟩,
   ⟨"semicolon", .spelling [[';']], .semicolon⟩,
   ⟨"dot", .spelling [['.']], .dot⟩,
   ⟨"identifier", .word, .identifier⟩]

/-- The rule with the given name. -/
def ofName? (name : String) : Option Rule :=
  table.find? (fun rule => rule.name = name)

/-- The number of characters that the rule takes from an offset of the text on. Past the end of
the text there is nothing to take. -/
def lengthAt (rule : Rule) (source : String) (offset : Nat) : Nat :=
  rule.length (source.toList.drop offset)

/-- The rules that take something from an offset of the text on, with the number of
characters. -/
def hitsAt (source : String) (offset : Nat) : List (Rule × Nat) :=
  (table.map (fun rule => (rule, rule.lengthAt source offset))).filter (fun hit => hit.2 ≠ 0)

/-- The first rule of the table that takes something, with the number of characters. -/
def first? (text : List Char) : Option (Rule × Nat) :=
  table.findSome? (fun rule =>
    let n := rule.length text
    if n = 0 then none else some (rule, n))

end Rule

end Assay
