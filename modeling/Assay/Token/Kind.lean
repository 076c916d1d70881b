-- The kinds of tokens and of tree nodes, with the tags under which clients
-- know them.
namespace Assay

/-! ## Token kinds -/

/-- Every kind of token. White space stands in the raw scan only, and the end mark is the last
token of a stream. -/
inductive TokenKind where
  | keyword
  | identifier
  | integer
  | float
  | string
  | boolean
  | none
  | arithmeticOperator
  | assignmentOperator
  | comparisonOperator
  | logicalOperator
  | bitwiseOperator
  | membershipOperator
  | identityOperator
  | leftParen
  | rightParen
  | leftBracket
  | rightBracket
  | leftBrace
  | rightBrace
  | comma
  | colon
  | semicolon
  | dot
  | arrow
  | newline
  | comment
  | whitespace
  | error
  | endMark
  deriving DecidableEq, Repr

namespace TokenKind

/-- All kinds: words, literals, operators, punctuation, layout, and the two special ones. -/
def all : List TokenKind :=
  [keyword, identifier, integer, float, string, boolean, none,
   arithmeticOperator, assignmentOperator, comparisonOperator, logicalOperator,
   bitwiseOperator, membershipOperator, identityOperator,
   leftParen, rightParen, leftBracket, rightBracket, leftBrace, rightBrace,
   comma, colon, semicolon, dot, arrow,
   newline, comment, whitespace, error, endMark]

def tag : TokenKind → String
  | keyword => "KEYWORD"
  | identifier => "IDENTIFIER"
  | integer => "INTEGER"
  | float => "FLOAT"
  | string => "STRING"
  | boolean => "BOOLEAN"
  | none => "NONE"
  | arithmeticOperator => "ARITHMETIC_OPERATOR"
  | assignmentOperator => "ASSIGNMENT_OPERATOR"
  | comparisonOperator => "COMPARISON_OPERATOR"
  | logicalOperator => "LOGICAL_OPERATOR"
  | bitwiseOperator => "BITWISE_OPERATOR"
  | membershipOperator => "MEMBERSHIP_OPERATOR"
  | identityOperator => "IDENTITY_OPERATOR"
  | leftParen => "LPAREN"
  | rightParen => "RPAREN"
  | leftBracket => "LBRACKET"
  | rightBracket => "RBRACKET"
  | leftBrace => "LBRACE"
  | rightBrace => "RBRACE"
  | comma => "COMMA"
  | colon => "COLON"
  | semicolon => "SEMICOLON"
  | dot => "DOT"
  | arrow => "ARROW"
  | newline => "NEWLINE"
  | comment => "COMMENT"
  | whitespace => "WHITESPACE"
  | error => "ERROR"
  | endMark => "EOF"

def ofTag? (tag : String) : Option TokenKind :=
  all.find? (fun kind => kind.tag = tag)

/-- The kinds that no statement is made of: blanks and comments. -/
def isTrivia (kind : TokenKind) : Bool :=
  kind = whitespace || kind = comment

end TokenKind

/-! ## Node kinds -/

inductive NodeKind where
  | program
  | assignment
  | identifier
  | integerLiteral
  | floatLiteral
  | stringLiteral
  | booleanLiteral
  | noneLiteral
  deriving DecidableEq, Repr

namespace NodeKind

/-- All kinds: the root, the statement with parts, and the leaves. -/
def all : List NodeKind :=
  [program, assignment, identifier, integerLiteral, floatLiteral, stringLiteral, booleanLiteral,
   noneLiteral]

def tag : NodeKind → String
  | program => "Program"
  | assignment => "Assignment"
  | identifier => "Identifier"
  | integerLiteral => "IntegerLiteral"
  | floatLiteral => "FloatLiteral"
  | stringLiteral => "StringLiteral"
  | booleanLiteral => "BooleanLiteral"
  | noneLiteral => "NoneLiteral"

def ofTag? (tag : String) : Option NodeKind :=
  all.find? (fun kind => kind.tag = tag)

end NodeKind

/-! ## Leaves -/

namespace TokenKind

/-- The kind of leaf that a token of this kind makes in a tree. -/
def leafKind? : TokenKind → Option NodeKind
  | identifier => some .identifier
  | integer => some .integerLiteral
  | float => some .floatLiteral
  | string => some .stringLiteral
  | boolean => some .booleanLiteral
  | none => some .noneLiteral
  | _ => .none

/-- The kinds that may stand as a whole expression: names and literals. -/
def isLiteral (kind : TokenKind) : Bool :=
  kind.leafKind?.isSome

theorem ne_of_isLiteral {kind other : TokenKind} (h : kind.isLiteral) (hother : ¬ other.isLiteral) :
    kind ≠ other := by
  rintro rfl
  exact hother h

theorem ne_of_not_isLiteral {kind other : TokenKind} (h : ¬ kind.isLiteral)
    (hother : other.isLiteral) : kind ≠ other :=
  (ne_of_isLiteral hother h).symm

end TokenKind

end Assay
