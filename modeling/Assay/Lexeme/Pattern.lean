-- Patterns of characters, as the numerals need them, and the length of what
-- a pattern takes from the front of a text.
import Assay.Text.Digit

namespace Assay

/-! ## Patterns -/

/-- A pattern: one character of a class, one or more of a class, two patterns in a row, or a
pattern that may be absent. -/
inductive Pattern where
  | one (member : Char → Bool)
  | many (member : Char → Bool)
  | seq (first second : Pattern)
  | optional (part : Pattern)

namespace Pattern

/-- The length that the pattern takes from the front of the text, if it takes any: as many
characters as possible at each part, without a second try. -/
def length? : Pattern → List Char → Option Nat
  | one _, [] => none
  | one member, c :: _ => if member c then some 1 else none
  | many member, text =>
    let run := text.takeWhile member
    if run.isEmpty then none else some run.length
  | seq first second, text =>
    (first.length? text).bind fun n => (second.length? (text.drop n)).map (n + ·)
  | optional part, text => some ((part.length? text).getD 0)

/-! ## Numerals -/

def oneOf (chars : List Char) : Pattern := one (fun c => c ∈ chars)

/-- Decimal digits of any script. -/
def digits : Pattern := many isDecimalDigit

/-- A power of ten, with or without a sign. -/
def exponent : Pattern :=
  seq (oneOf ['e', 'E']) (seq (optional (oneOf ['-', '+'])) digits)

/-- Digits, a point and digits, with or without a power of ten. -/
def pointFloat : Pattern :=
  seq digits (seq (oneOf ['.']) (seq digits (optional exponent)))

def exponentFloat : Pattern := seq digits exponent

/-- A zero, a letter that names the radix, and digits of that radix. -/
def radixInteger (letters : List Char) (digit : Char → Bool) : Pattern :=
  seq (oneOf ['0']) (seq (oneOf letters) (many digit))

def binaryInteger : Pattern := radixInteger ['b', 'B'] (fun c => c = '0' || c = '1')

def octalInteger : Pattern := radixInteger ['o', 'O'] (fun c => '0' ≤ c && c ≤ '7')

def hexInteger : Pattern :=
  radixInteger ['x', 'X']
    (fun c => c.isDigit || ('a' ≤ c && c ≤ 'f') || ('A' ≤ c && c ≤ 'F'))

end Pattern

end Assay
