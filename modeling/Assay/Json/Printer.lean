-- JSON as text: every item and field on a line of its own, two blanks of
-- indentation for each level, and ASCII characters only.
import Assay.Json.Basic
import Assay.Text.Quoted

namespace Assay

namespace Json

/-! ## Strings -/

/-- The four-digit escape of a UTF-16 unit. -/
def unitEscape (unit : Nat) : List Char :=
  '\\' :: 'u' :: hexDigits 4 unit

/-- A character as it stands in a string. Beyond ASCII's visible part it is escaped by its
UTF-16 units. -/
def stringChar (c : Char) : List Char :=
  if c = '"' ∨ c = '\\' then ['\\', c]
  else if c = '\n' then ['\\', 'n']
  else if c = '\r' then ['\\', 'r']
  else if c = '\t' then ['\\', 't']
  else if c = '\x08' then ['\\', 'b']
  else if c = '\x0c' then ['\\', 'f']
  else if 32 ≤ c.toNat ∧ c.toNat < 127 then [c]
  else if c.toNat < 0x10000 then unitEscape c.toNat
  else
    let high := 0xD800 + (c.toNat - 0x10000) / 0x400
    let low := 0xDC00 + (c.toNat - 0x10000) % 0x400
    unitEscape high ++ unitEscape low

def stringText (s : String) : String :=
  "\"" ++ String.ofList (s.toList.flatMap stringChar) ++ "\""

/-! ## Numbers -/

/-- A decimal fraction with all its places. -/
def numberText (mantissa : Int) (places : Nat) : String :=
  if places = 0 then toString mantissa
  else
    let sign := if mantissa < 0 then "-" else ""
    let digits := toString mantissa.natAbs
    let padded := String.ofList (List.replicate (places + 1 - digits.length) '0') ++ digits
    let whole := padded.length - places
    sign ++ String.ofList (padded.toList.take whole) ++ "."
      ++ String.ofList (padded.toList.drop whole)

/-! ## Values -/

/-- The line break before an item at a depth. -/
def lineBreak (depth : Nat) : String :=
  "\n" ++ String.ofList (List.replicate (2 * depth) ' ')

/-- Items between an opening and a closing mark, each on a line of its own. -/
def block (opening closing : String) (depth : Nat) (items : List String) : String :=
  if items.isEmpty then opening ++ closing
  else
    opening ++ lineBreak (depth + 1) ++ ("," ++ lineBreak (depth + 1)).intercalate items
      ++ lineBreak depth ++ closing

mutual

/-- The text of a value that stands at a depth. -/
def render (depth : Nat) : Json → String
  | null => "null"
  | bool b => if b then "true" else "false"
  | number mantissa places => numberText mantissa places
  | string s => stringText s
  | array items => block "[" "]" depth (renderItems (depth + 1) items)
  | object fields => block "\x7b" "\x7d" depth (renderFields (depth + 1) fields)

def renderItems (depth : Nat) : List Json → List String
  | [] => []
  | item :: rest => render depth item :: renderItems depth rest

def renderFields (depth : Nat) : List (String × Json) → List String
  | [] => []
  | (name, value) :: rest =>
    (stringText name ++ ": " ++ render depth value) :: renderFields depth rest

end

end Json

end Assay
