-- UTF-8 read strictly: a decoder that names the first fault and the bytes it
-- covers, and the reading of line ends.
namespace Assay

/-! ## Faults -/

/-- Why bytes are not UTF-8. -/
inductive Utf8.Reason where
  | badStart
  /-- A byte cannot follow the bytes before it. -/
  | badContinuation
  | endOfData
  deriving DecidableEq, Repr

/-- The first fault of some bytes: where it starts, how many bytes it covers, and the first of
them. -/
structure Utf8.Fault where
  start : Nat
  size : Nat
  byte : UInt8
  reason : Utf8.Reason
  deriving DecidableEq, Repr

namespace Utf8

/-! ## Decoding -/

/-- How a character goes on after its first byte: the payload bits of the first byte, and the
bounds of the bytes that follow. -/
structure Lead where
  bits : Nat
  follow : List (UInt8 × UInt8)

/-- The bounds of a byte that may stand anywhere after the second. -/
def tail : UInt8 × UInt8 := (0x80, 0xBF)

/-- What the first byte announces. Overlong forms, surrogates and numbers above 0x10FFFF are
shut out by the bounds of the second byte. -/
def Lead.of? (byte : UInt8) : Option Lead :=
  let n := byte.toNat
  if byte < 0x80 then some ⟨n, []⟩
  else if byte < 0xC2 then none
  else if byte < 0xE0 then some ⟨n - 0xC0, [tail]⟩
  else if byte = 0xE0 then some ⟨n - 0xE0, [(0xA0, 0xBF), tail]⟩
  else if byte = 0xED then some ⟨n - 0xE0, [(0x80, 0x9F), tail]⟩
  else if byte < 0xF0 then some ⟨n - 0xE0, [tail, tail]⟩
  else if byte = 0xF0 then some ⟨n - 0xF0, [(0x90, 0xBF), tail, tail]⟩
  else if byte < 0xF4 then some ⟨n - 0xF0, [tail, tail, tail]⟩
  else if byte = 0xF4 then some ⟨n - 0xF0, [(0x80, 0x8F), tail, tail]⟩
  else none

/-- The number of leading bytes that lie within their bounds. -/
def fitting : List (UInt8 × UInt8) → List UInt8 → Nat
  | (low, high) :: bounds, byte :: bytes =>
    if low ≤ byte ∧ byte ≤ high then fitting bounds bytes + 1 else 0
  | _, _ => 0

/-- The character made of payload bits and following bytes. -/
def charOf (bits : Nat) (follow : List UInt8) : Char :=
  Char.ofNat (follow.foldl (fun n byte => 64 * n + (byte.toNat - 0x80)) bits)

/-- The characters of the bytes, the first of which has the given position. -/
def decodeFrom (position : Nat) (bytes : List UInt8) : Except Fault (List Char) :=
  match bytes with
  | [] => .ok []
  | byte :: rest =>
    match Lead.of? byte with
    | none => .error ⟨position, 1, byte, .badStart⟩
    | some lead =>
      let fit := fitting lead.follow rest
      if fit = lead.follow.length then
        (decodeFrom (position + 1 + fit) (rest.drop fit)).map (charOf lead.bits (rest.take fit) :: ·)
      else if fit = rest.length then .error ⟨position, 1 + fit, byte, .endOfData⟩
      else .error ⟨position, 1 + fit, byte, .badContinuation⟩
  termination_by bytes.length
  decreasing_by
    simp only [List.length_drop, List.length_cons]
    omega

def decode (bytes : List UInt8) : Except Fault (List Char) :=
  decodeFrom 0 bytes

end Utf8

/-! ## Line ends -/

/-- Every line end of the text, be it `\r\n`, `\r` or `\n`, as `\n`. -/
def unifyLineEnds : List Char → List Char
  | '\r' :: '\n' :: rest => '\n' :: unifyLineEnds rest
  | c :: rest => (if c = '\r' then '\n' else c) :: unifyLineEnds rest
  | [] => []

/-- The text that a file with these bytes holds. A leading byte order mark is part of it. -/
def textOfBytes (bytes : List UInt8) : Except Utf8.Fault String :=
  (Utf8.decode bytes).map (fun chars => String.ofList (unifyLineEnds chars))

end Assay
