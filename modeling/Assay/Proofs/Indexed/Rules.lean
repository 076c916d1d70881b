-- The rules at an index of a text. What a rule takes there is no more than what
-- is left, and it is what the rule takes at the front of the text that is left.
-- So neither a rule nor a step of the lexer sees anything it has passed.
import Assay.Proofs.Indexed.Scan

namespace Assay

namespace Indexed

/-! ## Patterns at an index -/

/-- Where a pattern ends that starts at an index, if it takes anything there. -/
def patternEnd : Pattern → List Char → Nat → Option (Option Nat)
  | .one member, text, i => do
    if ← holdsAt member text i then some (some (i + 1)) else some none
  | .many member, text, i => do
    if ← holdsAt member text i then
      let stop ← runEnd member text (i + 1)
      some (some stop)
    else some none
  | .seq first second, text, i => do
    match ← patternEnd first text i with
    | some middle => patternEnd second text middle
    | none => some none
  | .optional part, text, i => do
    match ← patternEnd part text i with
    | some stop => some (some stop)
    | none => some (some i)

section Patterns

variable {text rest : List Char} {i : Nat}

/-- A run of members is not empty just if its first character is one. -/
theorem patternEnd_many (member : Char → Bool) (h : text.drop i = rest) :
    patternEnd (.many member) text i =
      some (((Pattern.many member).length? rest).map (i + ·)) := by
  rw [patternEnd, holdsAt_eq member h, Option.bind_eq_bind, Option.bind_some, Pattern.length?]
  cases rest with
  | nil => rfl
  | cons c rest =>
    obtain ⟨-, -, hnext⟩ := of_drop_cons h
    rw [List.head?_cons, Option.any_some]
    by_cases hmember : member c
    · rw [if_pos hmember, runEnd_eq member hnext, Option.bind_eq_bind, Option.bind_some,
        List.takeWhile_cons_of_pos hmember]
      simp only [List.isEmpty_cons, Bool.false_eq_true, if_false, List.length_cons, Option.map_some]
      congr 2
      omega
    · rw [if_neg hmember, List.takeWhile_cons_of_neg hmember]
      rfl

/-- The walk of a pattern has a result, and it is the length that the pattern takes. -/
theorem patternEnd_eq (p : Pattern) (h : text.drop i = rest) :
    patternEnd p text i = some ((p.length? rest).map (i + ·)) := by
  induction p generalizing i rest with
  | one member =>
    rw [patternEnd, holdsAt_eq member h, Option.bind_eq_bind, Option.bind_some]
    cases rest with
    | nil => rfl
    | cons c rest =>
      rw [List.head?_cons, Option.any_some, Pattern.length?]
      split
      · rfl
      · rfl
  | many member => exact patternEnd_many member h
  | seq first second ihfirst ihsecond =>
    rw [patternEnd, ihfirst h, Option.bind_eq_bind, Option.bind_some, Pattern.length?]
    cases first.length? rest with
    | none => rfl
    | some n =>
      have hmiddle : text.drop (i + n) = rest.drop n := by rw [← h, List.drop_drop]
      simp only [Option.map_some, Option.bind_some, ihsecond hmiddle, Option.map_map]
      congr 2
      funext m
      exact Nat.add_assoc i n m
  | optional part ih =>
    rw [patternEnd, ih h, Option.bind_eq_bind, Option.bind_some, Pattern.length?]
    cases part.length? rest with
    | none => rfl
    | some n => rfl

end Patterns

/-! ## Rules at an index -/

/-- The number of characters that a rule takes from an index on. Patterns are walked by index as
all other shapes are. -/
def ruleLength (rule : Rule) (text : List Char) (start : Nat) : Option Nat :=
  match rule.shape with
  | .pattern p => do
    match ← patternEnd p text start with
    | some stop => Nat.psub stop start
    | none => some 0
  | shape => shapeLength shape text start

theorem ruleLength_eq (rule : Rule) {text rest : List Char} {i : Nat} (h : text.drop i = rest) :
    ruleLength rule text i = some (rule.length rest) := by
  unfold ruleLength Rule.length
  split
  · rename_i p hshape
    rw [patternEnd_eq p h, Option.bind_eq_bind, Option.bind_some, hshape, Shape.length]
    cases p.length? rest with
    | none => rfl
    | some n => exact psub_add_left i n
  · exact shapeLength_eq rule.shape h

/-! ## Steps at an index -/

/-- Where no text is left, there is no step. -/
theorem nextToken_past {text : List Char} {cursor : Cursor} (h : text.drop cursor.offset = []) :
    nextToken text cursor = none := by
  have hrule : firstRule text cursor.offset Rule.table = some none := by
    rw [firstRule_eq h]
    exact congrArg some (Rule.first?_of_none fun rule _ => rule.length_nil)
  have hchar : text[cursor.offset]? = none :=
    List.getElem?_eq_none (length_le_of_drop_nil h)
  unfold nextToken lexemeAt
  rw [hrule, hchar]
  rfl

/-- The cursor as it stands in a text that has some more characters in front. -/
def Cursor.shift (cursor : Cursor) (offset : Nat) : Cursor :=
  { cursor with offset := offset + cursor.offset }

/-- A step reads the same token whether the text before the cursor is there or not. -/
theorem nextToken_drop (text : List Char) (start : Nat) (place : Position) (errors : List Token) :
    nextToken text ⟨start, place, errors⟩ =
      (nextToken (text.drop start) ⟨0, place, errors⟩).map
        (fun step => (step.1, step.2.shift start)) := by
  have hoffset : text.drop (Cursor.mk start place errors).offset = text.drop start := rfl
  cases hrest : text.drop start with
  | nil =>
    have hfront : [].drop (Cursor.mk 0 place errors).offset = ([] : List Char) := rfl
    rw [nextToken_past (hoffset.trans hrest), nextToken_past hfront]
    rfl
  | cons c rest =>
    have hfront : (c :: rest).drop (Cursor.mk 0 place errors).offset = c :: rest := rfl
    rw [nextToken_eq (hoffset.trans hrest), nextToken_eq hfront, Option.map_some, Cursor.shift,
      Nat.zero_add]

end Indexed

/-! ## The law -/

open Indexed in
/-- A rule sees only the text ahead. At any index of any text, also past its end, every rule takes
a number of characters, so that no walk ends before the index it starts at, and it takes no more
than there are left; it takes as many from the text that is left, read from its front. So does a
step of the lexer: with the text before it cut off, it reads the same token and leaves the same
cursor, but for the characters that were cut off.

The rules that matter are those of the table, whose patterns never take an empty text. The law
holds of every rule that the shapes allow: where a pattern may take an empty text, it takes one
past the end of the text too, at the index it was given. -/
theorem a_rule_sees_only_the_text_ahead (source : String) (start : Nat) :
    (∀ rule : Rule, ∃ n, ruleLength rule source.toList start = some n ∧
      rule.lengthAt source start = n ∧ n ≤ source.length - start ∧
      ruleLength rule (source.toList.drop start) 0 = some n) ∧
    ∀ (place : Position) (errors : List Token),
      nextToken source.toList ⟨start, place, errors⟩ =
        (nextToken (source.toList.drop start) ⟨0, place, errors⟩).map
          (fun step => (step.1, step.2.shift start)) := by
  refine ⟨fun rule => ?_, nextToken_drop source.toList start⟩
  have hbound : rule.lengthAt source start ≤ source.length - start := by
    rw [← String.length_toList, ← List.length_drop]
    exact rule.length_le (source.toList.drop start)
  exact ⟨rule.lengthAt source start, ruleLength_eq rule rfl, rfl, hbound,
    ruleLength_eq rule List.drop_zero⟩

end Assay
