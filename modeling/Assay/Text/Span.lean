-- Sets of code points, written as ranges.
namespace Assay

/-- A range of code points, both ends included. -/
abbrev Span := Nat × Nat

/-- Whether some range of the list holds the code point. -/
def Span.cover (spans : List Span) (n : Nat) : Bool :=
  spans.any (fun span => span.1 ≤ n && n ≤ span.2)

end Assay
