-- What is wrong and how to mend it, in words: the part that lexical faults,
-- identifier faults and syntax faults have in common.
namespace Assay

/-- A finding without its place: a code for machines, a message and a way to mend it. -/
structure Problem where
  code : String
  message : String
  suggestion : String
  deriving DecidableEq, Repr

/-- The suggestion for a finding that has none of its own. -/
def defaultSuggestion : String := "Check the syntax at this position"

end Assay
