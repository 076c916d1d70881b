-- Trees: nodes of any kind with an optional value, children in order, and
-- the token they come from. A node that the parser makes is a leaf, an
-- assignment or a program.
import Assay.Token.Basic

namespace Assay

/-- A node of a tree. Leaves keep the text of their token as it is. -/
structure Node where
  kind : NodeKind
  value : Option String
  children : List Node
  token : Option Token

namespace Node

/-- The leaf that the token makes, if its kind makes one. -/
def leaf? (token : Token) : Option Node :=
  token.kind.leafKind?.map (fun kind => ⟨kind, some token.value, [], some token⟩)

/-- The assignment of a value to the name that the token holds. -/
def assignment (name : Token) (value : Node) : Node :=
  ⟨.assignment, some name.value, [value], some name⟩

/-- The root over some statements. -/
def program (statements : List Node) : Node :=
  ⟨.program, none, statements, none⟩

end Node

end Assay
