-- Trees as outlines: one node a line, children indented under their parent.
import Assay.Node.Basic

namespace Assay

namespace Node

/-- The indentation at a depth: two blanks for each step, none below depth zero. -/
def indentation (depth : Int) : String :=
  String.ofList (List.replicate (2 * depth.toNat) ' ')

/-- The line of a node without its children: kind, quoted value if there is one, place of the
token if there is one. -/
def heading (kind : NodeKind) (value : Option String) (token : Option Token) : String :=
  kind.tag
    ++ (match value with
        | some text => " " ++ quoted text
        | none => "")
    ++ (match token with
        | some token => " @" ++ token.position.render
        | none => "")

mutual

/-- The lines of a tree whose root has the given depth, parents before children. -/
def outlineLines (depth : Int) : Node → List String
  | ⟨kind, value, children, token⟩ =>
    (indentation depth ++ heading kind value token) :: outlineLinesAll (depth + 1) children

/-- The lines of some trees, one tree after the other. -/
def outlineLinesAll (depth : Int) : List Node → List String
  | [] => []
  | node :: rest => outlineLines depth node ++ outlineLinesAll depth rest

end

/-- The outline of a tree whose root has the given depth. -/
def outline (node : Node) (depth : Int) : String :=
  "\n".intercalate (node.outlineLines depth)

end Node

end Assay
