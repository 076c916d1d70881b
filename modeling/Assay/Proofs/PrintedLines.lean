-- Texts as lines. A text that is put together from lines falls into just these
-- lines again, if none of them holds a line feed. Numbers, places, quotations and
-- tags hold none, so a tree is printed with a line for each of its nodes.
import Mathlib.Data.List.Forall2
import Assay.Node.Outline
import Assay.Proofs.Quoting
import Assay.Proofs.Tracing

namespace Assay

/-! ## Texts on one line -/

/-- The text holds no line feed. -/
def OneLine (text : String) : Prop := '\n' ∉ text.toList

instance (text : String) : Decidable (OneLine text) :=
  inferInstanceAs (Decidable ('\n' ∉ text.toList))

@[simp] theorem oneLine_append {text other : String} :
    OneLine (text ++ other) ↔ OneLine text ∧ OneLine other := by
  rw [OneLine, String.toList_append, List.mem_append, not_or]
  rfl

theorem oneLine_ofList {text : List Char} (h : '\n' ∉ text) : OneLine (String.ofList text) := by
  rw [OneLine, String.toList_ofList]
  exact h

@[simp] theorem oneLine_quoted (text : String) : OneLine (quoted text) :=
  oneLine_ofList (newline_not_mem_quotedChars text.toList)

theorem isDigit_of_mem_repr {n : Nat} {c : Char} (h : c ∈ n.repr.toList) : c.isDigit := by
  rw [Nat.toList_repr] at h
  exact Nat.isDigit_of_mem_toDigits (by decide) (by decide) h

/-- A number is written with digits, and a sign in front. -/
theorem digit_of_mem_repr {n : Int} {c : Char} (h : c ∈ n.repr.toList) : c.isDigit ∨ c = '-' := by
  rw [Int.repr_eq_if] at h
  split at h
  · exact Or.inl (isDigit_of_mem_repr h)
  · rw [String.toList_append, List.mem_append] at h
    rcases h with hsign | hdigit
    · exact Or.inr (List.mem_singleton.mp hsign)
    · exact Or.inl (isDigit_of_mem_repr hdigit)

@[simp] theorem oneLine_nat (n : Nat) : OneLine (toString n) := by
  intro h
  exact absurd (isDigit_of_mem_repr h) (by decide)

@[simp] theorem oneLine_int (n : Int) : OneLine (toString n) := by
  rw [Int.toString_eq_repr]
  intro h
  rcases digit_of_mem_repr h with hdigit | hsign
  · exact absurd hdigit (by decide)
  · exact absurd hsign (by decide)

@[simp] theorem Position.oneLine_render (p : Position) : OneLine p.render := by
  have hcolon : OneLine (toString ":") := by decide
  simp only [render, oneLine_append]
  exact ⟨⟨oneLine_int p.line, hcolon⟩, oneLine_int p.column⟩

@[simp] theorem TokenKind.oneLine_tag (kind : TokenKind) : OneLine kind.tag := by
  cases kind <;> decide

@[simp] theorem NodeKind.oneLine_tag (kind : NodeKind) : OneLine kind.tag := by
  cases kind <;> decide

/-! ## Texts cut into lines -/

/-- The lines of a text, cut at each line feed, the last one being what stands after the last line
feed. -/
def splitLines (text : String) : List String :=
  (text.toList.splitOn '\n').map String.ofList

/-- Lines that are joined by line feeds are cut apart again. -/
theorem splitLines_intercalate {lines : List String} (hlines : ∀ line ∈ lines, OneLine line)
    (hne : lines ≠ []) : splitLines ("\n".intercalate lines) = lines := by
  have hrows : ∀ row ∈ lines.map String.toList, '\n' ∉ row := by
    intro row hrow
    obtain ⟨line, hline, rfl⟩ := List.mem_map.mp hrow
    exact hlines line hline
  have hfeed : "\n".toList = ['\n'] := rfl
  rw [splitLines, String.toList_intercalate, hfeed,
    List.splitOn_intercalate '\n' hrows (by simpa using hne), List.map_map]
  simp

/-! ## Trees on lines -/

namespace Node

/-- The line shows the node: it is the heading of the node, indented to some depth. -/
def ShownBy (line : String) (node : Node) : Prop :=
  ∃ depth, line = indentation depth ++ heading node.kind node.value node.token

theorem oneLine_indentation (depth : Int) : OneLine (indentation depth) := by
  refine oneLine_ofList ?_
  intro h
  exact absurd (List.eq_of_mem_replicate h) (by decide)

theorem oneLine_heading (kind : NodeKind) (value : Option String) (token : Option Token) :
    OneLine (heading kind value token) := by
  have hblank : OneLine " " := by decide
  have hmark : OneLine " @" := by decide
  have hempty : OneLine "" := by decide
  unfold heading
  simp only [oneLine_append, NodeKind.oneLine_tag, true_and]
  constructor
  · cases value with
    | none => exact hempty
    | some text => exact oneLine_append.mpr ⟨hblank, oneLine_quoted text⟩
  · cases token with
    | none => exact hempty
    | some token => exact oneLine_append.mpr ⟨hmark, token.position.oneLine_render⟩

theorem ShownBy.oneLine {line : String} {node : Node} (h : ShownBy line node) : OneLine line := by
  obtain ⟨depth, rfl⟩ := h
  exact oneLine_append.mpr ⟨oneLine_indentation depth, oneLine_heading _ _ _⟩

mutual

/-- Each line of an outline shows the node whose turn it is. -/
theorem outlineLines_shown (depth : Int) :
    (node : Node) → List.Forall₂ ShownBy (outlineLines depth node) (preorder node)
  | ⟨kind, value, children, token⟩ => by
    rw [outlineLines, preorder]
    exact .cons ⟨depth, rfl⟩ (outlineLinesAll_shown (depth + 1) children)

theorem outlineLinesAll_shown (depth : Int) :
    (nodes : List Node) → List.Forall₂ ShownBy (outlineLinesAll depth nodes) (preorderAll nodes)
  | [] => .nil
  | node :: rest => by
    rw [outlineLinesAll, preorderAll]
    exact List.rel_append (outlineLines_shown depth node) (outlineLinesAll_shown depth rest)

end

theorem oneLine_of_mem_outlineLines {depth : Int} {node : Node} {line : String}
    (h : line ∈ outlineLines depth node) : OneLine line := by
  have hshown : List.Forall₂ (fun line node => OneLine line ∧ ShownBy line node)
      (outlineLines depth node) (preorder node) :=
    (outlineLines_shown depth node).imp fun _ _ hline => ⟨hline.oneLine, hline⟩
  exact ((List.forall₂_and_left (outlineLines depth node) (preorder node)).mp hshown).1 line h

theorem outlineLines_ne_nil (depth : Int) (node : Node) : outlineLines depth node ≠ [] := by
  cases node
  rw [outlineLines]
  exact List.cons_ne_nil _ _

/-- An outline falls into its lines. -/
theorem splitLines_outline (node : Node) (depth : Int) :
    splitLines (node.outline depth) = outlineLines depth node :=
  splitLines_intercalate (fun _ => oneLine_of_mem_outlineLines) (outlineLines_ne_nil depth node)

end Node

end Assay
