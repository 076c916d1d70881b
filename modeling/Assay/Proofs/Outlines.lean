-- Outlines. An outline tells its tree: the indentation of the lines tells where
-- the children of a node end, and each line tells its node, whatever text the
-- value holds.
import Mathlib
import Assay.Proofs.Numerals
import Assay.Proofs.PrintedLines

namespace Assay

/-! ## Tags and places -/

namespace NodeKind

theorem ofTag?_tag (kind : NodeKind) : ofTag? kind.tag = some kind := by
  cases kind <;> decide

theorem isAlpha_of_mem_tag {kind : NodeKind} {c : Char} (h : c ∈ kind.tag.toList) :
    c.isAlpha := by
  have hall : kind.tag.toList.all Char.isAlpha := by cases kind <;> rfl
  exact List.all_eq_true.mp hall c h

/-- A tag is told by its letters, if none comes after it. -/
theorem tag_append_inj {kind other : NodeKind} {after after' : List Char}
    (hafter : ∀ c ∈ after.head?, ¬ c.isAlpha) (hafter' : ∀ c ∈ after'.head?, ¬ c.isAlpha)
    (h : kind.tag.toList ++ after = other.tag.toList ++ after') :
    kind = other ∧ after = after' := by
  have hletters := congrArg (List.takeWhile Char.isAlpha) h
  rw [takeWhile_append_stop (fun c => isAlpha_of_mem_tag) hafter,
    takeWhile_append_stop (fun c => isAlpha_of_mem_tag) hafter'] at hletters
  rw [hletters] at h
  have hkind := congrArg ofTag? (String.toList_inj.mp hletters)
  rw [ofTag?_tag, ofTag?_tag] at hkind
  exact ⟨Option.some.inj hkind, List.append_cancel_left h⟩

end NodeKind

namespace Position

theorem toList_render (p : Position) :
    p.render.toList = p.line.repr.toList ++ ':' :: p.column.repr.toList := by
  have hcolon : (toString ":").toList = [':'] := rfl
  simp [render, Int.toString_eq_repr, hcolon]

/-- A place is told by how it is written. -/
theorem render_inj {p q : Position} (h : p.render.toList = q.render.toList) : p = q := by
  have hcolon : ∀ n : Int, ':' ∉ n.repr.toList := by
    intro n hmem
    rcases digit_of_mem_repr hmem with hdigit | hsign
    · exact absurd hdigit (by decide)
    · exact absurd hsign (by decide)
  rw [toList_render, toList_render,
    List.append_cons_inj_of_notMem (hcolon p.line) (hcolon p.column)] at h
  obtain ⟨hline, -, hcolumn⟩ := h
  cases p
  cases q
  congr 1
  · exact Int.repr_injective (String.toList_inj.mp hline)
  · exact Int.repr_injective (String.toList_inj.mp hcolumn)

end Position

namespace Node

/-! ## Headings -/

/-- A value as a heading shows it. -/
def shownValue : Option String → List Char
  | some text => ' ' :: (quoted text).toList
  | none => []

/-- A place as a heading shows it. -/
def shownPlace : Option Position → List Char
  | some place => ' ' :: '@' :: place.render.toList
  | none => []

theorem toList_heading (kind : NodeKind) (value : Option String) (token : Option Token) :
    (heading kind value token).toList =
      kind.tag.toList ++ (shownValue value ++ shownPlace (token.map Token.position)) := by
  unfold heading
  rw [String.toList_append, String.toList_append, List.append_assoc]
  cases value <;> cases token <;> simp [shownValue, shownPlace]

/-- Values and places begin with a blank. -/
theorem head_shown {value : Option String} {place : Option Position} {c : Char}
    (h : c ∈ (shownValue value ++ shownPlace place).head?) : c = ' ' := by
  cases value with
  | some text => exact (Option.some.inj h).symm
  | none =>
    cases place with
    | some p => exact (Option.some.inj h).symm
    | none => cases h

theorem shownPlace_inj {place other : Option Position} (h : shownPlace place = shownPlace other) :
    place = other := by
  cases place with
  | none =>
    cases other with
    | none => rfl
    | some q => cases h
  | some p =>
    cases other with
    | none => cases h
    | some q =>
      simp only [shownPlace, List.cons.injEq, true_and] at h
      rw [Position.render_inj h]

/-- Where a value may stand, a place is not taken for one, as no quotation begins with its mark. -/
theorem shown_ne_place {text : String} {place other : Option Position} :
    shownValue (some text) ++ shownPlace place ≠ shownPlace other := by
  intro h
  obtain ⟨quote, body, hquote, htext⟩ := exists_toList_quoted text
  cases other with
  | none => cases h
  | some q =>
    simp only [shownValue, shownPlace, htext, List.cons_append, List.cons.injEq, true_and] at h
    rw [h.1] at hquote
    exact absurd hquote (by decide)

theorem shown_inj {value value' : Option String} {place place' : Option Position}
    (h : shownValue value ++ shownPlace place = shownValue value' ++ shownPlace place') :
    value = value' ∧ place = place' := by
  cases value with
  | none =>
    cases value' with
    | none => exact ⟨rfl, shownPlace_inj h⟩
    | some text => exact absurd h.symm shown_ne_place
  | some text =>
    cases value' with
    | none => exact absurd h shown_ne_place
    | some other =>
      obtain ⟨htext, hplace⟩ := quoted_append_inj (List.cons.inj h).2
      exact ⟨congrArg some htext, shownPlace_inj hplace⟩

/-- A heading tells all it shows of its node. -/
theorem heading_inj {kind kind' : NodeKind} {value value' : Option String}
    {token token' : Option Token}
    (h : (heading kind value token).toList = (heading kind' value' token').toList) :
    kind = kind' ∧ value = value' ∧
      token.map Token.position = token'.map Token.position := by
  have hletter : ∀ (value : Option String) (place : Option Position),
      ∀ c ∈ (shownValue value ++ shownPlace place).head?, ¬ c.isAlpha := by
    intro value place c hc
    rw [head_shown hc]
    decide
  rw [toList_heading, toList_heading] at h
  obtain ⟨hkind, hrest⟩ := NodeKind.tag_append_inj (hletter _ _) (hletter _ _) h
  exact ⟨hkind, shown_inj hrest⟩

/-! ## Indented lines -/

/-- The number of blanks that a line begins with. -/
def blanksBefore (line : String) : Nat :=
  (line.toList.takeWhile (fun c => c = ' ')).length

theorem takeWhile_line (depth : Int) (kind : NodeKind) (value : Option String)
    (token : Option Token) :
    (indentation depth ++ heading kind value token).toList.takeWhile (fun c => c = ' ') =
      List.replicate (2 * depth.toNat) ' ' := by
  rw [String.toList_append, indentation, String.toList_ofList]
  refine takeWhile_append_stop ?_ ?_
  · intro c hc
    exact decide_eq_true (List.eq_of_mem_replicate hc)
  · intro c hc
    have hletter : ∀ kind : NodeKind, ∀ rest : List Char,
        ∀ c ∈ (kind.tag.toList ++ rest).head?, c ≠ ' ' := by
      intro kind rest
      cases kind <;> simp [NodeKind.tag]
    rw [toList_heading] at hc
    simpa using hletter kind _ c hc

theorem blanksBefore_line (depth : Int) (kind : NodeKind) (value : Option String)
    (token : Option Token) :
    blanksBefore (indentation depth ++ heading kind value token) = 2 * depth.toNat := by
  rw [blanksBefore, takeWhile_line, List.length_replicate]

/-- The lines begin with one that stands no deeper than this, if there are any. -/
def EndsAt (depth : Int) (lines : List String) : Prop :=
  ∀ line ∈ lines.head?, blanksBefore line ≤ 2 * depth.toNat

theorem endsAt_outlineLines {depth : Int} (node : Node) (lines : List String) :
    EndsAt depth (outlineLines depth node ++ lines) := by
  cases node with
  | mk kind value children token =>
    intro line hline
    rw [outlineLines, List.cons_append, List.head?_cons] at hline
    rw [← Option.some.inj hline, blanksBefore_line]

/-- Trees at one depth end where lines of a smaller depth begin. -/
theorem not_endsAt_outlineLines {depth : Int} (hdepth : 0 ≤ depth) (node : Node)
    (lines : List String) : ¬ EndsAt depth (outlineLines (depth + 1) node ++ lines) := by
  cases node with
  | mk kind value children token =>
    intro h
    have hfirst := h _ rfl
    rw [blanksBefore_line] at hfirst
    omega

theorem endsAt_outlineLinesAll {depth : Int} {lines : List String} (nodes : List Node)
    (h : EndsAt depth lines) : EndsAt (depth + 1) (outlineLinesAll (depth + 1) nodes ++ lines) := by
  cases nodes with
  | nil =>
    intro line hline
    have hless := h line hline
    omega
  | cons node rest =>
    rw [outlineLinesAll, List.append_assoc]
    exact endsAt_outlineLines node _

/-! ## Trees that look alike -/

mutual

/-- The trees have the same shape, and nodes that stand at the same point of it have the same kind,
the same value and a token at the same place, or no token both. -/
def Alike : Node → Node → Prop
  | ⟨kind, value, children, token⟩, ⟨kind', value', children', token'⟩ =>
    (kind = kind' ∧ value = value' ∧ token.map Token.position = token'.map Token.position) ∧
      AlikeAll children children'

/-- The trees are as many, and alike one by one. -/
def AlikeAll : List Node → List Node → Prop
  | [], [] => True
  | node :: rest, other :: others => Alike node other ∧ AlikeAll rest others
  | _, _ => False

end

mutual

theorem outlineLines_eq_of_alike (depth : Int) : (node other : Node) → node.Alike other →
    outlineLines depth node = outlineLines depth other
  | ⟨kind, value, children, token⟩, ⟨kind', value', children', token'⟩, h => by
    obtain ⟨⟨rfl, rfl, hplace⟩, hchildren⟩ := h
    have hheading : heading kind value token = heading kind value token' := by
      refine String.toList_inj.mp ?_
      rw [toList_heading, toList_heading, hplace]
    rw [outlineLines, outlineLines, hheading,
      outlineLinesAll_eq_of_alike (depth + 1) children children' hchildren]

theorem outlineLinesAll_eq_of_alike (depth : Int) : (nodes others : List Node) →
    AlikeAll nodes others → outlineLinesAll depth nodes = outlineLinesAll depth others
  | [], [], _ => rfl
  | node :: rest, other :: others, h => by
    rw [outlineLinesAll, outlineLinesAll, outlineLines_eq_of_alike depth node other h.1,
      outlineLinesAll_eq_of_alike depth rest others h.2]

end

mutual

/-- The lines of a tree tell the tree, and where it ends: at the first line that stands no
deeper. -/
theorem alike_of_outlineLines {depth : Int} (hdepth : 0 ≤ depth) : (node other : Node) →
    {lines lines' : List String} → EndsAt depth lines → EndsAt depth lines' →
    outlineLines depth node ++ lines = outlineLines depth other ++ lines' →
    node.Alike other ∧ lines = lines'
  | ⟨kind, value, children, token⟩, ⟨kind', value', children', token'⟩, lines, lines',
      hends, hends', h => by
    rw [outlineLines, outlineLines, List.cons_append, List.cons_append, List.cons.injEq] at h
    obtain ⟨hline, hbelow⟩ := h
    have hheading := congrArg String.toList hline
    rw [String.toList_append, String.toList_append] at hheading
    have hnode := heading_inj (List.append_cancel_left hheading)
    obtain ⟨hchildren, hlines⟩ :=
      alikeAll_of_outlineLines hdepth children children' hends hends' hbelow
    exact ⟨⟨hnode, hchildren⟩, hlines⟩

theorem alikeAll_of_outlineLines {depth : Int} (hdepth : 0 ≤ depth) : (nodes others : List Node) →
    {lines lines' : List String} → EndsAt depth lines → EndsAt depth lines' →
    outlineLinesAll (depth + 1) nodes ++ lines = outlineLinesAll (depth + 1) others ++ lines' →
    AlikeAll nodes others ∧ lines = lines'
  | [], [], lines, lines', _, _, h => ⟨trivial, h⟩
  | [], other :: others, lines, lines', hends, _, h => by
    -- The lines that follow would begin with a child, and they stand no deeper than the parent.
    rw [outlineLinesAll, outlineLinesAll, List.nil_append, List.append_assoc] at h
    rw [h] at hends
    exact absurd hends (not_endsAt_outlineLines hdepth other _)
  | node :: rest, [], lines, lines', _, hends', h => by
    rw [outlineLinesAll, outlineLinesAll, List.nil_append, List.append_assoc] at h
    rw [← h] at hends'
    exact absurd hends' (not_endsAt_outlineLines hdepth node _)
  | node :: rest, other :: others, lines, lines', hends, hends', h => by
    rw [outlineLinesAll, outlineLinesAll, List.append_assoc, List.append_assoc] at h
    have hdeeper : 0 ≤ depth + 1 := by omega
    obtain ⟨hnode, hafter⟩ := alike_of_outlineLines hdeeper node other
      (endsAt_outlineLinesAll rest hends) (endsAt_outlineLinesAll others hends') h
    obtain ⟨hrest, hlines⟩ := alikeAll_of_outlineLines hdepth rest others hends hends' hafter
    exact ⟨⟨hnode, hrest⟩, hlines⟩

end

end Node

/-! ## The law -/

/-- An outline tells its tree. Two trees have the same outline, at whatever depth, just if they
have the same shape and at each point of it the same kind, the same value, be it missing or any
text, and a token at the same line and column, or none. -/
theorem an_outline_tells_its_tree (a b : Node) (depth : Nat) :
    a.outline depth = b.outline depth ↔ a.Alike b := by
  constructor
  · intro h
    have hlines := congrArg splitLines h
    rw [Node.splitLines_outline, Node.splitLines_outline] at hlines
    have hends : Node.EndsAt depth [] := fun line hline => by cases hline
    refine (Node.alike_of_outlineLines (Int.natCast_nonneg depth) a b hends hends ?_).1
    rw [hlines]
  · intro h
    rw [Node.outline, Node.outline, Node.outlineLines_eq_of_alike depth a b h]

/-- A value that looks like the line of a child stays on the line of its own node. -/
example : (Node.mk .program (some "\n  NoneLiteral") [] none).outline 1 =
    "  Program '\\n  NoneLiteral'" := by decide +kernel

end Assay
