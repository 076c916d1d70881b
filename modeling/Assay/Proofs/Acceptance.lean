-- What the parser accepts: a program has no finding about its structure if
-- and only if its tokens are a row of items. There is one such row at most,
-- and the tree and the findings about names are read off it.
import Assay.Proofs.Segments

namespace Assay

def structureCodes : List String := "P001" :: failureCodes

/-! ## Clean programs are rows of items -/

/-- A segment that makes no finding about the structure is an item. -/
theorem Segment.item_of_clean {segment : Segment} {stop : Token} {after : List Token}
    (hfits : segment.Fits stop after)
    (hclean : ∀ d ∈ segment.reports stop, d.problem.code ∉ structureCodes) :
    ∃ item : Item, segment = .item item := by
  cases segment with
  | item i => exact ⟨i, rfl⟩
  | refused token hkind =>
    have hcode := hclean _ List.mem_cons_self
    rw [SyntaxFault.about, Diagnostic.about, SyntaxFault.lexical_code] at hcode
    exact absurd List.mem_cons_self hcode
  | discarded begun passed fault =>
    have hcode := hclean (fault.about (passed.headD stop))
      (List.mem_append_right _ List.mem_cons_self)
    exact absurd (List.mem_cons_of_mem _ hfits.1.code_mem) hcode

theorem Tiles.items_of_clean {stop : Token} {ahead : List Token} {segments : List Segment}
    (h : Tiles stop ahead segments)
    (hclean : ∀ d ∈ segments.flatMap (Segment.reports stop), d.problem.code ∉ structureCodes) :
    ∃ items : List Item, ahead = items.flatMap Item.tokens := by
  induction h with
  | nil => exact ⟨[], rfl⟩
  | @cons segment after segments hfits hafter ih =>
    rw [List.flatMap_cons] at hclean
    obtain ⟨item, rfl⟩ := Segment.item_of_clean hfits
      (fun d hd => hclean d (List.mem_append_left _ hd))
    obtain ⟨items, hitems⟩ := ih (fun d hd => hclean d (List.mem_append_right _ hd))
    exact ⟨item :: items, by rw [List.flatMap_cons, ← hitems]; rfl⟩

/-! ## Rows of items are clean programs -/

theorem nameFindings_clean (tokens : List Token) :
    ∀ d ∈ nameFindings tokens, d.problem.code ∉ structureCodes := by
  have hdisjoint : ∀ code ∈ nameCodes, code ∉ structureCodes := by decide
  intro d hd
  exact hdisjoint _ (code_of_mem_nameFindings hd)

/-! ## The law -/

/-- The parser accepts exactly its grammar: there is no finding about the structure if and only
if the tokens are a row of items. Then the row is unique, the tree holds the statements of its
items in their order, and there is no tree if there is no statement. What is found is one
finding for each name that is no proper name, in the order of the tokens. -/
theorem the_parser_accepts_exactly_its_grammar (tokens : List Token) :
    ((∀ d ∈ (derive tokens).reports, d.problem.code ∉ structureCodes) ↔
      ∃ items : List Item, programTokens tokens = items.flatMap Item.tokens) ∧
    ∀ items : List Item, programTokens tokens = items.flatMap Item.tokens →
      (∀ others : List Item, programTokens tokens = others.flatMap Item.tokens →
        others = items) ∧
      (derive tokens).tree? =
        (if (items.filterMap Item.statement?).isEmpty then none
          else some ⟨.program, none, items.filterMap Item.statement?, none⟩) ∧
      (derive tokens).reports = nameFindings (programTokens tokens) := by
  have hread : ∀ items : List Item, programTokens tokens = items.flatMap Item.tokens →
      (derive tokens).statements = items.filterMap Item.statement? ∧
        (derive tokens).reports = nameFindings (programTokens tokens) := by
    intro items hitems
    have h := readProgram_items (programEnd tokens) (programEnd_kind tokens) items
    rw [← hitems] at h
    exact h
  refine ⟨⟨?_, ?_⟩, ?_⟩
  · intro hclean
    obtain ⟨segments, htiles, hderive⟩ := derive_tiles tokens
    rw [hderive, outcome_reports] at hclean
    exact htiles.items_of_clean hclean
  · rintro ⟨items, hitems⟩
    rw [(hread items hitems).2]
    exact nameFindings_clean (programTokens tokens)
  · intro items hitems
    obtain ⟨hstatements, hreports⟩ := hread items hitems
    refine ⟨?_, ?_, hreports⟩
    · intro others hothers
      exact Item.flatMap_tokens_injective (hothers.symm.trans hitems)
    · rw [Derivation.tree?, hstatements, Node.program]

/-- A reserved word as the name of an assignment, and a string on the next line. -/
def reservedNameItems : List Item :=
  [.assigned ⟨.identifier, "if", ⟨1, 1⟩, none⟩ ⟨.assignmentOperator, "=", ⟨1, 4⟩, none⟩
     ⟨.integer, "1", ⟨1, 6⟩, none⟩ rfl rfl rfl,
   .lineBreak ⟨.newline, "\n", ⟨1, 9⟩, none⟩ rfl,
   .bare ⟨.string, "''", ⟨2, 1⟩, none⟩ rfl]

/-- The tokens of these items between blanks and a comment, and a second end mark with a token
before it. -/
def reservedNameTokens : List Token :=
  [⟨.identifier, "if", ⟨1, 1⟩, none⟩, ⟨.whitespace, " ", ⟨1, 3⟩, none⟩,
   ⟨.assignmentOperator, "=", ⟨1, 4⟩, none⟩, ⟨.integer, "1", ⟨1, 6⟩, none⟩,
   ⟨.comment, "#", ⟨1, 8⟩, none⟩, ⟨.newline, "\n", ⟨1, 9⟩, none⟩, ⟨.string, "''", ⟨2, 1⟩, none⟩,
   .endMark ⟨2, 3⟩, ⟨.keyword, "if", ⟨2, 3⟩, none⟩, .endMark ⟨2, 5⟩]

/-- A reserved word that stands as a name is found, and the program is accepted all the same. -/
theorem a_reserved_name_is_accepted_and_found :
    programTokens reservedNameTokens = reservedNameItems.flatMap Item.tokens ∧
      (∀ d ∈ (derive reservedNameTokens).reports, d.problem.code ∉ structureCodes) ∧
      (derive reservedNameTokens).tree? =
        some ⟨.program, none, reservedNameItems.filterMap Item.statement?, none⟩ ∧
      (derive reservedNameTokens).reports =
        [.about ⟨.identifier, "if", ⟨1, 1⟩, none⟩
          (IdentifierFault.problem "if" .reserved)] := by
  have hrow : programTokens reservedNameTokens = reservedNameItems.flatMap Item.tokens := rfl
  obtain ⟨hiff, hread⟩ := the_parser_accepts_exactly_its_grammar reservedNameTokens
  obtain ⟨-, htree, hreports⟩ := hread reservedNameItems hrow
  refine ⟨hrow, hiff.mpr ⟨reservedNameItems, hrow⟩, htree, ?_⟩
  rw [hreports]
  rfl

end Assay
