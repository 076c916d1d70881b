-- The parser has no notion of a line, and yet no error crosses one: a row of
-- segments that ends with a line break can stand before any other row, so
-- lines are read as if each stood alone.
import Assay.Proofs.Segments

namespace Assay

/-- Whole lines: the last token, if there is any, is a line break. -/
def WholeLines (tokens : List Token) : Prop :=
  ∀ last ∈ tokens.getLast?, last.kind = .newline

theorem WholeLines.of_append {a b : List Token} (h : WholeLines (a ++ b)) : WholeLines b := by
  intro last hlast
  refine h last ?_
  rw [List.getLast?_append, Option.mem_def.mp hlast]
  rfl

theorem WholeLines.false_of_ends {tokens : List Token} (h : WholeLines tokens)
    (hne : tokens ≠ []) (hkinds : ∀ token ∈ tokens, token.kind ≠ .newline) : False := by
  have hlast := List.getLast?_eq_some_getLast hne
  exact hkinds _ (List.getLast_mem hne) (h _ hlast)

/-! ## A segment of whole lines -/

theorem Failure.begun_ne_newline {begun : List Token} {token : Token} {fault : SyntaxFault}
    (h : Failure begun token fault) : ∀ t ∈ begun, t.kind ≠ .newline := by
  cases h with
  | keyword _ => simp
  | unexpected _ _ _ _ _ => simp
  | @assignedLiteral value _ hvalue _ _ =>
    intro t ht
    rw [List.mem_singleton.mp ht]
    exact TokenKind.ne_of_isLiteral hvalue (by decide)
  | @missingValue name operator _ hname hoperator _ =>
    intro t ht
    rcases List.mem_cons.mp ht with rfl | hmem
    · rw [hname]
      decide
    · rw [List.mem_singleton.mp hmem, hoperator]
      decide

section Lines

variable {stop stop' : Token} {after more : List Token}

theorem Item.endsBefore_append {item : Item} (h : item.EndsBefore (after.headD stop))
    (hlines : WholeLines (item.tokens ++ after)) :
    item.EndsBefore ((after ++ more).headD stop') := by
  cases item with
  | lineBreak mark hmark => trivial
  | assigned name operator value hname hoperator hvalue => trivial
  | bare value hvalue =>
    cases after with
    | cons next rest => exact h
    | nil =>
      have hline : value.kind = .newline := hlines value rfl
      exact absurd hline (TokenKind.ne_of_isLiteral hvalue (by decide))

/-- In whole lines, a recovery is over at the end of a line, whatever follows. -/
theorem Passed.append {passed : List Token} (h : Passed passed after) (hne : passed ≠ [])
    (hlines : WholeLines (passed ++ after)) : Passed passed (after ++ more) := by
  refine ⟨fun hnil => absurd hnil hne, h.no_value, h.newline_last, ?_⟩
  cases after with
  | nil =>
    rw [List.append_nil] at hlines
    have hlast := List.getLast?_eq_some_getLast hne
    exact Or.inr (Or.inr ⟨_, hlast, hlines _ hlast⟩)
  | cons next rest =>
    rcases h.safe with hnil | hvalue | hline
    · cases hnil
    · exact Or.inr (Or.inl hvalue)
    · exact Or.inr (Or.inr hline)

/-- In whole lines, nothing breaks off at the end mark. -/
theorem passed_ne_nil {begun passed : List Token} {fault : SyntaxFault}
    (hstop : stop.kind = .endMark) (hfailure : Failure begun (passed.headD stop) fault)
    (hpassed : Passed passed after) (hlines : WholeLines (begun ++ passed ++ after)) :
    passed ≠ [] := by
  intro hnil
  subst hnil
  obtain ⟨first, rest, hrow, -⟩ := hfailure.exists_head hstop
  rw [List.append_nil] at hrow
  rw [hpassed.moves rfl, List.append_nil, List.append_nil] at hlines
  exact hlines.false_of_ends (by rw [hrow]; exact List.cons_ne_nil first rest)
    hfailure.begun_ne_newline

/-- A segment of whole lines fits before more tokens and another end mark, and its findings stay
the same. -/
theorem Segment.fits_append (stop' : Token) (more : List Token) {segment : Segment}
    (hstop : stop.kind = .endMark) (hfits : segment.Fits stop after)
    (hlines : WholeLines (segment.tokens ++ after)) :
    segment.Fits stop' (after ++ more) ∧ segment.reports stop = segment.reports stop' := by
  cases segment with
  | item i => exact ⟨Item.endsBefore_append hfits hlines, rfl⟩
  | refused token hkind => exact ⟨trivial, rfl⟩
  | discarded begun passed fault =>
    obtain ⟨hfailure, hpassed⟩ := hfits
    -- The fault is at a token of the lines, so the end mark has no part in it.
    have hne := passed_ne_nil hstop hfailure hpassed hlines
    have hhead : passed.headD stop = passed.headD stop' := by
      obtain ⟨first, rest, rfl⟩ := List.exists_cons_of_ne_nil hne
      rfl
    rw [Segment.tokens, List.append_assoc] at hlines
    constructor
    · rw [hhead] at hfailure
      exact ⟨hfailure, hpassed.append hne hlines.of_append⟩
    · rw [Segment.reports, Segment.reports, hhead]

end Lines

/-! ## Whole lines before other tokens -/

/-- The segments of whole lines and those of other tokens are together the segments of all. -/
theorem Tiles.append {stop stop' : Token} {lines more : List Token} {segments others : List Segment}
    (hstop : stop.kind = .endMark) (h : Tiles stop lines segments) (hlines : WholeLines lines)
    (hmore : Tiles stop' more others) :
    Tiles stop' (lines ++ more) (segments ++ others) ∧
      segments.flatMap (Segment.reports stop) = segments.flatMap (Segment.reports stop') := by
  induction h with
  | nil => exact ⟨hmore, rfl⟩
  | @cons segment after segments hfits hafter ih =>
    obtain ⟨htiles, hreports⟩ := ih hlines.of_append
    obtain ⟨hfits', hreport⟩ := Segment.fits_append stop' more hstop hfits hlines
    refine ⟨?_, ?_⟩
    · rw [List.append_assoc]
      exact .cons hfits' htiles
    · rw [List.flatMap_cons, List.flatMap_cons, hreport, hreports]

theorem readProgram_lines (stop stop' : Token) (lines more : List Token)
    (hstop : stop.kind = .endMark) (hstop' : stop'.kind = .endMark) (hlines : WholeLines lines)
    (hnone : ∀ token ∈ lines, token.kind ≠ .endMark)
    (hmore : ∀ token ∈ more, token.kind ≠ .endMark) :
    (readProgram stop' (lines ++ more)).statements =
        (readProgram stop lines).statements ++ (readProgram stop' more).statements ∧
      (readProgram stop' (lines ++ more)).reports =
        (readProgram stop lines).reports ++ (readProgram stop' more).reports := by
  obtain ⟨segments, htiles⟩ := exists_tiles stop hstop lines hnone
  obtain ⟨others, hothers⟩ := exists_tiles stop' hstop' more hmore
  obtain ⟨hall, hreports⟩ := htiles.append hstop hlines hothers
  rw [readProgram_of_tiles hstop htiles, readProgram_of_tiles hstop' hothers,
    readProgram_of_tiles hstop' hall]
  constructor
  · rw [outcome_statements, outcome_statements, outcome_statements, List.filterMap_append]
  · rw [outcome_reports, outcome_reports, outcome_reports, List.flatMap_append, hreports]

/-! ## The law -/

theorem WholeLines.append_break (tokens : List Token) {mark : Token} (h : mark.kind = .newline) :
    WholeLines (tokens ++ [mark]) := by
  intro last hlast
  rw [List.getLast?_concat] at hlast
  cases hlast
  exact h

theorem append_break_ne_endMark {tokens : List Token} {mark : Token} (h : mark.kind = .newline)
    (hnone : ∀ token ∈ tokens, token.kind ≠ .endMark) :
    ∀ token ∈ tokens ++ [mark], token.kind ≠ .endMark := by
  intro token hmem
  rcases List.mem_append.mp hmem with hmem | hmem
  · exact hnone token hmem
  · rw [List.mem_singleton.mp hmem, h]
    decide

theorem derive_lines {before after : List Token} {mark stop stop' : Token}
    (hbefore : ∀ token ∈ before, token.kind ≠ .endMark)
    (hafter : ∀ token ∈ after, token.kind ≠ .endMark) (hmark : mark.kind = .newline)
    (hstop : stop.kind = .endMark) (hstop' : stop'.kind = .endMark) :
    (derive (before ++ [mark] ++ after ++ [stop])).children =
        (derive (before ++ [mark] ++ [stop'])).children ++ (derive (after ++ [stop])).children ∧
      (derive (before ++ [mark] ++ after ++ [stop])).reports =
        (derive (before ++ [mark] ++ [stop'])).reports ++ (derive (after ++ [stop])).reports := by
  have hlines := append_break_ne_endMark hmark hbefore
  have hall : ∀ token ∈ before ++ [mark] ++ after, token.kind ≠ .endMark := by
    intro token hmem
    rcases List.mem_append.mp hmem with hmem | hmem
    · exact hlines token hmem
    · exact hafter token hmem
  have hkept : ∀ {tokens : List Token}, (∀ token ∈ tokens, token.kind ≠ .endMark) →
      ∀ token ∈ tokens.filter (fun token => !token.kind.isTrivia), token.kind ≠ .endMark :=
    fun h token hmem => h token (List.mem_filter.mp hmem).1
  have hbreak : (before ++ [mark]).filter (fun token => !token.kind.isTrivia) =
      before.filter (fun token => !token.kind.isTrivia) ++ [mark] := by
    rw [List.filter_append, List.filter_cons_of_pos (by simp [hmark, TokenKind.isTrivia])]
    rfl
  have hwhole : WholeLines ((before ++ [mark]).filter (fun token => !token.kind.isTrivia)) := by
    rw [hbreak]
    exact .append_break _ hmark
  simp only [Derivation.children_eq, derive_eq]
  rw [programTokens_append_mark hstop hall, programEnd_append_mark hstop hall,
    programTokens_append_mark hstop' hlines, programEnd_append_mark hstop' hlines,
    programTokens_append_mark hstop hafter, programEnd_append_mark hstop hafter,
    List.filter_append]
  exact readProgram_lines stop' stop _ _ hstop' hstop hwhole (hkept hlines) (hkept hafter)

/-- Errors stay within their lines. What comes before a line break and what comes after it are
read as if each stood alone, statements and findings alike. So lines that are clean on their own
give just their own statements, whatever stands before and after them. -/
theorem errors_stay_within_their_lines (before after : List Token) (mark stop stop' : Token)
    (hbefore : ∀ token ∈ before, token.kind ≠ .endMark)
    (hafter : ∀ token ∈ after, token.kind ≠ .endMark) (hmark : mark.kind = .newline)
    (hstop : stop.kind = .endMark) (hstop' : stop'.kind = .endMark) :
    (derive (before ++ [mark] ++ after ++ [stop])).children =
        (derive (before ++ [mark, stop'])).children ++ (derive (after ++ [stop])).children ∧
      (derive (before ++ [mark] ++ after ++ [stop])).reports =
        (derive (before ++ [mark, stop'])).reports ++ (derive (after ++ [stop])).reports ∧
      ∀ (lines rest : List Token) (last : Token), after = lines ++ [last] ++ rest →
        last.kind = .newline → (derive (lines ++ [last, stop'])).reports = [] →
        (derive (before ++ [mark] ++ after ++ [stop])).children =
            (derive (before ++ [mark, stop'])).children ++
              (derive (lines ++ [last, stop'])).children ++ (derive (rest ++ [stop])).children ∧
          (derive (before ++ [mark] ++ after ++ [stop])).reports =
            (derive (before ++ [mark, stop'])).reports ++ (derive (rest ++ [stop])).reports := by
  have hpair : ∀ (tokens : List Token) (token : Token),
      tokens ++ [token, stop'] = tokens ++ [token] ++ [stop'] := by simp
  obtain ⟨hchildren, hreports⟩ := derive_lines hbefore hafter hmark hstop hstop'
  rw [hpair]
  refine ⟨hchildren, hreports, ?_⟩
  intro lines rest last hsplit hlast hclean
  rw [hpair] at hclean ⊢
  have hlines : ∀ token ∈ lines, token.kind ≠ .endMark := fun token hmem =>
    hafter token (by simp [hsplit, hmem])
  have hrest : ∀ token ∈ rest, token.kind ≠ .endMark := fun token hmem =>
    hafter token (by simp [hsplit, hmem])
  obtain ⟨hmore, hfound⟩ := derive_lines hlines hrest hlast hstop hstop'
  rw [hchildren, hreports, hsplit, hmore, hfound, hclean]
  exact ⟨(List.append_assoc _ _ _).symm, rfl⟩

def keywordLine : List Token :=
  [⟨.keyword, "if", ⟨1, 1⟩, none⟩, ⟨.dot, ".", ⟨1, 3⟩, none⟩]

/-- A line with an assignment, and one whose operator has no value. -/
def assignmentLines : List Token :=
  [⟨.identifier, "x", ⟨2, 1⟩, none⟩, ⟨.assignmentOperator, "=", ⟨2, 2⟩, none⟩,
   ⟨.integer, "1", ⟨2, 3⟩, none⟩, ⟨.newline, "\n", ⟨2, 4⟩, none⟩,
   ⟨.identifier, "y", ⟨3, 1⟩, none⟩, ⟨.assignmentOperator, "=", ⟨3, 2⟩, none⟩]

/-- Between two broken lines, the assignment is read, and each broken line has its one
finding. -/
theorem an_assignment_between_broken_lines :
    (derive (keywordLine ++ [⟨.newline, "\n", ⟨1, 4⟩, none⟩] ++ assignmentLines ++
        [.endMark ⟨3, 3⟩])).children =
      [Node.assignment ⟨.identifier, "x", ⟨2, 1⟩, none⟩
        (Node.leafOf ⟨.integer, "1", ⟨2, 3⟩, none⟩ rfl)] ∧
    (derive (keywordLine ++ [⟨.newline, "\n", ⟨1, 4⟩, none⟩] ++ assignmentLines ++
        [.endMark ⟨3, 3⟩])).reports =
      [(SyntaxFault.misplacedKeyword "if").about ⟨.keyword, "if", ⟨1, 1⟩, none⟩,
       SyntaxFault.missingValue.about (.endMark ⟨3, 3⟩)] := by
  obtain ⟨-, -, hlines⟩ := errors_stay_within_their_lines keywordLine assignmentLines
    ⟨.newline, "\n", ⟨1, 4⟩, none⟩ (.endMark ⟨3, 3⟩) (.endMark ⟨1, 5⟩) (by decide) (by decide)
    rfl rfl rfl
  obtain ⟨hchildren, hreports⟩ := hlines (assignmentLines.take 3) (assignmentLines.drop 4)
    ⟨.newline, "\n", ⟨2, 4⟩, none⟩ rfl rfl (by decide +kernel)
  have hbefore : (derive (keywordLine ++ [⟨.newline, "\n", ⟨1, 4⟩, none⟩,
      .endMark ⟨1, 5⟩])).children = [] :=
    List.isEmpty_iff.mp (by decide +kernel)
  have hafter : (derive (assignmentLines.drop 4 ++ [.endMark ⟨3, 3⟩])).children = [] :=
    List.isEmpty_iff.mp (by decide +kernel)
  have hline : (derive (assignmentLines.take 3 ++ [⟨.newline, "\n", ⟨2, 4⟩, none⟩,
      .endMark ⟨1, 5⟩])).children =
        [Node.assignment ⟨.identifier, "x", ⟨2, 1⟩, none⟩
          (Node.leafOf ⟨.integer, "1", ⟨2, 3⟩, none⟩ rfl)] := by
    rw [Derivation.children_eq]
    exact (readProgram_items (.endMark ⟨1, 5⟩) rfl
      [.assigned ⟨.identifier, "x", ⟨2, 1⟩, none⟩ ⟨.assignmentOperator, "=", ⟨2, 2⟩, none⟩
         ⟨.integer, "1", ⟨2, 3⟩, none⟩ rfl rfl rfl,
       .lineBreak ⟨.newline, "\n", ⟨2, 4⟩, none⟩ rfl]).1
  constructor
  · rw [hchildren, hbefore, hafter, hline]
    rfl
  · rw [hreports]
    decide +kernel

end Assay
