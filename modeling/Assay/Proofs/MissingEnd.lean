-- A program that lacks its end mark is read as one that has it. What a mark
-- holds shows in one finding at most: that a value is missing right there.
import Assay.Proofs.Segments

namespace Assay

/-! ## The completed mark -/

theorem missingEnd_of_unmarked {tokens : List Token}
    (hnone : ∀ token ∈ tokens, token.kind ≠ .endMark) :
    ∃ place, missingEnd tokens = [.endMark place] := by
  unfold missingEnd
  cases hlast : tokens.getLast? with
  | none => exact ⟨_, rfl⟩
  | some last => exact ⟨_, if_neg (hnone last (List.mem_of_getLast? hlast))⟩

theorem derive_congr {tokens others : List Token} (h : keptTokens tokens = keptTokens others) :
    derive tokens = derive others := by
  unfold derive Tape.ofTokens
  rw [h]

/-- Tokens without an end mark are read as if the mark they lack stood at their end. -/
theorem derive_of_unmarked {tokens : List Token}
    (hnone : ∀ token ∈ tokens, token.kind ≠ .endMark) :
    missingEnd (tokens.filter (fun token => !token.kind.isTrivia)) = [programEnd tokens] ∧
      derive tokens = derive (tokens ++ [programEnd tokens]) := by
  have hkept : ∀ token ∈ tokens.filter (fun token => !token.kind.isTrivia),
      token.kind ≠ .endMark :=
    fun token hmem => hnone token (List.mem_filter.mp hmem).1
  obtain ⟨place, hmissing⟩ := missingEnd_of_unmarked hkept
  have hsame : keptTokens tokens = keptTokens (tokens ++ [.endMark place]) := by
    rw [keptTokens_append_mark tokens _ rfl, ← hmissing]
    rfl
  have hmark : (Token.endMark place).kind = .endMark := rfl
  have hend : programEnd tokens = .endMark place := by
    rw [← programEnd_append_mark hmark hnone]
    unfold programEnd Tape.ofTokens
    rw [hsame]
  rw [hend]
  exact ⟨hmissing, derive_congr hsame⟩

/-! ## One mark for another -/

/-- At an end mark nothing but a value can be missing, and it is missing at any other mark. -/
theorem Failure.of_endMark {begun : List Token} {stop other : Token} {fault : SyntaxFault}
    (h : Failure begun stop fault) (hstop : stop.kind = .endMark)
    (hother : other.kind = .endMark) : fault = .missingValue ∧ Failure begun other fault := by
  cases h with
  | keyword hkind => simp [hstop] at hkind
  | assignedLiteral _ _ hkind => simp [hstop] at hkind
  | unexpected _ _ _ _ hend => exact absurd hstop hend
  | missingValue hname hoperator _ =>
    exact ⟨rfl, .missingValue hname hoperator (by rw [hother]; decide)⟩

section Marks

variable {stop other : Token} {ahead after : List Token} {segment : Segment}
  {segments : List Segment} (hstop : stop.kind = .endMark)

include hstop

theorem Segment.fits_of_endMark (hother : other.kind = .endMark) (h : segment.Fits stop after) :
    segment.Fits other after := by
  cases segment with
  | refused token herror => trivial
  | item i =>
    cases after with
    | cons next rest => exact h
    | nil => exact i.endsBefore_items [] other hother
  | discarded begun passed fault =>
    cases passed with
    | cons token passed => exact h
    | nil => exact ⟨(h.1.of_endMark hstop hother).2, h.2⟩

theorem Tiles.of_endMark (hother : other.kind = .endMark) (h : Tiles stop ahead segments) :
    Tiles other ahead segments := by
  induction h with
  | nil => exact .nil
  | cons hfits _ ih => exact .cons (Segment.fits_of_endMark hstop hother hfits) ih

end Marks

/-! ## What a mark shows in -/

theorem token_mem_of_mem_nameFindings {tokens : List Token} {d : Diagnostic}
    (h : d ∈ nameFindings tokens) : d.token ∈ tokens := by
  obtain ⟨token, hname, hd⟩ := List.mem_filterMap.mp h
  obtain ⟨problem, -, rfl⟩ := Option.map_eq_some_iff.mp hd
  exact (List.mem_filter.mp hname).1

/-- The findings `found`, which depend on the end mark, are `reports` at every mark, or these and
after them that a value is missing at the mark. -/
def ShowsAtMostOnce (found : Token → List Diagnostic) (reports : List Diagnostic) : Prop :=
  (∀ mark, found mark = reports) ∨
    ∀ mark, found mark = reports ++ [SyntaxFault.missingValue.about mark]

section Shows

variable {stop : Token} {ahead after : List Token} {segment : Segment} {segments : List Segment}

/-- The findings of a segment are about its own tokens, but for one at the mark, after which no
token is left. -/
theorem Segment.reports_at_marks (hstop : stop.kind = .endMark) (h : segment.Fits stop after) :
    ∃ reports, (∀ d ∈ reports, d.token ∈ segment.tokens) ∧
      ((∀ mark, segment.reports mark = reports) ∨
        after = [] ∧ ∀ mark, segment.reports mark =
          reports ++ [SyntaxFault.missingValue.about mark]) := by
  cases segment with
  | item i =>
    exact ⟨nameFindings i.tokens, fun d hd => token_mem_of_mem_nameFindings hd,
      Or.inl fun _ => rfl⟩
  | refused token herror =>
    refine ⟨[(SyntaxFault.lexical token.error).about token], ?_, Or.inl fun _ => rfl⟩
    intro d hd
    rw [List.mem_singleton.mp hd]
    exact List.mem_singleton_self token
  | discarded begun passed fault =>
    cases passed with
    | cons token passed =>
      refine ⟨nameFindings begun ++ [fault.about token], ?_, Or.inl fun _ => rfl⟩
      intro d hd
      rcases List.mem_append.mp hd with hname | hfault
      · exact List.mem_append_left _ (token_mem_of_mem_nameFindings hname)
      · rw [List.mem_singleton.mp hfault]
        exact List.mem_append_right _ List.mem_cons_self
    | nil =>
      have hbegun : ∀ d ∈ nameFindings begun, d.token ∈ begun ++ [] := fun d hd =>
        List.mem_append_left _ (token_mem_of_mem_nameFindings hd)
      rw [(h.1.of_endMark hstop hstop).1]
      exact ⟨nameFindings begun, hbegun, Or.inr ⟨h.2.moves rfl, fun _ => rfl⟩⟩

/-- Of all findings the last alone can be about the end mark. -/
theorem Tiles.reports_at_marks (hstop : stop.kind = .endMark) (h : Tiles stop ahead segments) :
    ∃ reports, (∀ d ∈ reports, d.token ∈ ahead) ∧
      ShowsAtMostOnce (fun mark => segments.flatMap (Segment.reports mark)) reports := by
  induction h with
  | nil => exact ⟨[], by simp, Or.inl fun _ => rfl⟩
  | @cons segment after segments hfits hafter ih =>
    obtain ⟨first, hfirst, hsame | ⟨hnil, hmark⟩⟩ := Segment.reports_at_marks hstop hfits
    · obtain ⟨reports, hreports, hshows⟩ := ih
      refine ⟨first ++ reports, ?_, ?_⟩
      · intro d hd
        exact List.mem_append.mpr ((List.mem_append.mp hd).imp (hfirst d) (hreports d))
      · simp only [ShowsAtMostOnce, List.flatMap_cons, hsame, List.append_assoc,
          List.append_cancel_left_eq]
        exact hshows
    · -- Reading broke off at the mark, so this segment is the last.
      rw [Tiles.eq_nil hstop hafter hnil]
      refine ⟨first, fun d hd => List.mem_append_left _ (hfirst d hd), Or.inr fun mark => ?_⟩
      simpa only [List.flatMap_cons, List.flatMap_nil, List.append_nil] using hmark mark

end Shows

theorem exists_reports_at_marks {tokens : List Token}
    (hnone : ∀ token ∈ tokens, token.kind ≠ .endMark) :
    ∃ (statements : List Node) (found : Token → List Diagnostic) (reports : List Diagnostic),
      (∀ d ∈ reports, d.token ∈ tokens) ∧ ShowsAtMostOnce found reports ∧
      ∀ mark : Token, mark.kind = .endMark →
        (derive (tokens ++ [mark])).statements = statements ∧
        (derive (tokens ++ [mark])).reports = found mark := by
  obtain ⟨segments, htiles⟩ := exists_tiles (.endMark .start) rfl
    (tokens.filter (fun token => !token.kind.isTrivia))
    (fun token hmem => hnone token (List.mem_filter.mp hmem).1)
  obtain ⟨reports, hreports, hshows⟩ := htiles.reports_at_marks rfl
  refine ⟨segments.filterMap Segment.statement?,
    fun mark => segments.flatMap (Segment.reports mark), reports,
    fun d hd => (List.mem_filter.mp (hreports d hd)).1, hshows, ?_⟩
  intro mark hmark
  rw [derive_eq, programEnd_append_mark hmark hnone, programTokens_append_mark hmark hnone,
    readProgram_of_tiles hmark (htiles.of_endMark rfl hmark)]
  exact ⟨outcome_statements mark segments, outcome_reports mark segments⟩

/-! ## The law -/

/-- A missing end mark does not change what is read. The tree is the same as with any mark at the
end, and so are the problems found and their order. The findings are the same altogether, each
about a token of the program, unless a value is missing at the very end: then the last one is
about the mark, in the one case that which is completed, in the other that which was given. -/
theorem a_missing_end_mark_shows_in_one_finding_at_most (tokens : List Token) (mark : Token)
    (hnone : ∀ token ∈ tokens, token.kind ≠ .endMark) (hmark : mark.kind = .endMark) :
    missingEnd (tokens.filter (fun token => !token.kind.isTrivia)) = [programEnd tokens] ∧
      (derive tokens).tree? = (derive (tokens ++ [mark])).tree? ∧
      (derive tokens).reports.map Diagnostic.problem =
        (derive (tokens ++ [mark])).reports.map Diagnostic.problem ∧
      ∃ reports : List Diagnostic, (∀ d ∈ reports, d.token ∈ tokens) ∧
        ((derive tokens).reports = reports ∧ (derive (tokens ++ [mark])).reports = reports ∨
          (derive tokens).reports =
              reports ++ [SyntaxFault.missingValue.about (programEnd tokens)] ∧
            (derive (tokens ++ [mark])).reports =
              reports ++ [SyntaxFault.missingValue.about mark]) := by
  obtain ⟨hmissing, hderive⟩ := derive_of_unmarked hnone
  obtain ⟨statements, found, reports, hreports, hshows, hread⟩ := exists_reports_at_marks hnone
  obtain ⟨hstatements, hfound⟩ := hread mark hmark
  obtain ⟨hstatements', hfound'⟩ := hread (programEnd tokens) (programEnd_kind tokens)
  have htree : (derive tokens).tree? = (derive (tokens ++ [mark])).tree? := by
    rw [hderive, Derivation.tree?, Derivation.tree?, hstatements, hstatements']
  rw [← hderive] at hfound'
  refine ⟨hmissing, htree, ?_, reports, hreports, ?_⟩
  · rw [hfound, hfound']
    rcases hshows with hnever | honce
    · rw [hnever, hnever]
    · rw [honce, honce, List.map_append, List.map_append]
      rfl
  · rw [hfound, hfound']
    exact hshows.imp (fun hnever => ⟨hnever _, hnever _⟩) (fun honce => ⟨honce _, honce _⟩)

/-- A name and an operator, and nothing to assign. -/
def unfinishedTokens : List Token :=
  [⟨.identifier, "x", ⟨1, 1⟩, none⟩, ⟨.assignmentOperator, "=", ⟨1, 3⟩, none⟩]

/-- The value is missing just past the operator, or wherever the mark that is given stands. -/
theorem a_value_is_missing_at_either_mark :
    ((derive unfinishedTokens).reports.map Diagnostic.problem =
        (derive (unfinishedTokens ++ [.endMark ⟨7, 9⟩])).reports.map Diagnostic.problem) ∧
      (derive unfinishedTokens).reports =
        [SyntaxFault.missingValue.about (.endMark ⟨1, 4⟩)] ∧
      (derive (unfinishedTokens ++ [.endMark ⟨7, 9⟩])).reports =
        [SyntaxFault.missingValue.about (.endMark ⟨7, 9⟩)] := by
  have hlaw := a_missing_end_mark_shows_in_one_finding_at_most unfinishedTokens (.endMark ⟨7, 9⟩)
    (by decide) rfl
  exact ⟨hlaw.2.2.1, by decide +kernel, by decide +kernel⟩

end Assay
