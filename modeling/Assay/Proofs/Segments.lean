-- Reading a program cuts its tokens into segments: items, error tokens that
-- are refused, and stretches that are given up, each of these for one fault.
-- Any tokens can be cut in this way, and what is read is what the segments
-- say, so no token is lost without a trace.
import Assay.Proofs.Recovery
import Assay.Proofs.Statements
import Assay.Proofs.Stream

namespace Assay

/-! ## Segments -/

/-- A stretch of the tokens of a program, and what becomes of it. -/
inductive Segment where
  /-- An item, read to its end. -/
  | item (item : Item)
  | refused (token : Token) (isError : token.kind = .error)
  /-- Tokens given up: after those `begun`, reading broke off with a fault at the first of those
  `passed`, or at the end mark if there is none, and recovery left off after the last. -/
  | discarded (begun passed : List Token) (fault : SyntaxFault)

namespace Segment

def tokens : Segment → List Token
  | item i => i.tokens
  | refused token _ => [token]
  | discarded begun passed _ => begun ++ passed

/-- Whether a segment can stand before the tokens `after` and the end mark `stop`. -/
def Fits (stop : Token) (after : List Token) : Segment → Prop
  | item i => i.EndsBefore (after.headD stop)
  | refused _ _ => True
  | discarded begun passed fault => Failure begun (passed.headD stop) fault ∧ Passed passed after

def statement? : Segment → Option Node
  | item i => i.statement?
  | _ => none

/-- The finding about the error token of a segment. -/
def refusal? : Segment → Option Diagnostic
  | refused token _ => some ((SyntaxFault.lexical token.error).about token)
  | _ => none

/-- The finding for which the tokens of a segment are given up. -/
def failure? (stop : Token) : Segment → Option Diagnostic
  | discarded _ passed fault => some (fault.about (passed.headD stop))
  | _ => none

/-- The findings of a segment, those about its names first. -/
def reports (stop : Token) : Segment → List Diagnostic
  | item i => nameFindings i.tokens
  | refused token _ => [(SyntaxFault.lexical token.error).about token]
  | discarded begun passed fault => nameFindings begun ++ [fault.about (passed.headD stop)]

/-- The recovery of a segment before the tokens `after`. -/
def recoveries (stop : Token) (after : List Token) : Segment → List Recovery
  | discarded _ passed _ => [⟨(passed.headD stop).position, (after.headD stop).position⟩]
  | _ => []

/-- What comes of a segment before the tokens `after`. -/
def outcome (stop : Token) (after : List Token) (segment : Segment) : Derivation :=
  ⟨segment.statement?.toList, segment.reports stop, segment.recoveries stop after⟩

end Segment

/-- The segments make up the tokens `ahead` before the end mark `stop`, each where it fits. -/
inductive Tiles (stop : Token) : List Token → List Segment → Prop
  | nil : Tiles stop [] []
  | cons {segment : Segment} {after : List Token} {segments : List Segment}
      (hfits : segment.Fits stop after) (hafter : Tiles stop after segments) :
      Tiles stop (segment.tokens ++ after) (segment :: segments)

theorem Tiles.flatMap_tokens {stop : Token} {ahead : List Token} {segments : List Segment}
    (h : Tiles stop ahead segments) : ahead = segments.flatMap Segment.tokens := by
  induction h with
  | nil => rfl
  | cons hfits hafter ih => rw [List.flatMap_cons, ← ih]

/-! ## Any tokens can be cut -/

/-- Reading breaks off in a row that has a first token, which is no line break. -/
theorem Failure.exists_head {begun ahead : List Token} {stop : Token} {fault : SyntaxFault}
    (h : Failure begun (ahead.headD stop) fault) (hstop : stop.kind = .endMark) :
    ∃ first rest, begun ++ ahead = first :: rest ∧ first.kind ≠ .newline := by
  cases h with
  | @assignedLiteral value _ hvalue _ _ =>
    exact ⟨value, ahead, rfl, TokenKind.ne_of_isLiteral hvalue (by decide)⟩
  | @missingValue name operator _ hname _ _ =>
    exact ⟨name, operator :: ahead, rfl, by simp [hname]⟩
  | keyword hkind =>
    obtain ⟨first, rest, rfl⟩ := exists_cons_of_headD (by rw [hkind, hstop]; decide)
    have hkeyword : first.kind = .keyword := hkind
    exact ⟨first, rest, rfl, by simp [hkeyword]⟩
  | unexpected _ _ _ hline hend =>
    obtain ⟨first, rest, rfl⟩ := exists_cons_of_headD (by rw [hstop]; exact hend)
    exact ⟨first, rest, rfl, hline⟩

theorem Segment.tokens_ne_nil {segment : Segment} {stop : Token} {after : List Token}
    (h : segment.Fits stop after) (hstop : stop.kind = .endMark) : segment.tokens ≠ [] := by
  cases segment with
  | item i => exact i.tokens_ne_nil
  | refused token hkind => simp [Segment.tokens]
  | discarded begun passed fault =>
    obtain ⟨first, rest, hrow, -⟩ := h.1.exists_head hstop
    rw [Segment.tokens, hrow]
    exact List.cons_ne_nil first rest

theorem Tiles.eq_nil {stop : Token} {ahead : List Token} {segments : List Segment}
    (hstop : stop.kind = .endMark) (h : Tiles stop ahead segments) (hahead : ahead = []) :
    segments = [] := by
  cases h with
  | nil => rfl
  | cons hfits _ =>
    exact absurd (List.append_eq_nil_iff.mp hahead).1 (Segment.tokens_ne_nil hfits hstop)

/-- The first segment of some tokens, and what is left after it. -/
theorem exists_segment (stop token : Token) (rest : List Token) (hstop : stop.kind = .endMark)
    (hend : token.kind ≠ .endMark) :
    ∃ (segment : Segment) (after : List Token),
      token :: rest = segment.tokens ++ after ∧ segment.Fits stop after := by
  by_cases hline : token.kind = .newline
  · exact ⟨.item (.lineBreak token hline), rest, rfl, trivial⟩
  rcases statement_ways stop token rest hstop hline hend with
    herror | ⟨item, after, hsplit, -, hends⟩ | ⟨begun, ahead, fault, hsplit, hfailure⟩
  · exact ⟨.refused token herror, rest, rfl, trivial⟩
  · exact ⟨.item item, after, hsplit, hends⟩
  · obtain ⟨passed, hahead, hpassed⟩ := exists_passed_recover ahead
    refine ⟨.discarded begun passed fault, recover ahead, ?_, ?_, hpassed⟩
    · rw [hsplit, Segment.tokens, List.append_assoc, ← hahead]
    · rw [hahead, hpassed.headD_append] at hfailure
      exact hfailure

theorem exists_tiles (stop : Token) (hstop : stop.kind = .endMark) (ahead : List Token)
    (hnone : ∀ token ∈ ahead, token.kind ≠ .endMark) :
    ∃ segments, Tiles stop ahead segments := by
  -- The first segment may take any number of tokens, so the induction is on how many are left.
  induction hn : ahead.length using Nat.strongRecOn generalizing ahead with
  | ind n ih =>
    cases ahead with
    | nil => exact ⟨[], .nil⟩
    | cons token rest =>
      obtain ⟨segment, after, hsplit, hfits⟩ :=
        exists_segment stop token rest hstop (hnone token List.mem_cons_self)
      have hshorter : after.length < n := by
        have hpos := List.length_pos_iff.mpr (Segment.tokens_ne_nil hfits hstop)
        rw [← hn, hsplit, List.length_append]
        omega
      have hafter : ∀ token ∈ after, token.kind ≠ .endMark := by
        intro t ht
        exact hnone t (by rw [hsplit]; exact List.mem_append_right _ ht)
      obtain ⟨segments, htiles⟩ := ih after.length hshorter after hafter rfl
      exact ⟨segment :: segments, by rw [hsplit]; exact .cons hfits htiles⟩

/-! ## What is read is what the segments say -/

def outcome (stop : Token) : List Segment → Derivation
  | [] => .empty
  | segment :: rest =>
    segment.outcome stop (rest.flatMap Segment.tokens) ++ outcome stop rest

theorem outcome_statements (stop : Token) (segments : List Segment) :
    (outcome stop segments).statements = segments.filterMap Segment.statement? := by
  induction segments with
  | nil => rfl
  | cons segment rest ih =>
    have happend : (outcome stop (segment :: rest)).statements =
        segment.statement?.toList ++ (outcome stop rest).statements := rfl
    rw [happend, ih, List.filterMap_cons]
    cases segment.statement? with
    | none => rfl
    | some statement => rfl

theorem outcome_reports (stop : Token) (segments : List Segment) :
    (outcome stop segments).reports = segments.flatMap (Segment.reports stop) := by
  induction segments with
  | nil => rfl
  | cons segment rest ih =>
    have happend : (outcome stop (segment :: rest)).reports =
        segment.reports stop ++ (outcome stop rest).reports := rfl
    rw [happend, ih, List.flatMap_cons]

section Step

variable {stop first : Token} {rest after : List Token} {reports : List Diagnostic}

theorem readProgram_of_read {statement : Option Node} (hline : first.kind ≠ .newline)
    (h : readStatement stop (first :: rest) = ⟨.ok statement, reports, after⟩) :
    readProgram stop (first :: rest) =
      ⟨statement.toList, reports, []⟩ ++ readProgram stop after := by
  rw [readProgram_ok stop first rest statement hline (by rw [h]), h]

theorem readProgram_of_failed {d : Diagnostic} (hline : first.kind ≠ .newline)
    (h : readStatement stop (first :: rest) = ⟨.error d, reports, after⟩) :
    readProgram stop (first :: rest) =
      ⟨[], reports, [.of stop after]⟩ ++ readProgram stop (recover after) := by
  rw [readProgram_error stop first rest d hline (by rw [h]), h]

end Step

theorem readProgram_item (stop : Token) (item : Item) (after : List Token)
    (hends : item.EndsBefore (after.headD stop)) :
    readProgram stop (item.tokens ++ after) =
      (Segment.item item).outcome stop after ++ readProgram stop after := by
  cases item with
  | lineBreak mark hmark =>
    have hfindings : nameFindings [mark] = [] := by
      rw [nameFindings_of_ne_name (by simp [hmark]), nameFindings_nil]
    have houtcome : (Segment.item (.lineBreak mark hmark)).outcome stop after = .empty := by
      simp only [Segment.outcome, Segment.reports, Item.tokens, hfindings]
      rfl
    rw [houtcome]
    exact readProgram_newline stop mark after hmark
  | bare value hvalue =>
    have hline : value.kind ≠ .newline := TokenKind.ne_of_isLiteral hvalue (by decide)
    exact readProgram_of_read hline (readStatement_item stop _ after _ rfl hends)
  | assigned name operator value hname hoperator hvalue =>
    have hline : name.kind ≠ .newline := by simp [hname]
    exact readProgram_of_read hline (readStatement_item stop _ after _ rfl hends)

theorem readProgram_discarded (stop : Token) (begun passed after : List Token)
    (fault : SyntaxFault) (hstop : stop.kind = .endMark)
    (hfailure : Failure begun (passed.headD stop) fault) (hpassed : Passed passed after) :
    readProgram stop (begun ++ passed ++ after) =
      (Segment.discarded begun passed fault).outcome stop after ++ readProgram stop after := by
  have hhead := hpassed.headD_append stop
  rw [← hhead] at hfailure
  have hread := readStatement_failed stop begun (passed ++ after) fault hfailure hstop
  obtain ⟨first, rest, hrow, hline⟩ := hfailure.exists_head hstop
  rw [hrow] at hread
  rw [List.append_assoc, hrow, readProgram_of_failed hline hread, recover_of_passed hpassed,
    hpassed.recovery_eq stop, hhead]
  rfl

/-- Reading takes the first segment, and goes on after it. -/
theorem readProgram_segment (stop : Token) (segment : Segment) (after : List Token)
    (hstop : stop.kind = .endMark) (hfits : segment.Fits stop after) :
    readProgram stop (segment.tokens ++ after) =
      segment.outcome stop after ++ readProgram stop after := by
  cases segment with
  | item i => exact readProgram_item stop i after hfits
  | refused token herror =>
    have hline : token.kind ≠ .newline := by simp [herror]
    exact readProgram_of_read hline (readStatement_refused stop token after herror)
  | discarded begun passed fault =>
    exact readProgram_discarded stop begun passed after fault hstop hfits.1 hfits.2

theorem readProgram_of_tiles {stop : Token} {ahead : List Token} {segments : List Segment}
    (hstop : stop.kind = .endMark) (h : Tiles stop ahead segments) :
    readProgram stop ahead = outcome stop segments := by
  induction h with
  | nil => exact readProgram_nil stop
  | cons hfits hafter ih =>
    rw [readProgram_segment stop _ _ hstop hfits, ih, hafter.flatMap_tokens]
    rfl

/-! ## Rows of items -/

theorem tiles_items (stop : Token) (hstop : stop.kind = .endMark) (items : List Item) :
    Tiles stop (items.flatMap Item.tokens) (items.map Segment.item) := by
  induction items with
  | nil => exact .nil
  | cons item items ih =>
    rw [List.flatMap_cons, List.map_cons]
    exact @Tiles.cons stop (.item item) _ _ (item.endsBefore_items items stop hstop) ih

/-- A row of items is read as these items, and nothing but their names is judged. -/
theorem readProgram_items (stop : Token) (hstop : stop.kind = .endMark) (items : List Item) :
    (readProgram stop (items.flatMap Item.tokens)).statements =
        items.filterMap Item.statement? ∧
      (readProgram stop (items.flatMap Item.tokens)).reports =
        nameFindings (items.flatMap Item.tokens) := by
  rw [readProgram_of_tiles hstop (tiles_items stop hstop items)]
  constructor
  · rw [outcome_statements, List.filterMap_map]
    rfl
  · rw [outcome_reports, List.flatMap_map, nameFindings_flatMap]
    rfl

/-! ## The findings of segments -/

/-- Of the findings of all segments, those of a sort stand in the order of the segments that
make them, if a segment makes one at most. -/
theorem Tiles.filter_reports {stop : Token} {ahead : List Token} {segments : List Segment}
    (h : Tiles stop ahead segments) {p : Diagnostic → Bool} {finding? : Segment → Option Diagnostic}
    (hp : ∀ (segment : Segment) (after : List Token), segment.Fits stop after →
      (segment.reports stop).filter p = (finding? segment).toList) :
    (segments.flatMap (Segment.reports stop)).filter p = segments.filterMap finding? := by
  induction h with
  | nil => rfl
  | @cons segment after segments hfits hafter ih =>
    rw [List.flatMap_cons, List.filter_append, hp segment after hfits, ih, List.filterMap_cons]
    cases finding? segment with
    | none => rfl
    | some d => rfl

theorem filter_nameFindings {p : Diagnostic → Bool} (tokens : List Token)
    (hp : ∀ d : Diagnostic, d.problem.code ∈ nameCodes → p d = false) :
    (nameFindings tokens).filter p = [] := by
  rw [List.filter_eq_nil_iff]
  intro d hd
  rw [hp d (code_of_mem_nameFindings hd)]
  exact Bool.false_ne_true

theorem ne_refusal_of_nameCodes (d : Diagnostic) (h : d.problem.code ∈ nameCodes) :
    decide (d.problem.code = "P001") = false := by
  rw [decide_eq_false_iff_not]
  intro hcode
  rw [hcode] at h
  exact absurd h (by decide)

theorem ne_failure_of_nameCodes (d : Diagnostic) (h : d.problem.code ∈ nameCodes) :
    decide (d.problem.code ∈ failureCodes) = false := by
  have hdisjoint : ∀ code ∈ nameCodes, code ∉ failureCodes := by decide
  exact decide_eq_false (hdisjoint _ h)

theorem Segment.filter_refusal (segment : Segment) (stop : Token) (after : List Token)
    (h : segment.Fits stop after) :
    (segment.reports stop).filter (fun d => d.problem.code = "P001") =
      segment.refusal?.toList := by
  cases segment with
  | item i => exact filter_nameFindings i.tokens ne_refusal_of_nameCodes
  | refused token hkind =>
    exact List.filter_cons_of_pos (by simp [SyntaxFault.about, Diagnostic.about,
      SyntaxFault.lexical_code])
  | discarded begun passed fault =>
    have hcodes : ∀ code ∈ failureCodes, code ≠ "P001" := by decide
    have hcode : (fault.about (passed.headD stop)).problem.code ≠ "P001" :=
      hcodes _ h.1.code_mem
    rw [Segment.reports, List.filter_append, filter_nameFindings begun ne_refusal_of_nameCodes,
      List.nil_append]
    exact List.filter_cons_of_neg (by rw [decide_eq_true_eq]; exact hcode)

theorem Segment.filter_failure (segment : Segment) (stop : Token) (after : List Token)
    (h : segment.Fits stop after) :
    (segment.reports stop).filter (fun d => d.problem.code ∈ failureCodes) =
      (segment.failure? stop).toList := by
  cases segment with
  | item i => exact filter_nameFindings i.tokens ne_failure_of_nameCodes
  | refused token hkind =>
    have hcode : "P001" ∉ failureCodes := by decide
    exact List.filter_cons_of_neg (by simp [SyntaxFault.about, Diagnostic.about,
      SyntaxFault.lexical_code, hcode])
  | discarded begun passed fault =>
    have hcode : (fault.about (passed.headD stop)).problem.code ∈ failureCodes := h.1.code_mem
    rw [Segment.reports, List.filter_append, filter_nameFindings begun ne_failure_of_nameCodes,
      List.nil_append]
    exact List.filter_cons_of_pos (decide_eq_true hcode)

/-! ## No token is lost -/

/-- The tokens of a program are cut into segments, and what is read is what these say. -/
theorem derive_tiles (tokens : List Token) :
    ∃ segments : List Segment,
      Tiles (programEnd tokens) (programTokens tokens) segments ∧
      derive tokens = outcome (programEnd tokens) segments := by
  obtain ⟨segments, htiles⟩ := exists_tiles (programEnd tokens) (programEnd_kind tokens)
    (programTokens tokens) (fun token hmem => kind_of_mem_programTokens hmem)
  exact ⟨segments, htiles, readProgram_of_tiles (programEnd_kind tokens) htiles⟩

/-- No token is lost without a trace. The tokens of a program are, from left to right, those of
segments: items, whose statements are the children of the tree, error tokens, each reported
once, and stretches given up, each for one fault in the reading. No error token and no fault is
reported that has no segment. -/
theorem every_token_has_its_segment (tokens : List Token) :
    ∃ segments : List Segment,
      programTokens tokens = segments.flatMap Segment.tokens ∧
      Tiles (programEnd tokens) (programTokens tokens) segments ∧
      (derive tokens).children = segments.filterMap Segment.statement? ∧
      (derive tokens).reports.filter (fun d => d.problem.code = "P001") =
        segments.filterMap Segment.refusal? ∧
      (derive tokens).reports.filter (fun d => d.problem.code ∈ failureCodes) =
        segments.filterMap (Segment.failure? (programEnd tokens)) := by
  obtain ⟨segments, htiles, hderive⟩ := derive_tiles tokens
  refine ⟨segments, htiles.flatMap_tokens, htiles, ?_, ?_, ?_⟩
  · rw [hderive, Derivation.children_eq, outcome_statements]
  · rw [hderive, outcome_reports]
    exact htiles.filter_reports (fun segment after h => segment.filter_refusal _ after h)
  · rw [hderive, outcome_reports]
    exact htiles.filter_reports (fun segment after h => segment.filter_failure _ after h)

end Assay
