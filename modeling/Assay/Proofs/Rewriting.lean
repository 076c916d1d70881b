-- The parser goes by the kinds of tokens, and beyond that it has a use only for
-- the texts of words and signs and for the problems of error tokens. A change
-- of the tokens that keeps these is found again in the tree and the findings.
import Mathlib.Data.List.Basic
import Assay.Proofs.Segments

namespace Assay

/-! ## Rewritings -/

/-- A change of tokens that leaves their kinds, and the changes of trees and of findings that go
with it. -/
structure Rewriting where
  token : Token → Token
  node : Node → Node
  finding : Diagnostic → Diagnostic
  token_kind (t : Token) : (token t).kind = t.kind
  node_leafOf (t : Token) (h : t.kind.isLiteral) (h' : (token t).kind.isLiteral) :
    node (Node.leafOf t h) = Node.leafOf (token t) h'
  node_assignment (name : Token) (value : Node) (h : name.kind = .identifier) :
    node (Node.assignment name value) = Node.assignment (token name) (node value)
  finding_about (t : Token) (problem : Problem) :
    finding (.about t problem) = .about (token t) problem

namespace Rewriting

attribute [simp] token_kind

/-- The parser sees no change in a token: its problem is the same, and so is its text, unless it
is one that the parser has no use for. -/
structure Keeps (r : Rewriting) (t : Token) : Prop where
  error_eq : (r.token t).error = t.error
  value_eq : t.kind ∉ [.newline, .string, .error] → (r.token t).value = t.value

variable (r : Rewriting)

theorem headD_map (tokens : List Token) (stop : Token) :
    (tokens.map r.token).headD (r.token stop) = r.token (tokens.headD stop) := by
  cases tokens with
  | nil => rfl
  | cons token rest => rfl

/-! ## Items -/

def item : Item → Item
  | .lineBreak mark h => .lineBreak (r.token mark) (by rw [token_kind]; exact h)
  | .bare value h => .bare (r.token value) (by rw [token_kind]; exact h)
  | .assigned name operator value hname hoperator hvalue =>
    .assigned (r.token name) (r.token operator) (r.token value) (by rw [token_kind]; exact hname)
      (by rw [token_kind]; exact hoperator) (by rw [token_kind]; exact hvalue)

theorem tokens_item (i : Item) : (r.item i).tokens = i.tokens.map r.token := by
  cases i <;> rfl

theorem statement?_item (i : Item) : (r.item i).statement? = i.statement?.map r.node := by
  cases i with
  | lineBreak mark hmark => rfl
  | bare value hvalue => exact congrArg some (r.node_leafOf value hvalue _).symm
  | assigned name operator value hname hoperator hvalue =>
    simp only [item, Item.statement?_assigned, Option.map_some, r.node_assignment name _ hname]
    rw [r.node_leafOf]

theorem endsBefore_item {i : Item} {next : Token} (h : i.EndsBefore next) :
    (r.item i).EndsBefore (r.token next) := by
  cases i with
  | lineBreak mark hmark => trivial
  | bare value hvalue =>
    show (r.token next).kind ≠ _
    rw [token_kind]
    exact h
  | assigned name operator value hname hoperator hvalue => trivial

/-! ## Segments -/

variable {r}

/-- The names among the tokens are found fault with as before. -/
theorem nameFindings_map {tokens : List Token} (h : ∀ token ∈ tokens, r.Keeps token) :
    nameFindings (tokens.map r.token) = (nameFindings tokens).map r.finding := by
  induction tokens with
  | nil => rfl
  | cons token rest ih =>
    have hrest := ih (fun other hmem => h other (List.mem_cons_of_mem _ hmem))
    rw [List.map_cons]
    by_cases hname : token.kind = .identifier
    · have hvalue : (r.token token).value = token.value :=
        (h token List.mem_cons_self).value_eq (by simp [hname])
      have hreports : nameReports (r.token token) = (nameReports token).map r.finding := by
        unfold nameReports
        rw [hvalue]
        cases identifierFault? token.value with
        | none => rfl
        | some fault => simp [SyntaxFault.about, r.finding_about]
      rw [nameFindings_of_name hname, nameFindings_of_name (by simpa using hname), List.map_append,
        hreports, hrest]
    · rw [nameFindings_of_ne_name hname, nameFindings_of_ne_name (by simpa using hname), hrest]

/-- Reading breaks off at the same place, with the same fault. -/
theorem failure {begun : List Token} {token : Token} {fault : SyntaxFault}
    (h : Failure begun token fault) (hkeeps : r.Keeps token) :
    Failure (begun.map r.token) (r.token token) fault := by
  cases h with
  | keyword hkind =>
    rw [← hkeeps.value_eq (by simp [hkind])]
    exact .keyword (by simpa using hkind)
  | unexpected hvalue hkeyword herror hline hend =>
    have hstring : token.kind ≠ .string := TokenKind.ne_of_not_isLiteral hvalue rfl
    rw [← hkeeps.value_eq (by simp [herror, hline, hstring]), ← r.token_kind token]
    exact .unexpected (by simpa using hvalue) (by simpa using hkeyword) (by simpa using herror)
      (by simpa using hline) (by simpa using hend)
  | assignedLiteral hvalue hname hoperator =>
    exact .assignedLiteral (by simpa using hvalue) (by simpa using hname) (by simpa using hoperator)
  | missingValue hname hoperator hvalue =>
    exact .missingValue (by simpa using hname) (by simpa using hoperator) (by simpa using hvalue)

theorem passed {passed after : List Token} (h : Passed passed after) :
    Passed (passed.map r.token) (after.map r.token) := by
  refine ⟨?_, ?_, ?_, ?_⟩
  · intro hnil
    rw [h.moves (List.map_eq_nil_iff.mp hnil), List.map_nil]
  · intro token hmem
    rw [← List.map_tail] at hmem
    obtain ⟨other, hother, rfl⟩ := List.mem_map.mp hmem
    simpa using h.no_value other hother
  · intro token hmem
    rw [← List.map_dropLast] at hmem
    obtain ⟨other, hother, rfl⟩ := List.mem_map.mp hmem
    simpa using h.newline_last other hother
  · rcases h.safe with hnil | ⟨next, hnext, hvalue⟩ | ⟨last, hlast, hline⟩
    · exact Or.inl (List.map_eq_nil_iff.mpr hnil)
    · refine Or.inr (Or.inl ⟨r.token next, ?_, by simpa using hvalue⟩)
      rw [List.head?_map, Option.mem_def.mp hnext]
      rfl
    · refine Or.inr (Or.inr ⟨r.token last, ?_, by simpa using hline⟩)
      rw [List.getLast?_map, Option.mem_def.mp hlast]
      rfl

variable (r) in
def segment : Segment → Segment
  | .item i => .item (r.item i)
  | .refused token h => .refused (r.token token) (by rw [token_kind]; exact h)
  | .discarded begun passed fault =>
    .discarded (begun.map r.token) (passed.map r.token) fault

theorem tokens_segment (s : Segment) : (r.segment s).tokens = s.tokens.map r.token := by
  cases s with
  | item i => exact r.tokens_item i
  | refused token hkind => rfl
  | discarded begun passed fault => rw [segment, Segment.tokens, Segment.tokens, List.map_append]

theorem statement?_segment (s : Segment) :
    (r.segment s).statement? = s.statement?.map r.node := by
  cases s with
  | item i => exact r.statement?_item i
  | refused token hkind => rfl
  | discarded begun passed fault => rfl

section Segment

variable {stop : Token} {after : List Token} {s : Segment}

theorem fits_segment (h : s.Fits stop after) (hstop : r.Keeps stop)
    (hkeeps : ∀ token ∈ s.tokens, r.Keeps token) :
    (r.segment s).Fits (r.token stop) (after.map r.token) := by
  cases s with
  | item i =>
    show (r.item i).EndsBefore _
    rw [headD_map]
    exact r.endsBefore_item h
  | refused token hkind => trivial
  | discarded begun passed fault =>
    obtain ⟨hfailure, hpassed⟩ := h
    refine ⟨?_, Rewriting.passed hpassed⟩
    rw [headD_map]
    apply failure hfailure
    cases passed with
    | nil => exact hstop
    | cons first rest => exact hkeeps first (List.mem_append_right _ List.mem_cons_self)

theorem reports_segment (hkeeps : ∀ token ∈ s.tokens, r.Keeps token) :
    (r.segment s).reports (r.token stop) = (s.reports stop).map r.finding := by
  cases s with
  | item i =>
    have hnames := nameFindings_map hkeeps
    rw [Segment.tokens, ← r.tokens_item] at hnames
    exact hnames
  | refused token hkind =>
    have herror := (hkeeps token List.mem_cons_self).error_eq
    simp only [segment, Segment.reports, SyntaxFault.about, herror, List.map_cons, List.map_nil,
      r.finding_about]
  | discarded begun passed fault =>
    have hnames := nameFindings_map
      (fun token hmem => hkeeps token (List.mem_append_left passed hmem))
    simp only [segment, Segment.reports, SyntaxFault.about, hnames, headD_map, List.map_append,
      List.map_cons, List.map_nil, r.finding_about]

/-- Recoveries are records of places. -/
theorem recoveries_segment (hplace : ∀ token, (r.token token).position = token.position) :
    (r.segment s).recoveries (r.token stop) (after.map r.token) = s.recoveries stop after := by
  cases s with
  | item i => rfl
  | refused token hkind => rfl
  | discarded begun passed fault =>
    simp only [segment, Segment.recoveries, headD_map, hplace]

end Segment

/-! ## Programs -/

theorem tiles {stop : Token} {ahead : List Token} {segments : List Segment}
    (h : Tiles stop ahead segments) (hstop : r.Keeps stop)
    (hkeeps : ∀ token ∈ ahead, r.Keeps token) :
    Tiles (r.token stop) (ahead.map r.token) (segments.map r.segment) := by
  induction h with
  | nil => exact .nil
  | @cons segment after segments hfits hafter ih =>
    have hfirst : ∀ token ∈ segment.tokens, r.Keeps token := fun token hmem =>
      hkeeps token (List.mem_append_left _ hmem)
    have hrest := ih (fun token hmem => hkeeps token (List.mem_append_right _ hmem))
    rw [List.map_append, ← tokens_segment, List.map_cons]
    exact .cons (fits_segment hfits hstop hfirst) hrest

/-- What a derivation says after the change is what it said before, changed. Its recoveries are the
same if no token has moved. -/
structure Carries (r : Rewriting) (before after : Derivation) : Prop where
  statements_eq : after.statements = before.statements.map r.node
  reports_eq : after.reports = before.reports.map r.finding
  recoveries_eq : (∀ token, (r.token token).position = token.position) →
    after.recoveries = before.recoveries

theorem Carries.tree?_eq {before after : Derivation} (h : r.Carries before after) :
    after.tree? = if before.statements.isEmpty then none
      else some (Node.program (before.statements.map r.node)) := by
  rw [Derivation.tree?, h.statements_eq]
  cases before.statements with
  | nil => rfl
  | cons statement rest => rfl

theorem carries_outcome (stop : Token) (segments : List Segment)
    (hkeeps : ∀ token ∈ segments.flatMap Segment.tokens, r.Keeps token) :
    r.Carries (outcome stop segments) (outcome (r.token stop) (segments.map r.segment)) := by
  induction segments with
  | nil => exact ⟨rfl, rfl, fun _ => rfl⟩
  | cons segment rest ih =>
    rw [List.flatMap_cons] at hkeeps
    obtain ⟨hstatements, hreports, hrecoveries⟩ :=
      ih (fun token hmem => hkeeps token (List.mem_append_right _ hmem))
    have hfirst : ∀ token ∈ segment.tokens, r.Keeps token := fun token hmem =>
      hkeeps token (List.mem_append_left _ hmem)
    have htokens : (rest.map r.segment).flatMap Segment.tokens =
        (rest.flatMap Segment.tokens).map r.token := by
      rw [List.flatMap_map, List.map_flatMap]
      exact List.flatMap_congr fun other _ => tokens_segment other
    rw [List.map_cons, outcome, outcome, htokens]
    refine ⟨?_, ?_, ?_⟩
    · show (r.segment segment).statement?.toList ++ _ = (segment.statement?.toList ++ _).map r.node
      rw [statement?_segment, hstatements, List.map_append]
      cases segment.statement? <;> rfl
    · show (r.segment segment).reports _ ++ _ = (segment.reports stop ++ _).map r.finding
      rw [reports_segment hfirst, hreports, List.map_append]
    · intro hplace
      show (r.segment segment).recoveries _ _ ++ _ = segment.recoveries stop _ ++ _
      rw [recoveries_segment hplace, hrecoveries hplace]

theorem carries_readProgram {stop : Token} {ahead : List Token} (hstop : stop.kind = .endMark)
    (hnone : ∀ token ∈ ahead, token.kind ≠ .endMark)
    (hkeeps : ∀ token ∈ ahead ++ [stop], r.Keeps token) :
    r.Carries (readProgram stop ahead) (readProgram (r.token stop) (ahead.map r.token)) := by
  have hahead : ∀ token ∈ ahead, r.Keeps token := fun token hmem =>
    hkeeps token (List.mem_append_left _ hmem)
  have hmark : r.Keeps stop := hkeeps stop (List.mem_append_right _ (List.mem_singleton_self _))
  obtain ⟨segments, htiles⟩ := exists_tiles stop hstop ahead hnone
  have hstop' : (r.token stop).kind = .endMark := by rw [token_kind, hstop]
  rw [readProgram_of_tiles hstop htiles, readProgram_of_tiles hstop' (tiles htiles hmark hahead)]
  apply carries_outcome
  rw [← htiles.flatMap_tokens]
  exact hahead

/-- A stream that ends with its mark is read after the change as before, but for the change. -/
theorem carries_derive {tokens : List Token} {mark : Token} (hmark : mark.kind = .endMark)
    (hnone : ∀ token ∈ tokens, token.kind ≠ .endMark)
    (hkeeps : ∀ token ∈ tokens ++ [mark], r.Keeps token) :
    r.Carries (derive (tokens ++ [mark])) (derive ((tokens ++ [mark]).map r.token)) := by
  have hother : ∀ token ∈ tokens.map r.token, token.kind ≠ .endMark := by
    intro token hmem
    obtain ⟨other, hother, rfl⟩ := List.mem_map.mp hmem
    rw [token_kind]
    exact hnone other hother
  have hmark' : (r.token mark).kind = .endMark := by rw [token_kind, hmark]
  have hfilter : (tokens.map r.token).filter (fun token => !token.kind.isTrivia) =
      (tokens.filter (fun token => !token.kind.isTrivia)).map r.token := by
    rw [List.filter_map]
    refine congrArg (List.map r.token) (List.filter_congr fun token _ => ?_)
    rw [Function.comp_apply, token_kind]
  rw [List.map_append, List.map_singleton, derive_eq, derive_eq,
    programTokens_append_mark hmark' hother, programEnd_append_mark hmark' hother,
    programTokens_append_mark hmark hnone, programEnd_append_mark hmark hnone, hfilter]
  apply carries_readProgram hmark
  · intro token hmem
    exact hnone token (List.mem_filter.mp hmem).1
  · intro token hmem
    apply hkeeps
    rcases List.mem_append.mp hmem with hkept | hend
    · exact List.mem_append_left _ (List.mem_filter.mp hkept).1
    · exact List.mem_append_right _ hend

end Rewriting

end Assay
