-- Where the findings of the parser stand, and what each says about its token.
-- A segment makes its findings at rising places within itself, and segments
-- follow each other, so no token is found fault with twice.
import Mathlib.Data.List.Forall2
import Assay.Proofs.Segments

namespace Assay

/-! ## What a finding says -/

/-- What the code of a finding says about its token, the one at an index of the tokens kept, and
about the tokens just before it. -/
def Diagnostic.Context (kept : List Token) (index : Nat) (d : Diagnostic) : Prop :=
  match d.problem.code with
  | "P001" => d.token.kind = .error ∧
      d.problem.message =
        "Lexical error: " ++ (d.token.error.map Problem.message).getD "Unrecognized character"
  | "P002" => d.token.kind = .keyword
  | "P003" => d.token.kind = .assignmentOperator ∧
      ∃ (before : Nat) (value : Token), index = before + 1 ∧ kept[before]? = some value ∧
        value.kind.isLiteral ∧ value.kind ≠ .identifier
  | "P004" => ¬ d.token.kind.isLiteral ∧
      d.token.kind ∉ [.keyword, .error, .newline, .endMark]
  | "P005" => ¬ d.token.kind.isLiteral ∧
      ∃ (before : Nat) (name operator : Token), index = before + 2 ∧
        kept[before]? = some name ∧ name.kind = .identifier ∧
        kept[before + 1]? = some operator ∧ operator.kind = .assignmentOperator
  | "P006" | "P007" | "P008" => d.token.kind = .identifier ∧
      identifierProblem? d.token.value = some d.problem
  | _ => False

/-- A finding that is true of the token at an index of the tokens kept, and stands where this
token does. -/
structure Diagnostic.Holds (kept : List Token) (index : Nat) (d : Diagnostic) : Prop where
  token_eq : kept[index]? = some d.token
  position_eq : d.position = d.token.position
  context : d.Context kept index

/-- Findings that hold at rising indices of the tokens kept, from `low` on and below `high`. -/
def Located (kept : List Token) (low high : Nat) (reports : List Diagnostic) : Prop :=
  ∃ indices : List Nat, indices.Pairwise (· < ·) ∧ (∀ i ∈ indices, low ≤ i ∧ i < high) ∧
    List.Forall₂ (Diagnostic.Holds kept) indices reports

namespace Located

variable {kept : List Token} {low middle high : Nat} {reports more : List Diagnostic}

theorem nil : Located kept low high [] :=
  ⟨[], .nil, by simp, .nil⟩

theorem single {index : Nat} {d : Diagnostic} (h : d.Holds kept index) (hlow : low ≤ index)
    (hhigh : index < high) : Located kept low high [d] := by
  refine ⟨[index], List.pairwise_singleton _ _, ?_, .cons h .nil⟩
  intro i hi
  rw [List.mem_singleton.mp hi]
  exact ⟨hlow, hhigh⟩

theorem mono {low' high' : Nat} (h : Located kept low high reports) (hlow : low' ≤ low)
    (hhigh : high ≤ high') : Located kept low' high' reports := by
  obtain ⟨indices, hrising, hbounds, hholds⟩ := h
  refine ⟨indices, hrising, ?_, hholds⟩
  intro i hi
  have hi' := hbounds i hi
  omega

theorem append (h : Located kept low middle reports) (hmore : Located kept middle high more)
    (hlow : low ≤ middle) (hhigh : middle ≤ high) : Located kept low high (reports ++ more) := by
  obtain ⟨indices, hrising, hbounds, hholds⟩ := h
  obtain ⟨others, hrising', hbounds', hholds'⟩ := hmore
  refine ⟨indices ++ others, ?_, ?_, List.rel_append hholds hholds'⟩
  · rw [List.pairwise_append]
    refine ⟨hrising, hrising', ?_⟩
    intro i hi j hj
    have hi' := hbounds i hi
    have hj' := hbounds' j hj
    omega
  · intro i hi
    rcases List.mem_append.mp hi with hi | hi
    · have hi' := hbounds i hi
      omega
    · have hi' := hbounds' i hi
      omega

end Located

/-! ## Findings about names -/

theorem getElem?_after {α : Type} (before after : List α) (x : α) :
    (before ++ x :: after)[before.length]? = some x := by
  rw [List.getElem?_append_right (Nat.le_refl _), Nat.sub_self, List.getElem?_cons_zero]

theorem Diagnostic.context_name {kept : List Token} {index : Nat} {token : Token}
    {fault : IdentifierFault} (hname : token.kind = .identifier)
    (hfault : identifierFault? token.value = some fault) :
    ((SyntaxFault.badName fault token.value).about token).Context kept index := by
  have hproblem : identifierProblem? token.value = some (fault.problem token.value) := by
    rw [identifierProblem?, hfault, Option.map_some]
  cases fault <;> exact ⟨hname, hproblem⟩

theorem located_nameReports (before after : List Token) {token : Token}
    (hname : token.kind = .identifier) :
    Located (before ++ token :: after) before.length (before.length + 1) (nameReports token) := by
  unfold nameReports
  cases hfault : identifierFault? token.value with
  | none => exact .nil
  | some fault =>
    have hholds : ((SyntaxFault.badName fault token.value).about token).Holds
        (before ++ token :: after) before.length :=
      ⟨getElem?_after before after token, rfl, Diagnostic.context_name hname hfault⟩
    exact .single hholds (Nat.le_refl _) (Nat.lt_succ_self _)

/-- The names among some tokens are found fault with where they stand. -/
theorem located_nameFindings (before tokens after : List Token) :
    Located (before ++ tokens ++ after) before.length (before ++ tokens).length
      (nameFindings tokens) := by
  induction tokens generalizing before with
  | nil => exact .nil
  | cons token tokens ih =>
    have hrest := ih (before ++ [token])
    have hsplit : before ++ [token] ++ tokens = before ++ token :: tokens := by simp
    have hlength : (before ++ [token]).length = before.length + 1 := by simp
    rw [hsplit, hlength] at hrest
    have hhigh : before.length + 1 ≤ (before ++ token :: tokens).length := by
      rw [List.length_append, List.length_cons]
      omega
    by_cases hname : token.kind = .identifier
    · rw [nameFindings_of_name hname]
      have hfirst := located_nameReports before (tokens ++ after) hname
      rw [← List.cons_append, ← List.append_assoc] at hfirst
      exact hfirst.append hrest (Nat.le_succ _) hhigh
    · rw [nameFindings_of_ne_name hname]
      exact hrest.mono (Nat.le_succ _) (Nat.le_refl _)

/-! ## Findings of a segment -/

theorem Diagnostic.context_refused {kept : List Token} {index : Nat} {token : Token}
    (h : token.kind = .error) :
    ((SyntaxFault.lexical token.error).about token).Context kept index := by
  cases herror : token.error with
  | none => exact ⟨h, by rw [SyntaxFault.about, Diagnostic.about, herror]; rfl⟩
  | some detail => exact ⟨h, by rw [SyntaxFault.about, Diagnostic.about, herror]; rfl⟩

/-- A fault for which reading breaks off is one of its token, after the tokens begun. -/
theorem Failure.context {begun : List Token} {token : Token} {fault : SyntaxFault}
    (h : Failure begun token fault) (before after : List Token) :
    (fault.about token).Context (before ++ begun ++ after) (before ++ begun).length := by
  cases h with
  | keyword hkind => exact hkind
  | unexpected hvalue hkeyword herror hline hend =>
    refine ⟨hvalue, ?_⟩
    simp only [List.mem_cons, List.not_mem_nil, or_false, not_or]
    exact ⟨hkeyword, herror, hline, hend⟩
  | @assignedLiteral value _ hvalue hname hoperator =>
    refine ⟨hoperator, before.length, value, by simp, ?_, hvalue, hname⟩
    rw [List.append_assoc]
    exact getElem?_after before after value
  | @missingValue name operator _ hname hoperator hvalue =>
    refine ⟨hvalue, before.length, name, operator, by simp, ?_, hname, ?_, hoperator⟩
    · rw [List.append_assoc]
      exact getElem?_after before (operator :: after) name
    · simp

theorem Failure.located {begun passed after : List Token} {stop : Token} {fault : SyntaxFault}
    (h : Failure begun (passed.headD stop) fault) (before beyond : List Token)
    (hafter : passed = [] → after = []) :
    Located (before ++ begun ++ (passed ++ after ++ stop :: beyond)) before.length
      ((before ++ begun).length + 1)
      (nameFindings begun ++ [fault.about (passed.headD stop)]) := by
  have hat : (before ++ begun ++ (passed ++ after ++ stop :: beyond))[(before ++ begun).length]? =
      some (passed.headD stop) := by
    cases passed with
    | nil => rw [hafter rfl]; exact getElem?_after (before ++ begun) beyond stop
    | cons first passed => exact getElem?_after (before ++ begun) _ first
  have hholds : (fault.about (passed.headD stop)).Holds
      (before ++ begun ++ (passed ++ after ++ stop :: beyond)) (before ++ begun).length :=
    ⟨hat, rfl, h.context before _⟩
  have hnames := located_nameFindings before begun (passed ++ after ++ stop :: beyond)
  exact hnames.append (.single hholds (Nat.le_refl _) (Nat.lt_succ_self _)) (by simp)
    (Nat.le_succ _)

section Segment

variable {stop : Token} {after : List Token} {segment : Segment}

/-- The findings of a segment stand within it, one at the end mark apart, and this one only if
nothing comes after the segment. -/
theorem Segment.located (hfits : segment.Fits stop after) (before beyond : List Token) {high : Nat}
    (hwithin : (before ++ segment.tokens).length ≤ high)
    (hlast : after = [] → (before ++ segment.tokens).length < high) :
    Located (before ++ segment.tokens ++ (after ++ stop :: beyond)) before.length high
      (segment.reports stop) := by
  cases segment with
  | item i => exact (located_nameFindings before i.tokens _).mono (Nat.le_refl _) hwithin
  | refused token hkind =>
    have hrow : before ++ [token] ++ (after ++ stop :: beyond) =
        before ++ token :: (after ++ stop :: beyond) := by simp
    have hholds : ((SyntaxFault.lexical token.error).about token).Holds
        (before ++ [token] ++ (after ++ stop :: beyond)) before.length := by
      refine ⟨?_, rfl, Diagnostic.context_refused hkind⟩
      rw [hrow]
      exact getElem?_after before _ token
    rw [Segment.tokens, List.length_append] at hwithin
    exact .single hholds (Nat.le_refl _) hwithin
  | discarded begun passed fault =>
    obtain ⟨hfailure, hpassed⟩ := hfits
    have hlocated := hfailure.located before beyond hpassed.moves
    have hrow : before ++ (begun ++ passed) ++ (after ++ stop :: beyond) =
        before ++ begun ++ (passed ++ after ++ stop :: beyond) := by simp
    simp only [Segment.tokens] at hwithin hlast ⊢
    rw [hrow]
    refine hlocated.mono (Nat.le_refl _) ?_
    -- The fault is at a token passed, or else at the end mark after everything.
    cases passed with
    | nil =>
      have hlt := hlast (hpassed.moves rfl)
      rw [List.append_nil] at hlt
      exact hlt
    | cons first passed =>
      simp only [List.length_append, List.length_cons] at hwithin ⊢
      omega

end Segment

/-- Segments one after the other make their findings one after the other. -/
theorem Tiles.located {stop : Token} {ahead : List Token} {segments : List Segment}
    (hstop : stop.kind = .endMark) (h : Tiles stop ahead segments) (before beyond : List Token) :
    Located (before ++ ahead ++ stop :: beyond) before.length ((before ++ ahead).length + 1)
      (segments.flatMap (Segment.reports stop)) := by
  induction h generalizing before with
  | nil => exact .nil
  | @cons segment after segments hfits hafter ih =>
    have hrest := ih (before ++ segment.tokens)
    rw [List.append_assoc (before ++ segment.tokens)] at hrest
    rw [← List.append_assoc before, List.append_assoc (before ++ segment.tokens), List.flatMap_cons]
    have hwithin : (before ++ segment.tokens).length ≤
        (before ++ segment.tokens ++ after).length + 1 := by
      have hlength : (before ++ segment.tokens ++ after).length =
          (before ++ segment.tokens).length + after.length := List.length_append
      omega
    cases hafter with
    | nil =>
      have hfirst := segment.located hfits before beyond hwithin (fun _ => by simp)
      rw [List.flatMap_nil, List.append_nil (segment.reports stop)]
      exact hfirst
    | @cons next after segments hfits' hafter' =>
      have hne : next.tokens ++ after ≠ [] := by
        intro hnil
        exact Segment.tokens_ne_nil hfits' hstop (List.append_eq_nil_iff.mp hnil).1
      have hfirst := segment.located hfits before beyond (Nat.le_refl _) (fun h => absurd h hne)
      refine hfirst.append hrest ?_ hwithin
      rw [List.length_append]
      omega

/-! ## The law -/

/-- The tokens kept before some index hold no end mark, if the index is not past the first. -/
theorem take_keptTokens_ne_endMark (tokens : List Token) {index : Nat}
    (h : index ≤ (programTokens tokens).length) :
    ∀ token ∈ (keptTokens tokens).take index, token.kind ≠ .endMark := by
  rw [keptTokens_eq, List.take_append_of_le_length h]
  intro token hmem
  exact kind_of_mem_programTokens (List.mem_of_mem_take hmem)

/-- The findings of the parser stand in order, each at its own token, none past the first end
mark, and each is true of its token and of the tokens before it. -/
theorem findings_stand_in_order_and_hold (tokens : List Token) :
    ∃ indices : List Nat, indices.Pairwise (· < ·) ∧
      (∀ index ∈ indices, ∀ token ∈ (keptTokens tokens).take index, token.kind ≠ .endMark) ∧
      List.Forall₂ (Diagnostic.Holds (keptTokens tokens)) indices (derive tokens).reports := by
  obtain ⟨segments, htiles, hderive⟩ := derive_tiles tokens
  obtain ⟨indices, hrising, hbounds, hholds⟩ :=
    htiles.located (programEnd_kind tokens) [] (Tape.ofTokens tokens).beyond
  rw [List.nil_append, ← keptTokens_eq] at hholds
  refine ⟨indices, hrising, ?_, ?_⟩
  · intro index hindex
    have hlt := (hbounds index hindex).2
    exact take_keptTokens_ne_endMark tokens (Nat.lt_succ_iff.mp hlt)
  · rw [hderive, outcome_reports]
    exact hholds

/-- A hand-made error token without a problem of its own. -/
def bareErrorTokens : List Token :=
  [⟨.error, "$", ⟨1, 1⟩, none⟩]

/-- The finding about an error token does not always repeat a message of that token: there may be
none. -/
theorem a_bare_error_token_has_no_message_to_repeat :
    ¬ ∀ d ∈ (derive bareErrorTokens).reports, d.problem.code = "P001" →
      ∃ detail, d.token.error = some detail ∧
        d.problem.message = "Lexical error: " ++ detail.message := by
  decide +kernel

end Assay
