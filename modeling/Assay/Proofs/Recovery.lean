-- What a recovery passes: the token where reading broke off, and after it no
-- value and nothing beyond a line break, up to the first safe place.
import Assay.Reading.Recovery

namespace Assay

/-- The tokens `passed` are what a recovery passes before the tokens `after`. Where nothing is
left to pass, nothing is left at all. -/
structure Passed (passed after : List Token) : Prop where
  moves : passed = [] → after = []
  no_value : ∀ token ∈ passed.tail, ¬ token.kind.isLiteral
  newline_last : ∀ token ∈ passed.dropLast, token.kind ≠ .newline
  safe : after = [] ∨ (∃ next ∈ after.head?, next.kind.isLiteral) ∨
    ∃ last ∈ passed.getLast?, last.kind = .newline

namespace Passed

theorem nil : Passed [] [] :=
  ⟨fun _ => rfl, by simp, by simp, Or.inl rfl⟩

/-- A token that is no line break can be put before the passed ones, if the first of these is
no value. -/
theorem cons {before token : Token} {passed after : List Token}
    (hbefore : before.kind ≠ .newline) (htoken : ¬ token.kind.isLiteral)
    (h : Passed (token :: passed) after) : Passed (before :: token :: passed) after := by
  refine ⟨by simp, ?_, ?_, ?_⟩
  · intro t ht
    rcases List.mem_cons.mp ht with rfl | hmem
    · exact htoken
    · exact h.no_value t hmem
  · intro t ht
    rw [List.dropLast_cons_cons] at ht
    rcases List.mem_cons.mp ht with rfl | hmem
    · exact hbefore
    · exact h.newline_last t hmem
  · rw [List.getLast?_cons_cons]
    exact h.safe

theorem of_cons {before token : Token} {passed after : List Token}
    (h : Passed (before :: token :: passed) after) : Passed (token :: passed) after := by
  refine ⟨by simp, ?_, ?_, ?_⟩
  · intro t ht
    exact h.no_value t (List.mem_cons_of_mem _ ht)
  · intro t ht
    exact h.newline_last t (by rw [List.dropLast_cons_cons]; exact List.mem_cons_of_mem _ ht)
  · have hsafe := h.safe
    rw [List.getLast?_cons_cons] at hsafe
    exact hsafe

end Passed

/-! ## Recovery passes these tokens and no others -/

theorem exists_passed_safeFrom (before : Token) (tokens : List Token) :
    ∃ passed, tokens = passed ++ safeFrom before tokens ∧
      Passed (before :: passed) (safeFrom before tokens) := by
  induction tokens generalizing before with
  | nil => exact ⟨[], rfl, by simp, by simp, by simp, Or.inl rfl⟩
  | cons token rest ih =>
    unfold safeFrom
    by_cases hsafe : before.kind = .newline ∨ token.kind.isLiteral
    · rw [if_pos hsafe]
      refine ⟨[], rfl, by simp, by simp, by simp, ?_⟩
      rcases hsafe with hline | hvalue
      · exact Or.inr (Or.inr ⟨before, rfl, hline⟩)
      · exact Or.inr (Or.inl ⟨token, rfl, hvalue⟩)
    · rw [if_neg hsafe]
      obtain ⟨hline, hvalue⟩ := not_or.mp hsafe
      obtain ⟨passed, hsplit, hpassed⟩ := ih token
      refine ⟨token :: passed, ?_, hpassed.cons hline hvalue⟩
      rw [List.cons_append, ← hsplit]

theorem safeFrom_of_passed {before : Token} {passed after : List Token}
    (h : Passed (before :: passed) after) : safeFrom before (passed ++ after) = after := by
  induction passed generalizing before with
  | nil =>
    cases after with
    | nil => rfl
    | cons next rest =>
      unfold safeFrom
      rcases h.safe with hnil | ⟨token, hhead, hvalue⟩ | ⟨last, hlast, hline⟩
      · cases hnil
      · cases hhead
        exact if_pos (Or.inr hvalue)
      · cases hlast
        exact if_pos (Or.inl hline)
  | cons token passed ih =>
    have hline : before.kind ≠ .newline :=
      h.newline_last before (by rw [List.dropLast_cons_cons]; exact List.mem_cons_self)
    have hvalue : ¬ token.kind.isLiteral := h.no_value token List.mem_cons_self
    rw [List.cons_append, safeFrom, if_neg (not_or.mpr ⟨hline, hvalue⟩)]
    exact ih h.of_cons

theorem exists_passed_recover (ahead : List Token) :
    ∃ passed, ahead = passed ++ recover ahead ∧ Passed passed (recover ahead) := by
  cases ahead with
  | nil => exact ⟨[], rfl, Passed.nil⟩
  | cons token rest =>
    obtain ⟨passed, hsplit, hpassed⟩ := exists_passed_safeFrom token rest
    refine ⟨token :: passed, ?_, hpassed⟩
    rw [List.cons_append, recover, ← hsplit]

theorem recover_of_passed {passed after : List Token} (h : Passed passed after) :
    recover (passed ++ after) = after := by
  cases passed with
  | nil =>
    rw [h.moves rfl]
    rfl
  | cons token passed => exact safeFrom_of_passed h

/-- The first token that a recovery meets, be it the end mark. -/
theorem Passed.headD_append {passed after : List Token} (h : Passed passed after) (stop : Token) :
    (passed ++ after).headD stop = passed.headD stop := by
  cases passed with
  | nil => rw [h.moves rfl, List.nil_append]
  | cons token passed => rfl

/-- The record of a recovery that passes some tokens. -/
theorem Passed.recovery_eq {passed after : List Token} (h : Passed passed after) (stop : Token) :
    Recovery.of stop (passed ++ after) =
      ⟨(passed.headD stop).position, (after.headD stop).position⟩ := by
  rw [Recovery.of, recover_of_passed h, h.headD_append]

end Assay
