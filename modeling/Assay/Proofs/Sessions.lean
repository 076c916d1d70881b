-- Several runs over one text share one scanner. After any steps in any order
-- the scanner stands where a lone one stands after some number of tokens, so
-- a run that goes on from there gives the next token of the text, whoever
-- moved the scanner to this place.
import Mathlib.Logic.Function.Iterate
import Assay.Proofs.Places

namespace Assay

/-! ## A scanner on its own -/

namespace Scanner

/-- The scanner one token on. At the end of the text it stays. -/
def advance (scanner : Scanner) : Scanner :=
  (scanner.next?.map Prod.snd).getD scanner

/-- A scanner that has read this many tokens of the text, from the start. -/
def after (source : String) (count : Nat) : Scanner :=
  advance^[count] (ofSource source)

theorem advance_of_next {scanner next : Scanner} {token : Token}
    (h : scanner.next? = some (token, next)) : scanner.advance = next := by
  rw [advance, h]
  rfl

theorem advance_of_end {scanner : Scanner} (h : scanner.next? = none) :
    scanner.advance = scanner := by
  rw [advance, h]
  rfl

/-- The steps of a scanner give the tokens to which it comes, one after the other. -/
theorem next?_iterate (scanner : Scanner) (count : Nat) :
    (advance^[count] scanner).next? =
      scanner.drain.1[count]?.map (fun token => (token, advance^[count + 1] scanner)) := by
  induction count generalizing scanner with
  | zero =>
    cases h : scanner.next? with
    | none => rw [Function.iterate_zero_apply, h, drain_of_end h]; rfl
    | some pair =>
      obtain ⟨token, next⟩ := pair
      rw [Function.iterate_zero_apply, h, drain_of_next h, Function.iterate_one,
        advance_of_next h]
      rfl
  | succ count ih =>
    rw [Function.iterate_succ_apply, ih, Function.iterate_succ_apply _ (count + 1)]
    cases h : scanner.next? with
    | none => rw [advance_of_end h, drain_of_end h]; rfl
    | some pair =>
      obtain ⟨token, next⟩ := pair
      rw [advance_of_next h, drain_of_next h, List.getElem?_cons_succ]

theorem drain_snd (scanner : Scanner) :
    scanner.drain.2 = advance^[scanner.drain.1.length] scanner := by
  fun_induction drain scanner with
  | case1 scanner h => rfl
  | case2 scanner token next h later ih =>
    rw [List.length_cons, Function.iterate_succ_apply, advance_of_next h]
    exact ih

theorem drain_ofSource (source : String) :
    (ofSource source).drain =
      (scan source, ⟨source, [], source.length, endOf source, (Assay.tokenize source).errors⟩) := by
  rw [ofSource, drain_eq, Nat.zero_add, String.length_toList]
  rfl

theorem next?_after (source : String) (count : Nat) :
    (after source count).next? =
      (scan source)[count]?.map (fun token => (token, after source (count + 1))) := by
  have h := next?_iterate (ofSource source) count
  rw [drain_ofSource] at h
  exact h

/-- A scanner that has read all tokens stands at the end of the text, with all errors. -/
theorem after_scan (source : String) :
    after source (scan source).length =
      ⟨source, [], source.length, endOf source, (Assay.tokenize source).errors⟩ := by
  have h := drain_snd (ofSource source)
  rw [drain_ofSource] at h
  exact h.symm

theorem source_after (source : String) (count : Nat) : (after source count).source = source := by
  have hadvance : ∀ scanner : Scanner, scanner.advance.source = scanner.source := by
    intro scanner
    unfold advance next?
    split
    · rfl
    · rfl
  induction count with
  | zero => rfl
  | succ count ih =>
    rw [after, Function.iterate_succ_apply', hadvance]
    exact ih

theorem rewind_after (source : String) (count : Nat) :
    (after source count).rewind = after source 0 := by
  rw [rewind, source_after]
  rfl

/-- To read a text anew gives its stream, wherever the scanner was, and leaves it at the end. -/
theorem tokenize_eq (scanner : Scanner) :
    scanner.tokenize =
      (Assay.tokenize scanner.source,
        ⟨scanner.source, [], scanner.source.length, endOf scanner.source,
          (Assay.tokenize scanner.source).errors⟩) := by
  rw [Scanner.tokenize, rewind, drain_ofSource]
  rfl

theorem tokenize_after (source : String) (count : Nat) :
    (after source count).tokenize = (Assay.tokenize source, after source (scan source).length) := by
  rw [tokenize_eq, source_after, after_scan]

end Scanner

/-! ## Sessions and their histories -/

/-- What can be done with a session. -/
inductive ScanStep where
  | tokenize
  | openRun
  | next (number : Nat)

/-- A session, and what each of its runs has given so far, oldest first. -/
structure ScanHistory where
  session : ScanSession
  answers : List (List (Option Token))

namespace ScanHistory

def step (history : ScanHistory) : ScanStep → ScanHistory
  | .tokenize => { history with session := history.session.tokenize.2 }
  | .openRun => ⟨history.session.openRun.2, history.answers ++ [[]]⟩
  | .next number =>
    let (answer, session) := history.session.next number
    ⟨session, history.answers.modify number (· ++ [answer])⟩

/-- The history of a fresh session over a text after some steps. -/
def after (source : String) (steps : List ScanStep) : ScanHistory :=
  steps.foldl step ⟨.ofSource source, []⟩

end ScanHistory

/-- Where a run is after what it has given: it has ended once it has given nothing. -/
def ScanRun.ofAnswers (answers : List (Option Token)) : ScanRun :=
  if answers = [] then .fresh else if none ∈ answers then .ended else .started

/-- What a run gives where some number of tokens has been read, and the session after that: the
next token, or the end of the run, with the scanner left where it is. -/
def ScanSession.readAt (source : String) (runs : List ScanRun) (number count : Nat) :
    Option Token × ScanSession :=
  match (scan source)[count]? with
  | some token => (some token, ⟨.after source (count + 1), runs.set number .started⟩)
  | none => (none, ⟨.after source count, runs.set number .ended⟩)

theorem ScanSession.stepFrom_after (session : ScanSession) (source : String) (number count : Nat) :
    session.stepFrom (.after source count) number = readAt source session.runs number count := by
  unfold stepFrom readAt
  rw [Scanner.next?_after]
  cases (scan source)[count]? with
  | none => rfl
  | some token => rfl

theorem ScanRun.ofAnswers_snoc (answers : List (Option Token)) (answer : Option Token) :
    ofAnswers (answers ++ [answer]) =
      if none ∈ answers ∨ answer = none then .ended else .started := by
  unfold ofAnswers
  rw [if_neg (by simp)]
  simp [eq_comm]

/-! ## What one step keeps -/

namespace ScanHistory

/-- The scanner of the session has read `count` tokens of the text, and every run is where its
answers say. -/
structure StandsAt (source : String) (history : ScanHistory) (count : Nat) : Prop where
  within : count ≤ (scan source).length
  scanner_eq : history.session.scanner = .after source count
  runs_eq : history.session.runs = history.answers.map ScanRun.ofAnswers

variable {source : String} {history : ScanHistory} {count : Nat}

namespace StandsAt

theorem runs_getElem? (h : history.StandsAt source count) (number : Nat) :
    history.session.runs[number]? = history.answers[number]?.map ScanRun.ofAnswers := by
  rw [h.runs_eq, List.getElem?_map]

/-- The three ways in which a run goes on: from the start of the text, from where the scanner
is, or not at all. -/
theorem next_eq (h : history.StandsAt source count) {number : Nat} {answers : List (Option Token)}
    (hanswers : history.answers[number]? = some answers) :
    (answers = [] →
      history.session.next number = ScanSession.readAt source history.session.runs number 0) ∧
    (answers ≠ [] → none ∉ answers →
      history.session.next number = ScanSession.readAt source history.session.runs number count) ∧
    (none ∈ answers → history.session.next number = (none, history.session)) := by
  have hrun := h.runs_getElem? number
  rw [hanswers, Option.map_some] at hrun
  refine ⟨?_, ?_, ?_⟩
  · rintro rfl
    unfold ScanSession.next
    rw [hrun, ScanRun.ofAnswers, if_pos rfl]
    simp only
    rw [h.scanner_eq, Scanner.rewind_after, ScanSession.stepFrom_after]
  · intro hne hnone
    unfold ScanSession.next
    rw [hrun, ScanRun.ofAnswers, if_neg hne, if_neg hnone]
    simp only
    rw [h.scanner_eq, ScanSession.stepFrom_after]
  · intro hnone
    unfold ScanSession.next
    rw [hrun, ScanRun.ofAnswers, if_neg (List.ne_nil_of_mem hnone), if_pos hnone]

theorem tokenize_eq (h : history.StandsAt source count) :
    history.session.tokenize =
      (Assay.tokenize source, ⟨.after source (scan source).length, history.session.runs⟩) := by
  unfold ScanSession.tokenize
  rw [h.scanner_eq, Scanner.tokenize_after]

/-- What a run has given and where it is change together. -/
theorem map_modify {number : Nat} {answers : List (Option Token)} (answer : Option Token)
    {run : ScanRun} (h : history.StandsAt source count)
    (hanswers : history.answers[number]? = some answers)
    (hrun : ScanRun.ofAnswers (answers ++ [answer]) = run) :
    history.session.runs.set number run =
      (history.answers.modify number (· ++ [answer])).map ScanRun.ofAnswers := by
  rw [h.runs_eq]
  apply List.ext_getElem?
  intro i
  rw [List.getElem?_set, List.getElem?_map, List.getElem?_map, List.getElem?_modify]
  by_cases hi : number = i
  · subst hi
    obtain ⟨hlength, -⟩ := List.getElem?_eq_some_iff.mp hanswers
    rw [if_pos rfl, List.length_map, if_pos hlength, hanswers]
    simp [hrun]
  · simp [hi]

/-- A run that has not ended goes on from some place, and the scanner with it. -/
theorem step_of_readAt {number place : Nat} {answers : List (Option Token)}
    (h : history.StandsAt source count) (hplace : place ≤ (scan source).length)
    (hanswers : history.answers[number]? = some answers) (hnone : none ∉ answers)
    (hnext : history.session.next number =
      ScanSession.readAt source history.session.runs number place) :
    ∃ count', (history.step (.next number)).StandsAt source count' := by
  unfold step
  simp only [hnext, ScanSession.readAt]
  cases htoken : (scan source)[place]? with
  | none =>
    refine ⟨place, hplace, rfl, h.map_modify _ hanswers ?_⟩
    rw [ScanRun.ofAnswers_snoc, if_pos (Or.inr rfl)]
  | some token =>
    obtain ⟨hlt, -⟩ := List.getElem?_eq_some_iff.mp htoken
    refine ⟨place + 1, hlt, rfl, h.map_modify _ hanswers ?_⟩
    rw [ScanRun.ofAnswers_snoc, if_neg (by simp [hnone])]

theorem step_next (h : history.StandsAt source count) (number : Nat) :
    ∃ count', (history.step (.next number)).StandsAt source count' := by
  cases hanswers : history.answers[number]? with
  | none =>
    have hrun := h.runs_getElem? number
    rw [hanswers, Option.map_none] at hrun
    have hnext : history.session.next number = (none, history.session) := by
      unfold ScanSession.next
      rw [hrun]
    refine ⟨count, h.within, ?_, ?_⟩
    · simp only [step, hnext, h.scanner_eq]
    · have hlength : history.answers.length ≤ number := List.getElem?_eq_none_iff.mp hanswers
      simp only [step, hnext, List.modify_eq_self hlength, h.runs_eq]
  | some answers =>
    obtain ⟨hfresh, hstarted, hended⟩ := h.next_eq hanswers
    by_cases hnone : none ∈ answers
    · refine ⟨count, h.within, ?_, ?_⟩
      · simp only [step, hended hnone, h.scanner_eq]
      · have hset := h.map_modify none hanswers rfl
        rw [ScanRun.ofAnswers_snoc, if_pos (Or.inr rfl)] at hset
        have hrun := h.runs_getElem? number
        rw [hanswers, Option.map_some, ScanRun.ofAnswers, if_neg (List.ne_nil_of_mem hnone),
          if_pos hnone] at hrun
        simp only [step, hended hnone]
        obtain ⟨hlength, hget⟩ := List.getElem?_eq_some_iff.mp hrun
        rw [← hset, ← hget, List.set_getElem_self]
    · by_cases hnil : answers = []
      · exact h.step_of_readAt (Nat.zero_le _) hanswers hnone (hfresh hnil)
      · exact h.step_of_readAt h.within hanswers hnone (hstarted hnil hnone)

theorem step (h : history.StandsAt source count) (step : ScanStep) :
    ∃ count', (history.step step).StandsAt source count' := by
  cases step with
  | tokenize =>
    refine ⟨(scan source).length, Nat.le_refl _, ?_, ?_⟩
    · simp only [ScanHistory.step, h.tokenize_eq]
    · simp only [ScanHistory.step, h.tokenize_eq, h.runs_eq]
  | openRun =>
    refine ⟨count, h.within, h.scanner_eq, ?_⟩
    simp only [ScanHistory.step, ScanSession.openRun, h.runs_eq, List.map_append]
    rfl
  | next number => exact h.step_next number

end StandsAt

/-! ## What any steps keep -/

theorem exists_standsAt (source : String) (steps : List ScanStep) :
    ∃ count, (after source steps).StandsAt source count := by
  induction steps using List.reverseRecOn with
  | nil => exact ⟨0, Nat.zero_le _, rfl, rfl⟩
  | append_singleton steps step ih =>
    obtain ⟨count, h⟩ := ih
    rw [after, List.foldl_append]
    exact h.step step

end ScanHistory

/-! ## The law -/

/-- Runs over one text share one scanner, and none loses, repeats or spoils a token. A lone scanner
gives the tokens of the text one after the other. After any steps, the shared one stands where the
lone one stands after some number of tokens. From there a run that was never asked starts the text
anew, one that has not ended gives the next token or ends, and one that has ended changes nothing.
To read all tokens gives the same as on a fresh text and leaves the scanner at the end, and to open
a run leaves the scanner where it is. -/
theorem runs_share_one_scanner (source : String) (steps : List ScanStep) :
    (∀ count, (Scanner.after source count).next? =
      (scan source)[count]?.map (fun token => (token, Scanner.after source (count + 1)))) ∧
    ∃ count ≤ (scan source).length,
      (steps = [] → count = 0) ∧
      (ScanHistory.after source steps).session.scanner = Scanner.after source count ∧
      (∀ (number : Nat) (answers : List (Option Token)),
        (ScanHistory.after source steps).answers[number]? = some answers →
        (answers = [] → (ScanHistory.after source steps).session.next number =
          ScanSession.readAt source (ScanHistory.after source steps).session.runs number 0) ∧
        (answers ≠ [] → none ∉ answers → (ScanHistory.after source steps).session.next number =
          ScanSession.readAt source (ScanHistory.after source steps).session.runs number count) ∧
        (none ∈ answers → (ScanHistory.after source steps).session.next number =
          (none, (ScanHistory.after source steps).session))) ∧
      (ScanHistory.after source steps).session.tokenize =
        (tokenize source, ⟨Scanner.after source (scan source).length,
          (ScanHistory.after source steps).session.runs⟩) ∧
      (ScanHistory.after source steps).session.openRun =
        ((ScanHistory.after source steps).answers.length,
          ⟨Scanner.after source count,
            (ScanHistory.after source steps).session.runs ++ [.fresh]⟩) := by
  obtain ⟨count, hstands, hfirst⟩ : ∃ count,
      (ScanHistory.after source steps).StandsAt source count ∧ (steps = [] → count = 0) := by
    by_cases hsteps : steps = []
    · subst hsteps
      exact ⟨0, ⟨Nat.zero_le _, rfl, rfl⟩, fun _ => rfl⟩
    · obtain ⟨count, h⟩ := ScanHistory.exists_standsAt source steps
      exact ⟨count, h, fun hnil => absurd hnil hsteps⟩
  refine ⟨Scanner.next?_after source, count, hstands.within, hfirst, hstands.scanner_eq, ?_,
    hstands.tokenize_eq, ?_⟩
  · intro number answers hanswers
    exact hstands.next_eq hanswers
  · rw [ScanSession.openRun, hstands.scanner_eq, hstands.runs_eq, List.length_map]

end Assay
