-- Exit codes. No error token passes the parser by, so the reports on one text
-- fail together wherever the text has a lexical error. The flags for the log
-- change neither the exit code nor what is printed.
import Assay.CommandLine
import Assay.Proofs.Tracing

namespace Assay

/-! ## No error token passes by -/

/-- A segment with an error token makes a finding, if only about a token before it. -/
theorem Segment.reports_ne_nil {segment : Segment} {token : Token} (stop : Token)
    (hmem : token ∈ segment.tokens) (herror : token.kind = .error) :
    segment.reports stop ≠ [] := by
  cases segment with
  | item i => exact absurd herror (Item.kind_of_mem_tokens hmem)
  | refused other hother => exact List.cons_ne_nil _ _
  | discarded begun passed fault =>
    exact List.append_ne_nil_of_right_ne_nil _ (List.cons_ne_nil _ _)

theorem reports_ne_nil_of_error {tokens : List Token} {token : Token}
    (hmem : token ∈ programTokens tokens) (herror : token.kind = .error) :
    (derive tokens).reports ≠ [] := by
  obtain ⟨segments, htiles, hderive⟩ := derive_tiles tokens
  rw [htiles.flatMap_tokens] at hmem
  obtain ⟨segment, hsegment, htoken⟩ := List.mem_flatMap.mp hmem
  rw [hderive, outcome_reports]
  intro hnil
  exact Segment.reports_ne_nil _ htoken herror (List.flatMap_eq_nil_iff.mp hnil segment hsegment)

/-- A text with a lexical error has a syntax error. -/
theorem syntaxErrors_ne_nil {source : String} (h : (analyze source).lexicalErrors ≠ []) :
    (analyze source).syntaxErrors ≠ [] := by
  obtain ⟨d, hd⟩ := List.exists_mem_of_ne_nil _ h
  obtain ⟨token, hscan, hkind, -⟩ := exists_of_mem_lexicalErrors hd
  have hprogram : token ∈ programTokens (tokenize source).tokens := by
    rw [programTokens_tokenize]
    exact List.mem_filter.mpr ⟨hscan, by simp [hkind, TokenKind.isTrivia]⟩
  exact reports_ne_nil_of_error hprogram hkind

theorem hasErrors_iff (source : String) :
    (analyze source).hasErrors ↔ (analyze source).syntaxErrors ≠ [] := by
  rw [Analysis.hasErrors, Analysis.totalErrors, decide_eq_true_iff, Nat.add_pos_iff_pos_or_pos,
    List.length_pos_iff, List.length_pos_iff]
  exact ⟨fun h => h.elim syntaxErrors_ne_nil id, Or.inr⟩

theorem failed_tokens_iff (source : String) :
    Report.tokens.failed source ↔ (analyze source).lexicalErrors ≠ [] := by
  have hlexical : (analyze source).lexicalErrors =
      (tokenize source).errors.map Diagnostic.ofErrorToken := rfl
  simp [Report.failed, hlexical]

/-! ## Flags for the log -/

/-- The arguments are these words with flags for the log put in, any number of them anywhere. -/
inductive WithFlags : List String → List String → Prop
  | nil : WithFlags [] []
  | word {words arguments : List String} (word : String) (h : WithFlags words arguments) :
      WithFlags (word :: words) (word :: arguments)
  | flag {words arguments : List String} {flag : String} (isFlag : flag ∈ verboseFlags)
      (h : WithFlags words arguments) : WithFlags words (flag :: arguments)

theorem filter_erase (flag : String) (arguments : List String) :
    (arguments.erase flag).filter (fun argument => argument ≠ flag) =
      arguments.filter (fun argument => argument ≠ flag) := by
  induction arguments with
  | nil => rfl
  | cons argument rest ih =>
    by_cases hsame : argument = flag
    · rw [hsame, List.erase_cons_head, List.filter_cons_of_neg (by simp)]
    · rw [List.erase_cons_tail (by simpa using hsame), List.filter_cons, List.filter_cons, ih]

/-- Taken out again and again, a flag is gone, and all else is left. -/
theorem takeOut_eq_filter (flag : String) (arguments : List String) :
    takeOut flag arguments = arguments.filter (fun argument => argument ≠ flag) := by
  fun_induction takeOut flag arguments with
  | case1 arguments hmem ih => rw [ih, filter_erase]
  | case2 arguments hmem =>
    symm
    rw [List.filter_eq_self]
    intro argument hargument
    exact decide_eq_true (ne_of_mem_of_not_mem hargument hmem)

theorem withoutFlags_eq_filter (arguments : List String) :
    withoutFlags arguments = arguments.filter (fun argument => argument ∉ verboseFlags) := by
  simp only [withoutFlags, verboseFlags, List.foldl_cons, List.foldl_nil, takeOut_eq_filter,
    List.filter_filter]
  refine List.filter_congr fun argument _ => ?_
  simp [and_comm]

theorem WithFlags.withoutFlags_eq {words arguments : List String} (h : WithFlags words arguments) :
    withoutFlags arguments = withoutFlags words := by
  rw [withoutFlags_eq_filter, withoutFlags_eq_filter]
  induction h with
  | nil => rfl
  | word word _ ih => rw [List.filter_cons, List.filter_cons, ih]
  | flag isFlag _ ih => rw [List.filter_cons_of_neg (by simp [isFlag]), ih]

theorem Command.ofArguments_report {word argument : String} {report : Report}
    (hword : Report.ofWord? word = some report) (hargument : argument ∉ verboseFlags) :
    Command.ofArguments [word, argument] = .report report (.ofArgument argument) := by
  have hflag : word ∉ verboseFlags := by
    rintro hmem
    rcases List.mem_pair.mp hmem with rfl | rfl <;> cases hword
  have hwords : withoutFlags [word, argument] = [word, argument] := by
    rw [withoutFlags_eq_filter]
    simp [hflag, hargument]
  have hhelp : ¬ (word = "--help" ∨ word = "-h") := by
    rintro (rfl | rfl) <;> cases hword
  have hversion : word ≠ "--version" := by
    rintro rfl
    cases hword
  have hhealth : word ≠ "health" := by
    rintro rfl
    cases hword
  unfold Command.ofArguments
  rw [hwords]
  simp only [if_neg hhelp, if_neg hversion, if_neg hhealth, hword]

theorem WithFlags.ofArguments_eq {word argument : String} {arguments : List String}
    {report : Report} (h : WithFlags [word, argument] arguments)
    (hword : Report.ofWord? word = some report) (hargument : argument ∉ verboseFlags) :
    Command.ofArguments arguments = .report report (.ofArgument argument) := by
  rw [← Command.ofArguments_report hword hargument, Command.ofArguments, h.withoutFlags_eq]
  rfl

/-! ## What a run prints -/

/-- The text that stands under the name given as an argument can be read, and is `source`. -/
def Invocation.Reads (surroundings : Invocation) (argument source : String) : Prop :=
  match Source.ofArgument argument with
  | .standardInput => textOfBytes surroundings.input = .ok source
  | .file path =>
    ∃ bytes, surroundings.files path = .ok (.file bytes) ∧ textOfBytes bytes = .ok source

/-- Started with these words in these surroundings, the program ends with this exit code and
prints this text, with whatever flags for the log among the words, or with none. -/
def Invocation.Prints (surroundings : Invocation) (words : List String) (exit : Nat)
    (stdout : String) : Prop :=
  ∀ arguments : List String, WithFlags words arguments →
    ∃ stderr : String, run { surroundings with arguments } = .ok ⟨exit, stdout, stderr⟩

/-- A report on a text that can be read is printed, and its exit code says whether it failed. -/
theorem Invocation.Reads.prints {surroundings : Invocation} {word argument source : String}
    (hreads : surroundings.Reads argument source) (hargument : argument ∉ verboseFlags)
    (report : Report) (hword : Report.ofWord? word = some report) :
    surroundings.Prints [word, argument] (if report.failed source then 1 else 0)
      (unlines (report.lines source)) := by
  intro arguments hflags
  unfold run
  simp only [hflags.ofArguments_eq hword hargument]
  unfold Invocation.Reads at hreads
  cases hsource : Source.ofArgument argument with
  | standardInput =>
    rw [hsource] at hreads
    simp only [hreads]
    exact ⟨_, rfl⟩
  | file path =>
    rw [hsource] at hreads
    obtain ⟨bytes, hfile, htext⟩ := hreads
    have hentry : (Entry.file bytes).text path = .ok source := by
      rw [Entry.text, htext]
      rfl
    simp only [hfile, Except.mapError, Except.map, Report.outputOfEntry, hentry]
    exact ⟨_, rfl⟩

/-! ## The law -/

/-- Exit codes agree across commands. On a text that can be read, the tree and the analysis are
reported with one exit code, which is 1 if and only if the text has syntax errors. The report on
tokens ends with 1 if and only if there are lexical errors, and these always make syntax errors,
so where it fails the other two fail as well. All this, and what is printed, is the same whatever
flags for the log are put among the arguments. -/
theorem exit_codes_agree_across_commands (surroundings : Invocation) (argument source : String)
    (hargument : argument ∉ verboseFlags) (hreads : surroundings.Reads argument source) :
    ∃ tokenExit exit : Nat,
      surroundings.Prints ["tokenize", argument] tokenExit (unlines (Report.tokens.lines source)) ∧
      surroundings.Prints ["parse", argument] exit (unlines (Report.tree.lines source)) ∧
      surroundings.Prints ["analyze", argument] exit (unlines (Report.analysis.lines source)) ∧
      (exit = 1 ↔ (analyze source).syntaxErrors ≠ []) ∧
      (tokenExit = 1 ↔ (analyze source).lexicalErrors ≠ []) ∧
      ((analyze source).lexicalErrors ≠ [] → (analyze source).syntaxErrors ≠ []) ∧
      (tokenExit = 1 → exit = 1) := by
  have hexit : ∀ failed : Bool, (if failed then 1 else 0) = 1 ↔ failed := by decide
  have htree : surroundings.Prints ["parse", argument] (if (analyze source).hasErrors then 1 else 0)
      (unlines (Report.tree.lines source)) := hreads.prints hargument .tree rfl
  have hanalysis : surroundings.Prints ["analyze", argument]
      (if (analyze source).hasErrors then 1 else 0) (unlines (Report.analysis.lines source)) :=
    hreads.prints hargument .analysis rfl
  refine ⟨_, _, hreads.prints hargument .tokens rfl, htree, hanalysis, ?_, ?_,
    syntaxErrors_ne_nil, ?_⟩
  · exact (hexit _).trans (hasErrors_iff source)
  · exact (hexit _).trans (failed_tokens_iff source)
  · intro htokens
    have hlexical := (failed_tokens_iff source).mp ((hexit _).mp htokens)
    exact (hexit _).mpr ((hasErrors_iff source).mpr (syntaxErrors_ne_nil hlexical))

/-- One file holds nothing but a stray sign, whatever it is called. -/
def straySurroundings : Invocation :=
  { arguments := []
    logSetting := none
    input := []
    files := fun _ => .ok (.file [0x24])
    clock := "" }

/-- A stray sign fails every report, with flags in front, between and behind. -/
theorem a_stray_sign_fails_every_report :
    "a" ∉ verboseFlags ∧ straySurroundings.Reads "a" "$" ∧
      straySurroundings.Prints ["tokenize", "a"] 1 (unlines (Report.tokens.lines "$")) ∧
      straySurroundings.Prints ["parse", "a"] 1 (unlines (Report.tree.lines "$")) ∧
      straySurroundings.Prints ["analyze", "a"] 1 (unlines (Report.analysis.lines "$")) ∧
      ∃ stderr, run { straySurroundings with arguments := ["-v", "parse", "-v", "a", "--verbose"] } =
        .ok ⟨1, unlines (Report.tree.lines "$"), stderr⟩ := by
  have hreads : straySurroundings.Reads "a" "$" := ⟨[0x24], rfl, by decide +kernel⟩
  obtain ⟨tokenExit, exit, htokens, htree, hanalysis, hexit, htokenExit, hlexical, -⟩ :=
    exit_codes_agree_across_commands straySurroundings "a" "$" (by decide) hreads
  have hstray : (analyze "$").lexicalErrors ≠ [] := by decide +kernel
  rw [htokenExit.mpr hstray] at htokens
  rw [hexit.mpr (hlexical hstray)] at htree hanalysis
  refine ⟨by decide, hreads, htokens, htree, hanalysis, htree _ ?_⟩
  exact .flag (by decide) (.word _ (.flag (by decide) (.word _ (.flag (by decide) .nil))))

end Assay
