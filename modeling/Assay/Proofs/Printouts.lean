-- Printouts. What a report prints falls into its lines again: one for each token
-- or node, and two for each finding. So no message about a text holds a line feed,
-- though some show characters of the text as they are.
import Assay.Proofs.BlockLiterals
import Assay.Proofs.ExitCodes
import Assay.Proofs.LineLiterals
import Assay.Proofs.PrintedLines

namespace Assay

/-! ## Problems on one line -/

/-- No part of the problem holds a line feed. -/
structure Problem.OnOneLine (problem : Problem) : Prop where
  code : OneLine problem.code
  message : OneLine problem.message
  suggestion : OneLine problem.suggestion

/-! ## Lexical faults -/

namespace Lexeme

/-- An escape that is found fault with stands on one line with its backslash. A block literal may
hold any escape, and no other literal goes on past its line. -/
theorem not_lineEnd_of_unknownEscape {c escape : Char} {rest : List Char}
    (h : (first c rest).fault = some (.unknownEscape escape)) : ¬ isLineEnd escape := by
  rcases fault_of_first h with hstray | ⟨hquote, -⟩
  · cases hstray
  by_cases hblock : [c, c] <+: rest
  · -- What is wrong with a block literal is that it is open, never an escape.
    obtain ⟨body, rfl⟩ := hblock
    have hfirst := first_of_blockLiteral hquote body
    rw [judge_string, literalFault?_block hquote] at hfirst
    rw [List.cons_append, List.singleton_append, hfirst] at h
    split at h <;> cases h
  by_cases hclosed : ∃ units, Inside c units ∧ ClosesAfter [c] (firstLine rest) units
  · obtain ⟨units, hinside, hcloses⟩ := hclosed
    rw [first_of_closed_line hquote hblock hinside hcloses] at h
    obtain ⟨found, hfound, hsame⟩ := Option.map_eq_some_iff.mp h
    cases hsame
    obtain ⟨unit, hunit, hescape⟩ := List.mem_filterMap.mp (List.mem_of_find?_eq_some hfound)
    have hmem : escape ∈ unitsText units := by
      cases unit with
      | plain d hd => cases hescape
      | escape d =>
        cases hescape
        exact List.mem_flatMap.mpr ⟨_, hunit, by simp [BodyUnit.text]⟩
    exact not_lineEnd_of_mem_firstLine (hcloses.subset (List.mem_append_left _ hmem))
  · have hopen : ∀ units, Inside c units → ¬ ClosesAfter [c] (firstLine rest) units :=
      fun units hinside hcloses => hclosed ⟨units, hinside, hcloses⟩
    rw [first_of_open_line hquote hblock hopen] at h
    cases h

end Lexeme

/-- The quotes that are missing are those that the literal begins with. -/
theorem eq_of_openBlock {quote missing : Char} {rest : List Char}
    (h : literalFault? quote rest = some (.openBlock missing)) : missing = quote := by
  unfold literalFault? at h
  split at h
  · split at h
    · cases h
      rfl
    · cases h
  · split at h
    · obtain ⟨escape, -, hsame⟩ := Option.map_eq_some_iff.mp h
      cases hsame
    · cases h

theorem LexicalFault.oneLine_code (fault : LexicalFault) : OneLine fault.code := by
  have hall : ∀ code ∈ ["L001", "L002", "L003"], OneLine code := by decide
  exact hall _ fault.code_mem

theorem Lexeme.problem_onOneLine {c : Char} {rest : List Char} {fault : LexicalFault}
    (h : (first c rest).fault = some fault) : fault.problem.OnOneLine := by
  refine ⟨fault.oneLine_code, ?_, ?_⟩
  · cases fault with
    | strayCharacter d =>
      have hwords : OneLine "Unrecognized character: " := by decide
      exact oneLine_append.mpr ⟨hwords, oneLine_ofList (newline_not_mem_quotedChars [d])⟩
    | openBlock quote =>
      have hwords : OneLine (LexicalFault.openBlock '"').message := by decide +kernel
      exact hwords
    | openLine => decide +kernel
    | unknownEscape escape =>
      have hwords : OneLine "Invalid escape sequence: \\" := by decide
      have hescape : '\n' ∉ [escape] := by
        intro hline
        refine not_lineEnd_of_unknownEscape h ?_
        rw [← List.mem_singleton.mp hline]
        rfl
      exact oneLine_append.mpr ⟨hwords, oneLine_ofList hescape⟩
  · cases fault with
    | strayCharacter d =>
      have hwords : OneLine (LexicalFault.strayCharacter '$').suggestion := by decide +kernel
      exact hwords
    | openBlock quote =>
      have hwords : OneLine "Close the string with " := by decide
      have hquote : quote ≠ '\n' := by
        rcases fault_of_first h with hstray | ⟨hquote, tail, -, htail⟩
        · cases hstray
        · rw [eq_of_openBlock htail]
          rintro rfl
          exact absurd hquote (by decide)
      have hquotes : '\n' ∉ [quote, quote, quote] := by simpa using hquote.symm
      exact oneLine_append.mpr ⟨hwords, oneLine_ofList hquotes⟩
    | openLine => decide +kernel
    | unknownEscape escape =>
      have hwords : OneLine (LexicalFault.unknownEscape 'q').suggestion := by decide +kernel
      exact hwords

/-! ## Tokens -/

theorem Token.oneLine_render (token : Token) : OneLine token.render := by
  have hopen : OneLine "Token(" := by decide
  have hcomma : OneLine ", " := by decide
  have hclose : OneLine ")" := by decide
  unfold render
  split
  · simp only [oneLine_append]
    exact ⟨⟨⟨⟨hopen, token.kind.oneLine_tag⟩, hcomma⟩, token.position.oneLine_render⟩, hclose⟩
  · simp only [oneLine_append]
    exact ⟨⟨⟨⟨⟨⟨hopen, token.kind.oneLine_tag⟩, hcomma⟩, oneLine_quoted _⟩, hcomma⟩,
      token.position.oneLine_render⟩, hclose⟩

/-- What a finding about the token may show unquoted holds no line feed: its own problem, and a
keyword. There is no finding about a proper name. -/
structure Token.OnOneLine (token : Token) : Prop where
  problem : ∀ problem ∈ token.error, problem.OnOneLine
  keyword : token.kind = .keyword → OneLine token.value
  name : token.kind = .identifier → identifierProblem? token.value = none

theorem mem_keywords_of_classifyWord {word : String} (h : classifyWord word = .keyword) :
    word ∈ keywords := by
  unfold classifyWord at h
  split_ifs at h with hboolean hnone hkeyword
  exact hkeyword

/-- A keyword is one of the list, as no rule of the table makes keywords by itself. -/
theorem Lexeme.mem_keywords {c : Char} {rest : List Char} (h : (first c rest).kind = .keyword) :
    String.ofList (first c rest).text ∈ keywords := by
  have hnone : ∀ rule ∈ Rule.table, rule.kind ≠ .keyword := by decide
  rcases first_cases c rest with ⟨rule, hrule, -, hfirst⟩ | hstray
  · rw [hfirst] at h ⊢
    rw [judge_text]
    unfold judge at h
    split at h
    · split at h <;> cases h
    · exact mem_keywords_of_classifyWord h
    · exact absurd h (hnone rule hrule)
  · rw [hstray] at h
    cases h

theorem onOneLine_of_mem_scan {source : String} {token : Token} (h : token ∈ scan source) :
    token.OnOneLine := by
  have hname : token.kind = .identifier → identifierProblem? token.value = none :=
    fun hkind => identifierProblem?_eq_none.mpr (identifierFault?_of_mem_scan h hkind)
  obtain ⟨lexeme, hmem, start, rfl⟩ := Lexeme.exists_of_mem_place h
  obtain ⟨c, rest, rfl⟩ := Lexeme.exists_first_of_mem_split hmem
  refine ⟨?_, ?_, hname⟩
  · intro problem hproblem
    obtain ⟨fault, hfault, rfl⟩ := Option.map_eq_some_iff.mp hproblem
    exact Lexeme.problem_onOneLine hfault
  · intro hkind
    have hall : ∀ word ∈ keywords, OneLine word := by decide
    exact hall _ (Lexeme.mem_keywords hkind)

/-! ## Findings -/

theorem onOneLine_lexical {detail : Option Problem} (h : ∀ problem ∈ detail, problem.OnOneLine) :
    (SyntaxFault.lexical detail).problem.OnOneLine := by
  have hcode : OneLine "P001" := by decide
  cases detail with
  | none => exact ⟨hcode, by decide +kernel, by decide +kernel⟩
  | some problem =>
    have hwords : OneLine "Lexical error: " := by decide
    exact ⟨hcode, oneLine_append.mpr ⟨hwords, (h problem rfl).message⟩, (h problem rfl).suggestion⟩

/-- The fault for which reading breaks off at a token. -/
theorem Failure.onOneLine {begun : List Token} {token : Token} {fault : SyntaxFault}
    (h : Failure begun token fault) (hkeyword : token.kind = .keyword → OneLine token.value) :
    fault.problem.OnOneLine := by
  have hcodes : ∀ code ∈ failureCodes, OneLine code := by decide
  refine ⟨hcodes _ h.code_mem, ?_, ?_⟩
  · cases h with
    | keyword hkind =>
      have hbefore : OneLine "Keyword '" := by decide
      have hafter : OneLine "' used incorrectly in this context" := by decide +kernel
      exact oneLine_append.mpr ⟨oneLine_append.mpr ⟨hbefore, hkeyword hkind⟩, hafter⟩
    | assignedLiteral => decide +kernel
    | unexpected =>
      have hwords : OneLine "Expected a declaration or expression, got " := by decide +kernel
      have hblank : OneLine " " := by decide
      exact oneLine_append.mpr ⟨oneLine_append.mpr ⟨oneLine_append.mpr
        ⟨hwords, token.kind.oneLine_tag⟩, hblank⟩, oneLine_quoted _⟩
    | missingValue => decide +kernel
  · cases h with
    | keyword =>
      have hwords : OneLine (SyntaxFault.misplacedKeyword "if").problem.suggestion := by
        decide +kernel
      exact hwords
    | assignedLiteral => decide +kernel
    | unexpected =>
      have hwords : OneLine defaultSuggestion := by decide +kernel
      exact hwords
    | missingValue => decide +kernel

theorem nameFindings_of_onOneLine {tokens : List Token} (h : ∀ token ∈ tokens, token.OnOneLine) :
    nameFindings tokens = [] := by
  rw [nameFindings, List.filterMap_eq_nil_iff]
  intro token htoken
  obtain ⟨hmem, hkind⟩ := List.mem_filter.mp htoken
  rw [(h token hmem).name (of_decide_eq_true hkind)]
  rfl

theorem Segment.reports_onOneLine {segment : Segment} {stop : Token} {after : List Token}
    (hstop : stop.kind = .endMark) (hfits : segment.Fits stop after)
    (h : ∀ token ∈ segment.tokens, token.OnOneLine) :
    ∀ d ∈ segment.reports stop, d.problem.OnOneLine := by
  intro d hd
  cases segment with
  | item i =>
    have hnone : nameFindings i.tokens = [] := nameFindings_of_onOneLine h
    rw [reports, hnone] at hd
    cases hd
  | refused token hkind =>
    rw [List.mem_singleton.mp hd]
    exact onOneLine_lexical (h token (List.mem_singleton_self token)).problem
  | discarded begun passed fault =>
    have hbegun : ∀ token ∈ begun, token.OnOneLine :=
      fun token hmem => h token (List.mem_append_left _ hmem)
    rw [reports, nameFindings_of_onOneLine hbegun, List.nil_append] at hd
    rw [List.mem_singleton.mp hd]
    refine hfits.1.onOneLine ?_
    intro hkeyword
    obtain ⟨first, rest, rfl⟩ := exists_cons_of_headD (by rw [hkeyword, hstop]; decide)
    exact (h first (List.mem_append_right _ List.mem_cons_self)).keyword hkeyword

theorem Tiles.reports_onOneLine {stop : Token} {ahead : List Token} {segments : List Segment}
    (htiles : Tiles stop ahead segments) (hstop : stop.kind = .endMark)
    (h : ∀ token ∈ ahead, token.OnOneLine) :
    ∀ d ∈ segments.flatMap (Segment.reports stop), d.problem.OnOneLine := by
  induction htiles with
  | nil =>
    intro d hd
    cases hd
  | @cons segment after segments hfits _ ih =>
    intro d hd
    rw [List.flatMap_cons] at hd
    rcases List.mem_append.mp hd with hfirst | hrest
    · exact Segment.reports_onOneLine hstop hfits
        (fun token hmem => h token (List.mem_append_left _ hmem)) d hfirst
    · exact ih (fun token hmem => h token (List.mem_append_right _ hmem)) d hrest

theorem onOneLine_of_mem_syntaxErrors {source : String} {d : Diagnostic}
    (h : d ∈ (analyze source).syntaxErrors) : d.problem.OnOneLine := by
  have hreports : d ∈ (derive (tokenize source).tokens).reports := h
  obtain ⟨segments, htiles, hderive⟩ := derive_tiles (tokenize source).tokens
  rw [hderive, outcome_reports] at hreports
  refine htiles.reports_onOneLine (programEnd_kind _) ?_ d hreports
  intro token hmem
  rw [programTokens_tokenize] at hmem
  exact onOneLine_of_mem_scan (List.mem_filter.mp hmem).1

theorem onOneLine_of_mem_lexicalErrors {source : String} {d : Diagnostic}
    (h : d ∈ (analyze source).lexicalErrors) : d.problem.OnOneLine := by
  obtain ⟨token, hscan, hkind, rfl⟩ := exists_of_mem_lexicalErrors h
  exact (onOneLine_of_mem_scan hscan).problem _ (ofErrorToken_of_mem_scan hscan hkind).1

/-! ## Printed lines -/

/-- Printed lines fall apart again, and nothing stands after the last line feed. -/
theorem splitLines_unlines {lines : List String} (h : ∀ line ∈ lines, OneLine line) :
    splitLines (unlines lines) = lines ++ [""] := by
  have hjoin : ∀ lines : List String, unlines lines = "\n".intercalate (lines ++ [""]) := by
    intro lines
    induction lines with
    | nil => rfl
    | cons line rest ih =>
      rw [List.cons_append, String.intercalate_cons_of_ne_nil (by simp), ← ih]
      exact String.join_cons
  rw [hjoin]
  refine splitLines_intercalate ?_ (by simp)
  intro line hline
  rcases List.mem_append.mp hline with hmem | hlast
  · exact h line hmem
  · rw [List.mem_singleton.mp hlast]
    decide

/-- The lines have the form of a report on the findings: there are none for none, else an empty
line, a header, and two lines for each. -/
def ReportsOn (findings : List Diagnostic) (lines : List String) : Prop :=
  match findings with
  | [] => lines = []
  | findings => ∃ header details, lines = "" :: header :: details ∧
      details.length = 2 * findings.length

theorem reportsOn_findingLines (stage : String) (findings : List Diagnostic) :
    ReportsOn findings (findingLines stage findings) := by
  cases findings with
  | nil => rfl
  | cons d rest =>
    refine ⟨_, _, rfl, ?_⟩
    simp [List.length_flatMap]
    omega

theorem oneLine_of_mem_findingLines {stage : String} {findings : List Diagnostic}
    (hstage : OneLine stage) (h : ∀ d ∈ findings, d.problem.OnOneLine) :
    ∀ line ∈ findingLines stage findings, OneLine line := by
  intro line hline
  unfold findingLines at hline
  split at hline
  · cases hline
  rcases List.mem_append.mp hline with hfront | hdetail
  · rcases List.mem_pair.mp hfront with rfl | rfl
    · decide
    · have hblank : OneLine " " := by decide
      have herrors : OneLine " error(s):" := by decide
      simp only [oneLine_append]
      exact ⟨⟨⟨oneLine_nat _, hblank⟩, hstage⟩, herrors⟩
  · obtain ⟨d, hd, hpair⟩ := List.mem_flatMap.mp hdetail
    have hproblem := h d hd
    rcases List.mem_pair.mp hpair with rfl | rfl
    · have hindent : OneLine "  " := by decide
      have hcolon : OneLine ": " := by decide
      have hblank : OneLine " " := by decide
      have hrender : OneLine d.render := by
        simp only [Diagnostic.render, oneLine_append]
        exact ⟨⟨⟨⟨d.position.oneLine_render, hcolon⟩, hproblem.code⟩, hblank⟩, hproblem.message⟩
      exact oneLine_append.mpr ⟨hindent, hrender⟩
    · have hhint : OneLine "    hint: " := by decide
      exact oneLine_append.mpr ⟨hhint, hproblem.suggestion⟩

/-- The lines show a tree, one for each of its nodes, or they say that there is none. -/
def ShowsTree (tree : Option Node) (lines : List String) : Prop :=
  match tree with
  | some tree => List.Forall₂ Node.ShownBy lines tree.preorder
  | none => lines = ["(no statements)"]

/-! ## The law -/

theorem splitLines_tokens (source : String) :
    splitLines (unlines (Report.tokens.lines source)) =
      (tokenize source).tokens.map Token.render ++
        findingLines "lexical" (analyze source).lexicalErrors ++ [""] := by
  refine splitLines_unlines ?_
  intro line hline
  rcases List.mem_append.mp hline with htoken | hlexical
  · obtain ⟨token, -, rfl⟩ := List.mem_map.mp htoken
    exact token.oneLine_render
  · exact oneLine_of_mem_findingLines (by decide) (fun d => onOneLine_of_mem_lexicalErrors)
      line hlexical

theorem splitLines_tree (source : String) :
    ∃ shown, ShowsTree (analyze source).tree shown ∧
      splitLines (unlines (Report.tree.lines source)) =
        shown ++ findingLines "lexical" (analyze source).lexicalErrors ++
          findingLines "syntax" (analyze source).syntaxErrors ++ [""] := by
  obtain ⟨shown, hshown, hlines, honeLine⟩ : ∃ shown, ShowsTree (analyze source).tree shown ∧
      Report.tree.lines source = shown ++ findingLines "lexical" (analyze source).lexicalErrors ++
        findingLines "syntax" (analyze source).syntaxErrors ∧ ∀ line ∈ shown, OneLine line := by
    refine ⟨_, ?_, rfl, ?_⟩
    · cases (analyze source).tree with
      | none => rfl
      | some tree => exact tree.outlineLines_shown 0
    · cases (analyze source).tree with
      | none =>
        intro line hline
        rw [List.mem_singleton.mp hline]
        decide
      | some tree => exact fun line => Node.oneLine_of_mem_outlineLines
  refine ⟨shown, hshown, ?_⟩
  rw [hlines]
  refine splitLines_unlines ?_
  intro line hline
  rcases List.mem_append.mp hline with hfront | hsyntax
  · rcases List.mem_append.mp hfront with hnode | hlexical
    · exact honeLine line hnode
    · exact oneLine_of_mem_findingLines (by decide) (fun d => onOneLine_of_mem_lexicalErrors)
        line hlexical
  · exact oneLine_of_mem_findingLines (by decide) (fun d => onOneLine_of_mem_syntaxErrors)
      line hsyntax

/-- Reports keep one line for each item. Whatever the text, what is printed on its tokens falls
into a line for each token and the lines about the lexical findings, and what is printed on its
tree into a line for each node, or one that says there is none, and the lines about the findings
of either stage. These are none without findings, else an empty line, a header and two lines for
each. This is what the program prints for a text that it can read. -/
theorem reports_keep_one_line_for_each_item (source : String) :
    splitLines (unlines (Report.tokens.lines source)) =
      (tokenize source).tokens.map Token.render ++
        findingLines "lexical" (analyze source).lexicalErrors ++ [""] ∧
    (∃ shown, ShowsTree (analyze source).tree shown ∧
      splitLines (unlines (Report.tree.lines source)) =
        shown ++ findingLines "lexical" (analyze source).lexicalErrors ++
          findingLines "syntax" (analyze source).syntaxErrors ++ [""]) ∧
    ReportsOn (analyze source).lexicalErrors
      (findingLines "lexical" (analyze source).lexicalErrors) ∧
    ReportsOn (analyze source).syntaxErrors
      (findingLines "syntax" (analyze source).syntaxErrors) ∧
    ∀ (surroundings : Invocation) (argument : String), argument ∉ verboseFlags →
      surroundings.Reads argument source →
      (∃ exit, surroundings.Prints ["tokenize", argument] exit
        (unlines (Report.tokens.lines source))) ∧
      ∃ exit, surroundings.Prints ["parse", argument] exit
        (unlines (Report.tree.lines source)) := by
  refine ⟨splitLines_tokens source, splitLines_tree source, reportsOn_findingLines _ _,
    reportsOn_findingLines _ _, ?_⟩
  intro surroundings argument hargument hreads
  exact ⟨⟨_, hreads.prints hargument .tokens rfl⟩, ⟨_, hreads.prints hargument .tree rfl⟩⟩

/-- A string over two lines, and a string that a backslash at the end of its line leaves open. -/
def brokenStrings : String := "\"\"\"a\nb\"\"\"\n'\\\n"

def brokenSurroundings : Invocation :=
  { arguments := []
    logSetting := none
    input := [0x22, 0x22, 0x22, 0x61, 0x0A, 0x62, 0x22, 0x22, 0x22, 0x0A, 0x27, 0x5C, 0x0A]
    files := fun _ => .ok .missing
    clock := "" }

/-- The string over two lines is one item, and the backslash is not taken for an escape. -/
theorem a_string_over_two_lines_is_one_item :
    "-" ∉ verboseFlags ∧ brokenSurroundings.Reads "-" brokenStrings ∧
      ∃ exit stdout shown,
        brokenSurroundings.Prints ["parse", "-"] exit stdout ∧
        splitLines stdout =
          shown ++ findingLines "lexical" (analyze brokenStrings).lexicalErrors ++
            findingLines "syntax" (analyze brokenStrings).syntaxErrors ++ [""] ∧
        ShowsTree (analyze brokenStrings).tree shown ∧
        ReportsOn (analyze brokenStrings).lexicalErrors
          (findingLines "lexical" (analyze brokenStrings).lexicalErrors) ∧
        (analyze brokenStrings).lexicalErrors.map Diagnostic.problem =
          [LexicalFault.openLine.problem] ∧
        ReportsOn (analyze brokenStrings).syntaxErrors
          (findingLines "syntax" (analyze brokenStrings).syntaxErrors) := by
  have hreads : brokenSurroundings.Reads "-" brokenStrings := by
    show textOfBytes brokenSurroundings.input = .ok brokenStrings
    decide +kernel
  obtain ⟨-, ⟨shown, hshown, hlines⟩, hlexical, hsyntax, hprints⟩ :=
    reports_keep_one_line_for_each_item brokenStrings
  obtain ⟨-, exit, hexit⟩ := hprints brokenSurroundings "-" (by decide) hreads
  exact ⟨by decide, hreads, exit, _, shown, hexit, hlines, hshown, hlexical, by decide +kernel,
    hsyntax⟩

end Assay
