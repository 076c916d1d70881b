-- Well-formed programs: assignments in any layout are read as just these
-- assignments, and nothing is found. A line is read by itself, since whatever
-- comes after it starts with a line end.
import Mathlib.Data.List.Forall2
import Assay.Analysis
import Assay.Proofs.Lexemes
import Assay.Proofs.Places
import Assay.Proofs.Segments

namespace Assay

/-! ## Source texts -/

/-- Blanks, or none at all. -/
structure Blanks where
  text : List Char
  isBlank : ∀ c ∈ text, c = ' ' ∨ c = '\t'

/-- The text of a comment after its number sign. -/
structure Comment where
  body : List Char
  isOneLine : ∀ c ∈ body, ¬ isLineEnd c

def Comment.text (comment : Comment) : List Char :=
  '#' :: comment.body

/-- What may stand at the end of a line: blanks, and perhaps a comment. -/
structure Filler where
  blanks : Blanks
  comment : Option Comment

def Filler.text (filler : Filler) : List Char :=
  filler.blanks.text ++ (filler.comment.map Comment.text).getD []

/-- An assignment: its name, its operator, and its value with the kind of leaf that this makes. -/
structure Assigned where
  name : String
  operator : String
  value : String
  kind : NodeKind
  isName : identifierFault? name = none
  isOperator : operator.toList ∈ Rule.assignmentOperators
  isValue : ValueText value.toList kind

/-- A line without its end: one that is blank or a comment, or an assignment with blanks before
each of its parts. -/
inductive SourceLine where
  | filler (filler : Filler)
  | assigned (assigned : Assigned) (beforeName beforeOperator beforeValue : Blanks) (after : Filler)

namespace SourceLine

def text : SourceLine → List Char
  | filler f => f.text
  | assigned a beforeName beforeOperator beforeValue after =>
    beforeName.text ++ (a.name.toList ++ (beforeOperator.text ++ (a.operator.toList ++
      (beforeValue.text ++ (a.value.toList ++ after.text)))))

def assignments : SourceLine → List Assigned
  | filler _ => []
  | assigned a _ _ _ _ => [a]

end SourceLine

inductive LineBreak where
  | lineFeed
  /-- A carriage return and a line feed. -/
  | returnFeed

def LineBreak.text : LineBreak → List Char
  | lineFeed => ['\n']
  | returnFeed => ['\r', '\n']

/-- Lines with breaks between them. -/
inductive SourceText where
  | last (line : SourceLine)
  | lines (line : SourceLine) (mark : LineBreak) (rest : SourceText)

namespace SourceText

def text : SourceText → List Char
  | last line => line.text
  | lines line mark rest => line.text ++ (mark.text ++ rest.text)

def assignments : SourceText → List Assigned
  | last line => line.assignments
  | lines line _ rest => line.assignments ++ rest.assignments

end SourceText

/-! ## What the tokens of a line are read as -/

/-- The node that an assignment makes. -/
def Assigned.Makes (assigned : Assigned) (node : Node) : Prop :=
  node.kind = .assignment ∧ node.value = some assigned.name ∧
    ∃ leaf, node.children = [leaf] ∧ leaf.kind = assigned.kind ∧
      leaf.value = some assigned.value ∧ leaf.children = []

/-- The tokens without the blanks and comments. -/
def significant (tokens : List Token) : List Token :=
  tokens.filter (fun token => !token.kind.isTrivia)

/-- Some tokens, without the blanks and comments among them, are a row of items that make these
assignments, and all names in it are proper. -/
def ReadAs (tokens : List Token) (assignments : List Assigned) : Prop :=
  ∃ items : List Item, significant tokens = items.flatMap Item.tokens ∧
    List.Forall₂ Assigned.Makes assignments (items.filterMap Item.statement?) ∧
    nameFindings (items.flatMap Item.tokens) = []

theorem Item.kind_of_mem_tokens {item : Item} {token : Token} (h : token ∈ item.tokens) :
    token.kind ≠ .error := by
  cases item with
  | lineBreak mark hmark =>
    rw [List.mem_singleton.mp h, hmark]
    decide
  | bare value hvalue =>
    rw [List.mem_singleton.mp h]
    exact TokenKind.ne_of_isLiteral hvalue (by decide)
  | assigned name operator value hname hoperator hvalue =>
    simp only [tokens, List.mem_cons, List.not_mem_nil, or_false] at h
    rcases h with rfl | rfl | rfl
    · rw [hname]
      decide
    · rw [hoperator]
      decide
    · exact TokenKind.ne_of_isLiteral hvalue (by decide)

namespace ReadAs

theorem append {tokens others : List Token} {assignments more : List Assigned}
    (h : ReadAs tokens assignments) (hmore : ReadAs others more) :
    ReadAs (tokens ++ others) (assignments ++ more) := by
  obtain ⟨items, hitems, hmakes, hnames⟩ := h
  obtain ⟨items', hitems', hmakes', hnames'⟩ := hmore
  refine ⟨items ++ items', ?_, ?_, ?_⟩
  · rw [significant, List.filter_append, List.flatMap_append]
    exact congrArg₂ (· ++ ·) hitems hitems'
  · rw [List.filterMap_append]
    exact List.rel_append hmakes hmakes'
  · rw [List.flatMap_append, nameFindings_append, hnames, hnames', List.append_nil]

theorem of_trivia {tokens : List Token} (h : ∀ token ∈ tokens, token.kind.isTrivia) :
    ReadAs tokens [] := by
  refine ⟨[], ?_, .nil, rfl⟩
  rw [List.flatMap_nil, significant, List.filter_eq_nil_iff]
  intro token hmem
  simp [h token hmem]

theorem of_newline {mark : Token} (h : mark.kind = .newline) : ReadAs [mark] [] := by
  have hother : mark.kind ≠ .identifier := by simp [h]
  refine ⟨[.lineBreak mark h], ?_, .nil, ?_⟩
  · exact List.filter_cons_of_pos (by simp [h, TokenKind.isTrivia])
  · exact nameFindings_of_ne_name hother []

/-- A name, an operator and a value, with blanks and comments around them. -/
theorem of_assigned (assigned : Assigned) {tokens : List Token} {name operator value : Token}
    (hkept : significant tokens = [name, operator, value])
    (hname : name.kind = .identifier ∧ name.value = assigned.name)
    (hoperator : operator.kind = .assignmentOperator)
    (hvalue : value.kind.leafKind? = some assigned.kind ∧ value.value = assigned.value)
    (hproper : value.kind = .identifier → identifierFault? value.value = none) :
    ReadAs tokens [assigned] := by
  have hliteral : value.kind.isLiteral := by
    rw [TokenKind.isLiteral, hvalue.1]
    rfl
  have hother : operator.kind ≠ .identifier := by simp [hoperator]
  refine ⟨[.assigned name operator value hname.1 hoperator hliteral], hkept, ?_, ?_⟩
  · refine .cons ⟨rfl, congrArg some hname.2, Node.leafOf value hliteral, rfl, ?_, ?_, rfl⟩ .nil
    · simp [Node.leafOf, hvalue.1]
    · simp [Node.leafOf, hvalue.2]
  · show nameFindings [name, operator, value] = []
    have hreports : nameReports name = [] := by simp [nameReports, hname.2, assigned.isName]
    rw [nameFindings_of_name hname.1, nameFindings_of_ne_name hother, nameFindings_singleton,
      hreports]
    split
    · rename_i hidentifier
      simp [nameReports, hproper hidentifier]
    · rfl

/-- No error is read as anything. -/
theorem no_error {tokens : List Token} {assignments : List Assigned}
    (h : ReadAs tokens assignments) : ∀ token ∈ tokens, token.kind ≠ .error := by
  obtain ⟨items, hitems, -, -⟩ := h
  intro token hmem herror
  have hkept : token ∈ significant tokens :=
    List.mem_filter.mpr ⟨hmem, by simp [herror, TokenKind.isTrivia]⟩
  rw [hitems] at hkept
  obtain ⟨item, -, htoken⟩ := List.mem_flatMap.mp hkept
  exact item.kind_of_mem_tokens htoken herror

end ReadAs

/-! ## Lexemes in their places -/

namespace Lexeme

/-- The token is of the kind of the lexeme and has its text. -/
def Spells (lexeme : Lexeme) (token : Token) : Prop :=
  token.kind = lexeme.kind ∧ token.value = String.ofList lexeme.text

theorem forall₂_place (position : Position) (lexemes : List Lexeme) :
    List.Forall₂ Spells lexemes (place position lexemes) := by
  induction lexemes generalizing position with
  | nil => exact .nil
  | cons lexeme rest ih => exact .cons ⟨rfl, rfl⟩ (ih _)

theorem forall₂_significant (position : Position) (lexemes : List Lexeme) :
    List.Forall₂ Spells (lexemes.filter (fun lexeme => !lexeme.kind.isTrivia))
      (significant (place position lexemes)) := by
  refine List.rel_filter ?_ (forall₂_place position lexemes)
  intro lexeme token h
  simp [h.1]

/-- Blanks and comments only. -/
def AllTrivia (lexemes : List Lexeme) : Prop :=
  ∀ lexeme ∈ lexemes, lexeme.kind.isTrivia

theorem AllTrivia.filter_eq_nil {lexemes : List Lexeme} (h : AllTrivia lexemes) :
    lexemes.filter (fun lexeme => !lexeme.kind.isTrivia) = [] := by
  rw [List.filter_eq_nil_iff]
  intro lexeme hmem
  simp [h lexeme hmem]

theorem AllTrivia.filter_append {lexemes : List Lexeme} (h : AllTrivia lexemes) {lexeme : Lexeme}
    (hlexeme : lexeme.kind.isTrivia = false) (rest : List Lexeme) :
    (lexemes ++ lexeme :: rest).filter (fun lexeme => !lexeme.kind.isTrivia) =
      lexeme :: rest.filter (fun lexeme => !lexeme.kind.isTrivia) := by
  rw [List.filter_append, h.filter_eq_nil, List.nil_append,
    List.filter_cons_of_pos (by simp [hlexeme])]

theorem AllTrivia.append {lexemes others : List Lexeme} (h : AllTrivia lexemes)
    (hothers : AllTrivia others) : AllTrivia (lexemes ++ others) := by
  intro lexeme hmem
  rcases List.mem_append.mp hmem with hmem | hmem
  · exact h lexeme hmem
  · exact hothers lexeme hmem

end Lexeme

/-! ## Reading the parts of a line -/

section Parts

variable {families : List Family} {rest : List Char}

theorem Blanks.opens (blanks : Blanks) (h : Opens families rest) :
    Opens (.blank :: families) (blanks.text ++ rest) := by
  intro c hc
  cases hblanks : blanks.text with
  | nil =>
    rw [hblanks, List.nil_append] at hc
    exact List.mem_cons_of_mem _ (h c hc)
  | cons d tail =>
    rw [hblanks] at hc
    cases hc
    rw [ofChar_blank (blanks.isBlank c (by rw [hblanks]; exact List.mem_cons_self))]
    exact List.mem_cons_self

theorem Blanks.exists_trivia (blanks : Blanks)
    (h : Opens [.lineEnd, .comment, .quote, .word, .digit, .sign] rest) :
    ∃ lexemes, Lexeme.AllTrivia lexemes ∧
      Lexeme.split (blanks.text ++ rest) = lexemes ++ Lexeme.split rest := by
  by_cases hnil : blanks.text = []
  · refine ⟨[], by simp [Lexeme.AllTrivia], ?_⟩
    rw [hnil]
    rfl
  · refine ⟨[⟨.whitespace, blanks.text, none⟩], by simp [Lexeme.AllTrivia, TokenKind.isTrivia], ?_⟩
    exact Lexeme.readBefore_blanks hnil blanks.isBlank rest h

/-- A part of a line and the blanks before it are read, if the part can stand before what follows
it. -/
theorem Blanks.exists_part (blanks : Blanks) {kind : TokenKind} {text : List Char}
    {starts : List Family} (hread : (⟨kind, text, none⟩ : Lexeme).ReadBefore families)
    (hrest : Opens families rest) (htext : Starts starts text)
    (hstarts : starts ⊆ [.lineEnd, .comment, .quote, .word, .digit, .sign]) :
    ∃ lexemes, Lexeme.AllTrivia lexemes ∧
      Lexeme.split (blanks.text ++ (text ++ rest)) =
        lexemes ++ ⟨kind, text, none⟩ :: Lexeme.split rest ∧
      Opens (.blank :: starts) (blanks.text ++ (text ++ rest)) := by
  have hopens := htext.opens_append rest
  obtain ⟨lexemes, htrivia, hsplit⟩ := blanks.exists_trivia (hopens.mono hstarts)
  refine ⟨lexemes, htrivia, ?_, blanks.opens hopens⟩
  rw [hsplit]
  exact congrArg (lexemes ++ ·) (hread rest hrest)

theorem Filler.opens (filler : Filler) (h : Opens [.lineEnd] rest) :
    Opens [.blank, .lineEnd, .comment] (filler.text ++ rest) := by
  rw [Filler.text, List.append_assoc]
  apply Blanks.opens
  cases filler.comment with
  | none => exact h.mono (by decide)
  | some comment => exact opens_cons (by decide) _

theorem Filler.exists_trivia (filler : Filler) (h : Opens [.lineEnd] rest) :
    ∃ lexemes, Lexeme.AllTrivia lexemes ∧
      Lexeme.split (filler.text ++ rest) = lexemes ++ Lexeme.split rest := by
  rw [Filler.text, List.append_assoc]
  cases filler.comment with
  | none => exact filler.blanks.exists_trivia (h.mono (by decide))
  | some comment =>
    have hopens : Opens [.comment] (comment.text ++ rest) := opens_cons (by decide) _
    obtain ⟨lexemes, htrivia, hsplit⟩ := filler.blanks.exists_trivia (hopens.mono (by decide))
    refine ⟨lexemes ++ [⟨.comment, comment.text, none⟩], ?_, ?_⟩
    · exact htrivia.append (by simp [Lexeme.AllTrivia, TokenKind.isTrivia])
    · have hread := Lexeme.readBefore_comment comment.isOneLine rest h
      rw [List.append_assoc]
      exact hsplit.trans (congrArg (lexemes ++ ·) hread)

theorem LineBreak.opens (mark : LineBreak) (rest : List Char) :
    Opens [.lineEnd] (mark.text ++ rest) := by
  cases mark <;> exact opens_cons (by decide) _

theorem LineBreak.split_append (mark : LineBreak) (rest : List Char) :
    Lexeme.split (mark.text ++ rest) = ⟨.newline, mark.text, none⟩ :: Lexeme.split rest := by
  have hmark : mark.text ∈ [['\n'], ['\r', '\n']] := by cases mark <;> simp [text]
  exact Lexeme.readBefore_lineBreak hmark rest (opens_all rest)

end Parts

/-! ## Reading lines -/

/-- The lexemes of an assignment are its parts, with blanks and comments around them. -/
theorem Assigned.exists_lexemes (a : Assigned) (beforeName beforeOperator beforeValue : Blanks)
    (after : Filler) {rest : List Char} (h : Opens [.lineEnd] rest) :
    ∃ lexemes,
      Lexeme.split ((SourceLine.assigned a beforeName beforeOperator beforeValue after).text ++
        rest) = lexemes ++ Lexeme.split rest ∧
      ∃ token : TokenKind, token.leafKind? = some a.kind ∧
        (token = .identifier → identifierFault? a.value = none) ∧
        lexemes.filter (fun lexeme => !lexeme.kind.isTrivia) =
          [⟨.identifier, a.name.toList, none⟩, ⟨.assignmentOperator, a.operator.toList, none⟩,
            ⟨token, a.value.toList, none⟩] := by
  have hfault : identifierFault? (String.ofList a.name.toList) = none := by
    rw [String.ofList_toList]
    exact a.isName
  -- From the end of the line on: each part is read in front of what was read before.
  obtain ⟨filler, hfiller, hafter⟩ := after.exists_trivia h
  obtain ⟨token, hleaf, hvalue, hproper⟩ := a.isValue.exists_lexeme
  rw [String.ofList_toList] at hproper
  obtain ⟨blanks₃, htrivia₃, hsplit₃, hopens₃⟩ :=
    beforeValue.exists_part hvalue (after.opens h) a.isValue.starts (by decide)
  obtain ⟨blanks₂, htrivia₂, hsplit₂, hopens₂⟩ :=
    beforeOperator.exists_part (Lexeme.readBefore_operator a.isOperator) (hopens₃.mono (by decide))
      (starts_operator a.isOperator) (by decide)
  obtain ⟨blanks₁, htrivia₁, hsplit₁, -⟩ :=
    beforeName.exists_part (readBefore_name hfault) (hopens₂.mono (by decide))
      (starts_name (faultless_name hfault).1) (by decide)
  refine ⟨blanks₁ ++ ⟨.identifier, a.name.toList, none⟩ :: (blanks₂ ++
    ⟨.assignmentOperator, a.operator.toList, none⟩ :: (blanks₃ ++
      ⟨token, a.value.toList, none⟩ :: filler)), ?_, token, hleaf, hproper, ?_⟩
  · simp only [SourceLine.text, List.append_assoc]
    rw [hsplit₁, hsplit₂, hsplit₃, hafter]
    simp
  · have htoken : token.isTrivia = false := by
      cases token <;> first | rfl | cases hleaf
    rw [htrivia₁.filter_append rfl, htrivia₂.filter_append rfl, htrivia₃.filter_append htoken,
      hfiller.filter_eq_nil]

/-- A line is read as what it assigns, if a line end comes after it or nothing. -/
theorem SourceLine.exists_lexemes (line : SourceLine) {rest : List Char}
    (h : Opens [.lineEnd] rest) :
    ∃ lexemes, Lexeme.split (line.text ++ rest) = lexemes ++ Lexeme.split rest ∧
      ∀ position, ReadAs (Lexeme.place position lexemes) line.assignments := by
  cases line with
  | filler filler =>
    obtain ⟨lexemes, htrivia, hsplit⟩ := filler.exists_trivia h
    refine ⟨lexemes, hsplit, ?_⟩
    intro position
    apply ReadAs.of_trivia
    intro token hmem
    obtain ⟨lexeme, hlexeme, start, rfl⟩ := Lexeme.exists_of_mem_place hmem
    exact htrivia lexeme hlexeme
  | assigned a beforeName beforeOperator beforeValue after =>
    obtain ⟨lexemes, hsplit, token, hleaf, hproper, hkept⟩ :=
      a.exists_lexemes beforeName beforeOperator beforeValue after h
    refine ⟨lexemes, hsplit, ?_⟩
    intro position
    have hspells := Lexeme.forall₂_significant position lexemes
    rw [hkept] at hspells
    obtain ⟨name, _, hname, hrest, hrow⟩ := List.forall₂_cons_left_iff.mp hspells
    obtain ⟨operator, _, hoperator, hlast, rfl⟩ := List.forall₂_cons_left_iff.mp hrest
    obtain ⟨value, _, hvalue, hnil, rfl⟩ := List.forall₂_cons_left_iff.mp hlast
    rw [List.forall₂_nil_left_iff.mp hnil] at hrow
    simp only [Lexeme.Spells, String.ofList_toList] at hname hoperator hvalue
    apply ReadAs.of_assigned a hrow hname hoperator.1
    · rw [hvalue.1]
      exact ⟨hleaf, hvalue.2⟩
    · rw [hvalue.1, hvalue.2]
      exact hproper

/-- Any lines one after the other are read as all that they assign. -/
theorem SourceText.readAs (source : SourceText) (position : Position) :
    ReadAs (Lexeme.place position (Lexeme.split source.text)) source.assignments := by
  induction source generalizing position with
  | last line =>
    obtain ⟨lexemes, hsplit, hread⟩ := line.exists_lexemes (opens_nil [.lineEnd])
    rw [List.append_nil, Lexeme.split_nil, List.append_nil] at hsplit
    rw [SourceText.text, hsplit]
    exact hread position
  | lines line mark rest ih =>
    obtain ⟨lexemes, hsplit, hread⟩ := line.exists_lexemes (mark.opens rest.text)
    rw [mark.split_append] at hsplit
    rw [SourceText.text, hsplit, Lexeme.place_append]
    have hmark : ReadAs [Lexeme.toToken ⟨.newline, mark.text, none⟩
        (position.past (lexemes.flatMap Lexeme.text))] [] := .of_newline rfl
    exact (hread position).append (hmark.append (ih _))

/-! ## Reading a program -/

/-- The parser reads what is significant in the tokens of a text. -/
theorem programTokens_tokenize (source : String) :
    programTokens (tokenize source).tokens = significant (scan source) := by
  have hmark : (Token.endMark (endOf source)).kind = .endMark := rfl
  rw [tokenize, programTokens_append_mark hmark (kind_ne_endMark source), List.filter_filter,
    significant]
  apply List.filter_congr
  intro token _
  by_cases hblank : token.kind = .whitespace
  · simp [hblank, TokenKind.isTrivia]
  · simp [hblank]

theorem ReadAs.analyze {source : String} {assignments : List Assigned}
    (h : ReadAs (scan source) assignments) :
    (Assay.analyze source).lexicalErrors = [] ∧ (Assay.analyze source).syntaxErrors = [] ∧
      ∃ statements, List.Forall₂ Assigned.Makes assignments statements ∧
        (Assay.analyze source).tree =
          if assignments = [] then none else some ⟨.program, none, statements, none⟩ := by
  have herror := h.no_error
  obtain ⟨items, hitems, hmakes, hnames⟩ := h
  have hderive : derive (tokenize source).tokens =
      readProgram (programEnd (tokenize source).tokens) (items.flatMap Item.tokens) := by
    rw [derive_eq, programTokens_tokenize, hitems]
  obtain ⟨hstatements, hreports⟩ :=
    readProgram_items _ (programEnd_kind (tokenize source).tokens) items
  rw [← hderive] at hstatements hreports
  refine ⟨?_, hreports.trans hnames, items.filterMap Item.statement?, hmakes, ?_⟩
  · have hnone : (scan source).filter (fun token => token.kind = .error) = [] := by
      rw [List.filter_eq_nil_iff]
      intro token hmem
      simpa using herror token hmem
    simp [Assay.analyze, tokenize, hnone]
  · show (derive (tokenize source).tokens).tree? = _
    have hempty : assignments = [] ↔ items.filterMap Item.statement? = [] := by
      rw [← List.length_eq_zero_iff, hmakes.length_eq, List.length_eq_zero_iff]
    simp only [Derivation.tree?, Node.program, hstatements, List.isEmpty_iff, hempty]

/-! ## The law -/

/-- Assignments in any layout survive the whole analysis. Nothing is found, and the tree holds
just these assignments in their order, each with its name and with one leaf for its value. Where
nothing is assigned, there is no tree. -/
theorem well_formed_programs_survive (source : SourceText) :
    (analyze (String.ofList source.text)).lexicalErrors = [] ∧
      (analyze (String.ofList source.text)).syntaxErrors = [] ∧
      ∃ statements, List.Forall₂ Assigned.Makes source.assignments statements ∧
        (analyze (String.ofList source.text)).tree =
          if source.assignments = [] then none else some ⟨.program, none, statements, none⟩ := by
  apply ReadAs.analyze
  rw [scan, String.toList_ofList]
  exact source.readAs .start

/-- A sum with a comment after it, a blank line, and a string between no blanks. -/
def sumAndString : SourceText :=
  .lines (.assigned
      { name := "total", operator := "+=", value := "12", kind := .integerLiteral
        isName := by decide
        isOperator := by decide
        isValue := .integer (p := .digits) (by simp [Pattern.integers])
          (Pattern.mem_many.mpr ⟨by decide, List.all_eq_true.mp (by decide)⟩) }
      ⟨[], by simp⟩ ⟨[' '], by simp⟩ ⟨['\t', ' '], by simp⟩
      ⟨⟨[' '], by simp⟩, some ⟨[' ', 'n'], by simp [isLineEnd]⟩⟩) .returnFeed
    (.lines (.filler ⟨⟨[' '], by simp⟩, none⟩) .lineFeed
      (.last (.assigned
        { name := "_y", operator := "=", value := "'\\''", kind := .stringLiteral
          isName := by decide
          isOperator := by decide
          isValue := .lineLiteral (by decide) (.escape (by decide) .nil) }
        ⟨[], by simp⟩ ⟨[], by simp⟩ ⟨[], by simp⟩ ⟨⟨[], by simp⟩, none⟩)))

/-- Both assignments are read, each on its line. -/
theorem a_sum_and_a_string_are_read :
    String.ofList sumAndString.text = "total +=\t 12 # n\r\n \n_y='\\''" ∧
      (analyze (String.ofList sumAndString.text)).syntaxErrors = [] ∧
      ∃ first second, (analyze (String.ofList sumAndString.text)).tree =
          some ⟨.program, none, [first, second], none⟩ ∧
        first.value = some "total" ∧ second.value = some "_y" := by
  obtain ⟨-, hsyntax, statements, hmakes, htree⟩ := well_formed_programs_survive sumAndString
  obtain ⟨first, _, hfirst, hrest, rfl⟩ := List.forall₂_cons_left_iff.mp hmakes
  obtain ⟨second, _, hsecond, hnil, rfl⟩ := List.forall₂_cons_left_iff.mp hrest
  rw [List.forall₂_nil_left_iff.mp hnil] at htree
  exact ⟨by decide, hsyntax, first, second, htree, hfirst.2.1, hsecond.2.1⟩

/-- An empty line. -/
def emptyText : SourceText :=
  .last (.filler ⟨⟨[], by simp⟩, none⟩)

/-- There is not always a tree for the assignments of a text: an empty text has none, and no
tree. -/
theorem an_empty_text_has_no_tree :
    ¬ ∀ source : SourceText, ∃ statements,
      List.Forall₂ Assigned.Makes source.assignments statements ∧
        (analyze (String.ofList source.text)).tree = some ⟨.program, none, statements, none⟩ := by
  intro h
  obtain ⟨statements, -, htree⟩ := h emptyText
  have hnone : (analyze (String.ofList emptyText.text)).tree.isNone := by decide +kernel
  rw [htree] at hnone
  cases hnone

end Assay
