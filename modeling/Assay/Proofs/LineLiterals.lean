-- Literals on one line. A step reads one up to the first quote that stands on
-- its own, and it is a string if all its escapes are known. Where the line
-- holds no such quote, the rest of the line is read, and the literal is open.
-- The reach, the close and the escapes are three recursions of the scanner;
-- here each is an equation about the same row of units.
import Assay.Proofs.Literals

namespace Assay

/-! ## Units between quotes -/

/-- The line at the front of a text, without its end. -/
def firstLine (text : List Char) : List Char :=
  text.takeWhile (fun c => !isLineEnd c)

/-- No unit is the quote on its own. -/
def Inside (quote : Char) (units : List BodyUnit) : Prop :=
  ∀ unit ∈ units, unit.text ≠ [quote]

/-- The characters that stand behind a backslash, from left to right. -/
def escapedChars (units : List BodyUnit) : List Char :=
  units.filterMap BodyUnit.escaped?

section

variable {quote : Char} {units : List BodyUnit}

@[simp] theorem inside_nil : Inside quote [] := by
  simp [Inside]

@[simp] theorem inside_plain {c : Char} {hc : c ≠ '\\'} :
    Inside quote (.plain c hc :: units) ↔ c ≠ quote ∧ Inside quote units := by
  simp [Inside, BodyUnit.text]

@[simp] theorem inside_escape {c : Char} :
    Inside quote (.escape c :: units) ↔ Inside quote units := by
  simp [Inside, BodyUnit.text]

/-- The units before the first quote that stands on its own are determined. -/
theorem Inside.unique {line : List Char} {others : List BodyUnit} (hescape : quote ≠ '\\')
    (h : Inside quote units) (hothers : Inside quote others)
    (hcloses : ClosesAfter [quote] line units) (hcloses' : ClosesAfter [quote] line others) :
    others = units := by
  induction units generalizing others line with
  | nil =>
    obtain ⟨more, rfl⟩ := hcloses
    match others with
    | [] => rfl
    | .plain c hc :: others =>
      have hsame := (List.cons_prefix_cons.mp hcloses').1
      exact absurd hsame (inside_plain.mp hothers).1
    | .escape c :: others => exact absurd (List.cons_prefix_cons.mp hcloses').1.symm hescape
  | cons unit units ih =>
    obtain ⟨more, rfl⟩ := hcloses
    have hrest : ClosesAfter [quote] (unitsText units ++ [quote] ++ more) units :=
      List.prefix_append _ more
    match unit, others with
    | .plain c hc, [] =>
      have hsame := (List.cons_prefix_cons.mp hcloses').1
      exact absurd hsame.symm (inside_plain.mp h).1
    | .escape c, [] => exact absurd (List.cons_prefix_cons.mp hcloses').1 hescape
    | .plain c hc, .escape d :: others =>
      exact absurd (List.cons_prefix_cons.mp hcloses').1.symm hc
    | .escape c, .plain d hd :: others => exact absurd (List.cons_prefix_cons.mp hcloses').1 hd
    | .plain c hc, .plain d hd :: others =>
      obtain ⟨rfl, htail⟩ := closesAfter_plain.mp hcloses'
      rw [ih (inside_plain.mp h).2 (inside_plain.mp hothers).2 hrest htail]
    | .escape c, .escape d :: others =>
      obtain ⟨-, rfl, htail⟩ := closesAfter_escape.mp hcloses'
      rw [ih (inside_escape.mp h) (inside_escape.mp hothers) hrest htail]

/-! ## Reach, close and escapes -/

/-- A literal is read up to the first quote that stands on its own, if that is on the line. -/
theorem lineBodyLength_units (hquote : isQuote quote) (h : Inside quote units)
    (hline : ∀ c ∈ unitsText units, ¬ isLineEnd c) (rest : List Char) :
    lineBodyLength quote (unitsText units ++ quote :: rest) = (unitsText units).length + 1 := by
  induction units with
  | nil =>
    rw [unitsText_nil, List.nil_append, lineBodyLength_cons (isQuote_ne_backslash hquote),
      if_neg (isQuote_ne_lineEnd hquote), if_pos rfl]
    rfl
  | cons unit units ih =>
    cases unit with
    | plain c hc =>
      obtain ⟨hne, hinside⟩ := inside_plain.mp h
      have htail := ih hinside (fun d hd => hline d (List.mem_cons_of_mem _ hd))
      rw [unitsText_plain, List.cons_append, lineBodyLength_cons hc,
        if_neg (hline c List.mem_cons_self), if_neg hne, htail, List.length_cons]
      omega
    | escape c =>
      have htail := ih (inside_escape.mp h)
        (fun d hd => hline d (List.mem_cons_of_mem _ (List.mem_cons_of_mem _ hd)))
      have hc := hline c (List.mem_cons_of_mem _ List.mem_cons_self)
      rw [unitsText_escape, List.cons_append, List.cons_append, lineBodyLength, if_neg hc, htail]
      simp only [List.length_cons]
      omega

theorem closedBy_units (hescape : quote ≠ '\\') (h : Inside quote units) :
    closedBy quote (unitsText units ++ [quote]) := by
  induction units with
  | nil => rw [unitsText_nil, List.nil_append, closedBy_cons hescape, if_pos rfl]; rfl
  | cons unit units ih =>
    cases unit with
    | plain c hc =>
      obtain ⟨hne, hinside⟩ := inside_plain.mp h
      rw [unitsText_plain, List.cons_append, closedBy_cons hc, if_neg hne, ih hinside]
    | escape c =>
      rw [unitsText_escape, List.cons_append, List.cons_append, closedBy,
        ih (inside_escape.mp h)]

/-- The escape that is found fault with is the first that is not known. -/
theorem unknownEscape?_units (hescape : quote ≠ '\\') (units : List BodyUnit) :
    unknownEscape? (unitsText units ++ [quote]) =
      (escapedChars units).find? (fun c => c ∉ escapes) := by
  induction units with
  | nil => rw [unitsText_nil, List.nil_append, unknownEscape?_cons hescape, unknownEscape?]; rfl
  | cons unit units ih =>
    cases unit with
    | plain c hc =>
      rw [unitsText_plain, List.cons_append, unknownEscape?_cons hc, ih]
      rfl
    | escape c =>
      have hchars : escapedChars (.escape c :: units) = c :: escapedChars units := rfl
      rw [unitsText_escape, List.cons_append, List.cons_append, unknownEscape?, ih, hchars,
        List.find?_cons]
      by_cases hc : c ∈ escapes
      · simp [hc]
      · simp [hc]

/-- A line on which no quote stands on its own is read to its end, and not closed. -/
theorem open_line {line : List Char} (hline : ∀ c ∈ line, ¬ isLineEnd c)
    (hopen : ∀ units, Inside quote units → ¬ ClosesAfter [quote] line units) :
    lineBodyLength quote line = line.length ∧ closedBy quote line = false := by
  fun_induction lineBodyLength quote line with
  | case1 => exact ⟨rfl, rfl⟩
  | case2 => exact ⟨rfl, rfl⟩
  | case3 c rest hc => exact absurd hc (hline c (List.mem_cons_of_mem _ List.mem_cons_self))
  | case4 c rest hc ih =>
    have hrest := ih (fun d hd => hline d (List.mem_cons_of_mem _ (List.mem_cons_of_mem _ hd)))
      (fun units hunits hcloses => hopen (.escape c :: units) (inside_escape.mpr hunits)
        (closesAfter_escape.mpr ⟨rfl, rfl, hcloses⟩))
    rw [closedBy, hrest.1]
    simp only [List.length_cons]
    exact ⟨by omega, hrest.2⟩
  | case5 c rest hlast hunit hc => exact absurd hc (hline c List.mem_cons_self)
  | case6 rest hlast hunit hc => exact absurd ⟨rest, rfl⟩ (hopen [] inside_nil)
  | case7 c rest hlast hunit hc hne ih =>
    have hplain := ne_backslash hlast hunit
    have hrest := ih (fun d hd => hline d (List.mem_cons_of_mem _ hd))
      (fun units hunits hcloses => hopen (.plain c hplain :: units)
        (inside_plain.mpr ⟨hne, hunits⟩) (closesAfter_plain.mpr ⟨rfl, hcloses⟩))
    rw [closedBy_cons hplain, if_neg hne, hrest.1, List.length_cons, Nat.add_comm]
    exact ⟨rfl, hrest.2⟩

end

/-! ## What is read and judged -/

theorem firstLine_quote {quote : Char} (hquote : isQuote quote) (rest : List Char) :
    firstLine (quote :: rest) = quote :: firstLine rest :=
  List.takeWhile_cons_of_pos (by simpa using isQuote_ne_lineEnd hquote)

theorem firstLine_prefix_self (text : List Char) : firstLine text <+: text :=
  List.takeWhile_prefix _

theorem not_lineEnd_of_mem_firstLine {text : List Char} {c : Char} (h : c ∈ firstLine text) :
    ¬ isLineEnd c := by
  have hall := List.all_takeWhile (p := fun c => !isLineEnd c) (l := text)
  simpa using List.all_eq_true.mp hall c h

/-- A text is its first line and what starts with the end of that line. -/
theorem exists_firstLine_append (text : List Char) :
    ∃ more, text = firstLine text ++ more ∧ ∀ c ∈ more.head?, isLineEnd c := by
  refine ⟨text.dropWhile (fun c => !isLineEnd c), List.takeWhile_append_dropWhile.symm, ?_⟩
  intro c hc
  have hstop := List.head?_dropWhile_not (fun c => !isLineEnd c) text
  rw [Option.mem_def.mp hc] at hstop
  simpa using hstop

/-- Without two more of its quotes behind the first, a text is judged as a literal on one line. -/
theorem literalFault?_line {quote : Char} {rest : List Char} (hnot : ¬ [quote, quote] <+: rest) :
    literalFault? quote rest =
      if closedBy quote rest then (unknownEscape? rest).map .unknownEscape else some .openLine := by
  unfold literalFault?
  rw [if_neg (fun hquotes => hnot (List.isPrefixOf_iff_prefix.mp hquotes.2))]

section

variable {quote : Char} {rest : List Char} (hquote : isQuote quote)
  (hnot : ¬ [quote, quote] <+: rest)

include hquote hnot

/-- A literal that is closed on its line, and the fault of its escapes, if there is one. -/
theorem Lexeme.first_of_closed_line {units : List BodyUnit} (h : Inside quote units)
    (hcloses : ClosesAfter [quote] (firstLine rest) units) :
    Lexeme.first quote rest =
      ⟨if ((escapedChars units).find? (fun c => c ∉ escapes)).isSome then .error else .string,
        quote :: (unitsText units ++ [quote]),
        ((escapedChars units).find? (fun c => c ∉ escapes)).map .unknownEscape⟩ := by
  have hescape := isQuote_ne_backslash hquote
  have hline : ∀ c ∈ unitsText units, ¬ isLineEnd c := fun c hc =>
    not_lineEnd_of_mem_firstLine (hcloses.subset (List.mem_append_left _ hc))
  have hfront : unitsText units ++ [quote] <+: rest := hcloses.trans (firstLine_prefix_self rest)
  have hfault : literalFault? quote (unitsText units ++ [quote]) =
      ((escapedChars units).find? (fun c => c ∉ escapes)).map .unknownEscape := by
    rw [literalFault?_line (fun hquotes => hnot (hquotes.trans hfront)),
      if_pos (closedBy_units hescape h), unknownEscape?_units hescape]
  obtain ⟨more, hmore⟩ := hfront
  have htake : rest.take (lineBodyLength quote rest) = unitsText units ++ [quote] := by
    rw [← hmore, List.append_assoc, List.singleton_append,
      lineBodyLength_units hquote h hline more, List.append_cons]
    exact List.take_left' (by simp)
  rw [first_of_lineLiteral hquote hnot, htake, judge_string, hfault, Option.isSome_map]

theorem Lexeme.first_of_open_line
    (hopen : ∀ units, Inside quote units → ¬ ClosesAfter [quote] (firstLine rest) units) :
    Lexeme.first quote rest = ⟨.error, quote :: firstLine rest, some .openLine⟩ := by
  obtain ⟨hlength, hclosed⟩ := open_line (fun c hc => not_lineEnd_of_mem_firstLine hc) hopen
  have hfault : literalFault? quote (firstLine rest) = some .openLine := by
    rw [literalFault?_line (fun hquotes => hnot (hquotes.trans (firstLine_prefix_self rest))),
      hclosed]
    rfl
  obtain ⟨more, hrow, hmore⟩ := exists_firstLine_append rest
  have htake : rest.take (lineBodyLength quote rest) = firstLine rest := by
    have hreach := lineBodyLength_append_of_lineEnd quote hmore (firstLine rest)
    rw [← hrow, hlength] at hreach
    rw [hreach]
    exact (List.prefix_iff_eq_take.mp (firstLine_prefix_self rest)).symm
  rw [first_of_lineLiteral hquote hnot, htake, judge_string, hfault]
  rfl

end

/-! ## The law -/

theorem closesAfter_firstLine_iff {quote : Char} (hquote : isQuote quote) (rest : List Char)
    (units : List BodyUnit) :
    quote :: (unitsText units ++ [quote]) <+: firstLine (quote :: rest) ↔
      ClosesAfter [quote] (firstLine rest) units := by
  rw [firstLine_quote hquote, List.cons_prefix_cons]
  exact and_iff_right rfl

/-- A literal on one line is read to its quote. If units without a bare quote and then the quote
follow on the line, they are the only ones that do, and a step gives just this text: a string if
every escape is known, else an error that names the first one that is not. If there are no such
units on the line, a step gives the line, to its end, as a literal that is not closed. -/
theorem a_line_literal_is_read_to_its_quote (source : String) (offset : Nat) (quote : Char)
    (rest : List Char) (hquote : isQuote quote)
    (htext : source.toList.drop offset = quote :: rest) (hnot : ¬ [quote, quote] <+: rest) :
    (∀ units, Inside quote units →
      quote :: (unitsText units ++ [quote]) <+: firstLine (quote :: rest) →
      (∀ others, Inside quote others →
        quote :: (unitsText others ++ [quote]) <+: firstLine (quote :: rest) → others = units) ∧
      ((∀ c ∈ escapedChars units, c ∈ escapes) →
        ReadAt source offset ⟨.string, quote :: (unitsText units ++ [quote]), none⟩) ∧
      ∀ (known : List Char) (c : Char) (more : List Char),
        escapedChars units = known ++ c :: more → (∀ d ∈ known, d ∈ escapes) → c ∉ escapes →
        ReadAt source offset
          ⟨.error, quote :: (unitsText units ++ [quote]), some (.unknownEscape c)⟩) ∧
    ((∀ units, Inside quote units →
        ¬ quote :: (unitsText units ++ [quote]) <+: firstLine (quote :: rest)) →
      ReadAt source offset ⟨.error, firstLine (quote :: rest), some .openLine⟩) ∧
    LexicalFault.openLine.problem.code = "L002" ∧
    ∀ c, (LexicalFault.unknownEscape c).problem.code = "L003" ∧
      (LexicalFault.unknownEscape c).problem.message =
        "Invalid escape sequence: \\" ++ String.ofList [c] := by
  have hread := readAt_first htext
  refine ⟨?_, ?_, rfl, fun c => ⟨rfl, rfl⟩⟩
  · intro units hinside hunits
    have hcloses := (closesAfter_firstLine_iff hquote rest units).mp hunits
    rw [Lexeme.first_of_closed_line hquote hnot hinside hcloses] at hread
    refine ⟨?_, ?_, ?_⟩
    · intro others hothers hcloses'
      exact hinside.unique (isQuote_ne_backslash hquote) hothers hcloses
        ((closesAfter_firstLine_iff hquote rest others).mp hcloses')
    · intro hknown
      have hnone : (escapedChars units).find? (fun c => c ∉ escapes) = none := by
        rw [List.find?_eq_none]
        intro c hc
        simpa using hknown c hc
      rwa [hnone] at hread
    · intro known c more hsplit hknown hc
      have hsome : (escapedChars units).find? (fun c => c ∉ escapes) = some c := by
        rw [List.find?_eq_some_iff_append]
        refine ⟨by simpa using hc, known, more, hsplit, ?_⟩
        intro d hd
        simpa using hknown d hd
      rwa [hsome] at hread
  · intro hopen
    rw [firstLine_quote hquote]
    rwa [Lexeme.first_of_open_line hquote hnot (fun units hinside hcloses =>
      hopen units hinside ((closesAfter_firstLine_iff hquote rest units).mpr hcloses))] at hread

/-- An escaped quote between two escapes that are not known, and a quote on the next line. -/
def badEscapes : List BodyUnit := [.escape 'q', .escape '\'', .escape 'w']

/-- Of two escapes that are not known, the first is named. -/
theorem the_first_of_two_bad_escapes_is_named :
    isQuote '\'' ∧ "x='\\q\\'\\w'\n'".toList.drop 2 = '\'' :: "\\q\\'\\w'\n'".toList ∧
      ¬ ['\'', '\''] <+: "\\q\\'\\w'\n'".toList ∧
      ReadAt "x='\\q\\'\\w'\n'" 2 ⟨.error, "'\\q\\'\\w'".toList, some (.unknownEscape 'q')⟩ := by
  have htext : "x='\\q\\'\\w'\n'".toList.drop 2 = '\'' :: "\\q\\'\\w'\n'".toList := by decide
  have hnot : ¬ ['\'', '\''] <+: "\\q\\'\\w'\n'".toList := by decide
  obtain ⟨hclosed, -⟩ := a_line_literal_is_read_to_its_quote "x='\\q\\'\\w'\n'" 2 '\''
    "\\q\\'\\w'\n'".toList (by decide) htext hnot
  obtain ⟨-, -, hbad⟩ := hclosed badEscapes (by simp [badEscapes]) (by decide)
  exact ⟨by decide, htext, hnot, hbad [] 'q' ['\'', 'w'] rfl (by simp) (by decide)⟩

end Assay
