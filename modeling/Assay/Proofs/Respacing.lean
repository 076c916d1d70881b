-- Other blanks between the tokens of a text. What a rule took from the text it
-- takes again before any blank, if the lexeme is proper, so the tokens of a
-- text, written with blanks of any kind between them, are read as before.
import Assay.Proofs.Layout
import Assay.Proofs.LineReach
import Assay.Proofs.Rewriting
import Assay.Proofs.Tracing

namespace Assay

/-! ## Lexemes before a blank -/

theorem eq_front_of_length {front after s : List Char} (hpre : s <+: front ++ after)
    (hlength : s.length = front.length) : s = front :=
  (List.prefix_of_prefix_length_le hpre (List.prefix_append _ _) hlength.le).eq_of_length hlength

namespace Lexeme

section Decided

variable {rule : Rule} {c : Char} {tail after : List Char}
  (h : Rule.first? (c :: tail ++ after) = some (rule, (c :: tail).length))

include h

theorem readBefore_of_decided_lineEnd (hfamily : rule.shape.family = .lineEnd) :
    (judge rule.kind c tail).ReadBefore [.blank] := by
  obtain ⟨hrule, hlength, -⟩ := Rule.of_first? h
  have hmem : rule ∈ Rule.ofFamily .lineEnd := List.mem_filter.mpr ⟨hrule, decide_eq_true hfamily⟩
  have hone : Rule.ofFamily .lineEnd = [⟨"newline", .lineBreak, .newline⟩] := rfl
  rw [hone, List.mem_singleton] at hmem
  subst hmem
  have hmark : c :: tail ∈ [['\n'], ['\r', '\n']] := by
    unfold Rule.length at hlength
    rw [Shape.length] at hlength
    split at hlength
    · rename_i hpre
      rw [← eq_front_of_length (List.isPrefixOf_iff_prefix.mp hpre) hlength.symm]
      decide
    · split at hlength
      · rename_i hpre
        rw [← eq_front_of_length (List.isPrefixOf_iff_prefix.mp hpre) hlength.symm]
        decide
      · exact absurd hlength (Nat.succ_ne_zero _)
  exact (readBefore_lineBreak hmark).mono (by decide)

theorem readBefore_of_decided_digit (hfamily : rule.shape.family = .digit) :
    (judge rule.kind c tail).ReadBefore [.blank] := by
  obtain ⟨hrule, hlength, hne⟩ := Rule.of_first? h
  have hkinds : ∀ r ∈ Rule.table, r.shape.family = .digit → r.kind ∈ [.integer, .float] := by decide
  have hkind := hkinds rule hrule hfamily
  obtain ⟨p, hp, hn⟩ := Rule.exists_pattern hfamily (hlength ▸ hne)
  obtain ⟨name, shape, kind⟩ := rule
  cases shape with
  | pattern q =>
    cases hp
    obtain ⟨word, hword, hpre, hwordlength⟩ :=
      Pattern.length?_eq_some (Rule.mem_numerals hrule rfl) hn
    rw [eq_front_of_length hpre (hwordlength.trans hlength.symm)] at hword
    have hjudge : judge kind c tail = ⟨kind, c :: tail, none⟩ := by
      simp only [List.mem_cons, List.not_mem_nil, or_false] at hkind
      rcases hkind with rfl | rfl <;> rfl
    rw [hjudge]
    exact (readBefore_numeral hrule hkind hword).mono (by decide)
  | _ => cases hfamily

theorem readBefore_of_decided_sign (hfamily : rule.shape.family = .sign) :
    (judge rule.kind c tail).ReadBefore [.blank] := by
  obtain ⟨hrule, hlength, hne⟩ := Rule.of_first? h
  have hspelled : (Shape.spelling rule.spellings).length (c :: tail ++ after) =
      (c :: tail).length := by
    rw [hlength, ← Rule.shape_of_sign hfamily]
    rfl
  obtain ⟨s, hs, hpre, hslength⟩ := Shape.exists_of_spelling (hspelled ▸ hne)
  rw [eq_front_of_length hpre (hslength.trans hspelled)] at hs
  exact (readBefore_sign (List.mem_filter.mpr ⟨hrule, decide_eq_true hfamily⟩) hs).mono (by decide)

/-- The rule for names takes no word operator: the rule for that would have taken it before. -/
theorem readBefore_of_decided_name (hshape : rule.shape = .word) (hnil : rule.words = []) :
    (judge rule.kind c tail).ReadBefore [.blank] := by
  obtain ⟨hrule, hlength, -⟩ := Rule.of_first? h
  have hnames : ∀ r ∈ Rule.table, r.shape.family = .word → r.words = [] →
      r.kind = .identifier ∧ r.name ∉ Rule.wordOperators := by decide
  obtain ⟨hkind, hname⟩ := hnames rule hrule (by rw [hshape]; rfl) hnil
  unfold Rule.length at hlength
  rw [hshape, List.cons_append] at hlength
  have hstart : isWordStart c := by
    by_contra hstart
    rw [Shape.length, if_neg hstart] at hlength
    exact absurd hlength (Nat.succ_ne_zero _)
  rw [Shape.length_word hstart, ← List.cons_append] at hlength
  have hword := eq_front_of_length (List.takeWhile_prefix _) hlength.symm
  have hchars : ∀ d ∈ tail, isWordChar d := by
    intro d hd
    exact List.all_eq_true.mp List.all_takeWhile d (hword.symm ▸ List.mem_cons_of_mem c hd)
  have hisName : isName (c :: tail) :=
    Bool.and_eq_true_iff.mpr ⟨hstart, List.all_eq_true.mpr hchars⟩
  rw [hkind]
  refine (readBefore_word hisName ?_).mono (by decide)
  intro other hother hmem
  have hne' : other ≠ rule := by
    rintro rfl
    rw [hnil] at hmem
    cases hmem
  have hall : other.length (c :: tail ++ after) = (c :: tail).length := by
    rw [Rule.length_of_mem_words hother (by rw [hword]; exact hmem), hword]
  rcases Rule.others_of_first? h hother hne' with hless | ⟨-, hoperator, -⟩
  · omega
  · exact hname hoperator

theorem readBefore_of_decided_word (hfamily : rule.shape.family = .word) :
    (judge rule.kind c tail).ReadBefore [.blank] := by
  obtain ⟨hrule, hlength, hne⟩ := Rule.of_first? h
  rcases Rule.shape_of_word hfamily with hshape | ⟨hshape, hnil⟩
  · obtain ⟨hmem, htake⟩ := Rule.length_of_words hrule hshape (hlength ▸ hne)
    rw [eq_front_of_length (List.takeWhile_prefix _) (htake.symm.trans hlength.symm)] at hmem
    exact (readBefore_wordOperator hrule hmem).mono (by decide)
  · exact readBefore_of_decided_name h hshape hnil

theorem readBefore_of_decided_lineLiteral (hrule : rule = ⟨"string", .lineLiteral, .string⟩)
    (hkind : (judge rule.kind c tail).kind ≠ .error) :
    (judge rule.kind c tail).ReadBefore [.blank] := by
  obtain ⟨hmem, hlength, hne⟩ := Rule.of_first? h
  subst hrule
  have hblockrule : (⟨"triple_string", .blockLiteral, .string⟩ : Rule) ∈ Rule.table := by
    simp [Rule.table]
  have hline : lineLength (c :: tail ++ after) = (c :: tail).length := hlength.symm
  have hblock : blockLength (c :: tail ++ after) = 0 := by
    by_contra hblock
    have hless := Rule.lineLength_lt_blockLength hblock
    rcases Rule.others_of_first? h hblockrule (by simp) with hbefore | ⟨-, hoperator, -⟩
    · have htaken : blockLength (c :: tail ++ after) < (c :: tail).length := hbefore
      omega
    · exact absurd hoperator (by decide)
  have hquote : isQuote c := by
    by_contra hquote
    rw [List.cons_append, lineLength, if_neg hquote] at hline
    exact absurd hline.symm (Nat.succ_ne_zero _)
  have hbody : lineBodyLength c (tail ++ after) = tail.length := by
    rw [List.cons_append, lineLength, if_pos hquote, List.length_cons] at hline
    omega
  have hfault : literalFault? c tail = none := by
    cases hfault : literalFault? c tail with
    | none => rfl
    | some fault =>
      rw [judge, hfault] at hkind
      exact absurd rfl hkind
  have hnot : ¬ (isQuote c ∧ [c, c].isPrefixOf tail) := by
    rintro ⟨-, hpre⟩
    obtain ⟨body, rfl⟩ := List.isPrefixOf_iff_prefix.mp hpre
    simp only [List.cons_append, List.nil_append] at hblock
    rw [blockLength, if_pos ⟨hquote, rfl, rfl⟩] at hblock
    omega
  obtain ⟨hclosed, hescape⟩ := closedBy_of_literalFault? hnot hfault
  obtain ⟨body, hlinebody, rfl⟩ := exists_lineBody after hclosed hescape hbody
  have hjudge : judge .string c (body ++ [c]) = ⟨.string, c :: body ++ [c], none⟩ := by
    rw [judge, hlinebody.literalFault?_append hquote]
    rfl
  rw [hjudge]
  exact (readBefore_lineLiteral hquote hlinebody).mono (by decide)

/-- A block literal that is not closed reaches to the end of the text. -/
theorem readBefore_of_decided_blockLiteral
    (hrule : rule = ⟨"triple_string", .blockLiteral, .string⟩) (hafter : after ≠ []) :
    (judge rule.kind c tail).ReadBefore [.blank] := by
  obtain ⟨-, hlength, hne⟩ := Rule.of_first? h
  subst hrule
  have hblock : blockLength (c :: tail ++ after) = (c :: tail).length := hlength.symm
  obtain ⟨quote, body, hquote, hrow⟩ := exists_quotes_of_blockLength (hblock ▸ hne)
  rcases exists_closed_or_blockBodyLength quote body with
    ⟨closed, hclosed, more, rfl⟩ | hopen
  · have hreach : blockLength (c :: tail ++ after) =
        (quote :: quote :: quote :: closed).length := by
      rw [hrow]
      exact hclosed.blockLength_append hquote more
    have hpre : quote :: quote :: quote :: closed <+: c :: tail ++ after := ⟨more, hrow.symm⟩
    have hfront := eq_front_of_length hpre (hreach.symm.trans hblock)
    obtain ⟨rfl, rfl⟩ := List.cons.inj hfront
    have hjudge : judge .string quote (quote :: quote :: closed) =
        ⟨.string, quote :: quote :: quote :: closed, none⟩ := by
      rw [judge, hclosed.literalFault?_append hquote]
    rw [hjudge]
    exact (readBefore_blockLiteral hquote hclosed).mono (by decide)
  · have hall : blockLength (c :: tail ++ after) = (c :: tail ++ after).length := by
      rw [hrow, blockLength, if_pos ⟨hquote, rfl, rfl⟩, hopen]
      simp only [List.length_cons]
      omega
    rw [hblock, List.length_append] at hall
    exact absurd (List.length_eq_zero_iff.mp (by omega)) hafter

/-- A proper lexeme after which the text goes on is read again before a blank. -/
theorem readBefore_of_decided
    (hkind : (judge rule.kind c tail).kind ∉ [.error, .comment, .whitespace])
    (hafter : after ≠ []) : (judge rule.kind c tail).ReadBefore [.blank] := by
  have hrule := (Rule.of_first? h).1
  have hmem : rule ∈ Rule.ofFamily rule.shape.family :=
    List.mem_filter.mpr ⟨hrule, decide_eq_true rfl⟩
  simp only [List.mem_cons, List.not_mem_nil, or_false, not_or] at hkind
  cases hfamily : rule.shape.family with
  | blank =>
    have hone : Rule.ofFamily .blank = [⟨"whitespace", .blanks, .whitespace⟩] := rfl
    rw [hfamily, hone, List.mem_singleton] at hmem
    rw [hmem] at hkind
    exact absurd rfl hkind.2.2
  | comment =>
    have hone : Rule.ofFamily .comment = [⟨"comment", .comment, .comment⟩] := rfl
    rw [hfamily, hone, List.mem_singleton] at hmem
    rw [hmem] at hkind
    exact absurd rfl hkind.2.1
  | lineEnd => exact readBefore_of_decided_lineEnd h hfamily
  | quote =>
    rw [hfamily, Rule.ofFamily_quote] at hmem
    simp only [List.mem_cons, List.not_mem_nil, or_false] at hmem
    rcases hmem with hblock | hline
    · exact readBefore_of_decided_blockLiteral h hblock hafter
    · exact readBefore_of_decided_lineLiteral h hline hkind.1
  | word => exact readBefore_of_decided_word h hfamily
  | digit => exact readBefore_of_decided_digit h hfamily
  | sign => exact readBefore_of_decided_sign h hfamily

end Decided

end Lexeme

/-! ## Texts with gaps between them -/

/-- Blanks, one at least. -/
structure Gap extends Blanks where
  ne_nil : text ≠ []

/-- Texts one after the other, a gap between each two of them. -/
def spaced (gaps : Nat → Gap) : List (List Char) → List Char
  | [] => []
  | [text] => text
  | text :: next :: rest =>
    text ++ ((gaps 0).text ++ spaced (fun i => gaps (i + 1)) (next :: rest))

namespace Lexeme

/-- The first characters of lexemes that are no blanks. -/
def solid : List Family :=
  [.lineEnd, .comment, .quote, .word, .digit, .sign]

/-- Lexemes that start with no blank, each of which is read again before a blank, the last one at
least at the end of the text. -/
inductive Detached : List Lexeme → Prop
  | nil : Detached []
  | last {lexeme : Lexeme} (hstarts : Starts solid lexeme.text)
      (hread : split lexeme.text = [lexeme]) : Detached [lexeme]
  | cons {lexeme next : Lexeme} {rest : List Lexeme} (hstarts : Starts solid lexeme.text)
      (hread : lexeme.ReadBefore [.blank]) (hrest : Detached (next :: rest)) :
      Detached (lexeme :: next :: rest)

theorem Detached.opens {lexeme : Lexeme} {rest : List Lexeme} (h : Detached (lexeme :: rest))
    (gaps : Nat → Gap) : Opens solid (spaced gaps ((lexeme :: rest).map text)) := by
  cases h with
  | last hstarts _ =>
    have hopens := hstarts.opens_append []
    rwa [List.append_nil] at hopens
  | cons hstarts _ _ => exact hstarts.opens_append _

/-- With gaps between them, such lexemes are read as before, but for the gaps. -/
theorem Detached.split_spaced {lexemes : List Lexeme} (h : Detached lexemes)
    (hkind : ∀ lexeme ∈ lexemes, lexeme.kind ≠ .whitespace) (gaps : Nat → Gap) :
    (split (spaced gaps (lexemes.map text))).filter (fun lexeme => lexeme.kind ≠ .whitespace) =
      lexemes := by
  induction h generalizing gaps with
  | nil =>
    rw [List.map_nil, spaced, split_nil]
    rfl
  | @last lexeme hstarts hread =>
    rw [List.map_singleton, spaced, hread, List.filter_cons_of_pos]
    · rfl
    · simpa using hkind lexeme List.mem_cons_self
  | @cons lexeme next rest hstarts hread hrest ih =>
    have hgap : Opens [.blank] ((gaps 0).text ++
        spaced (fun i => gaps (i + 1)) ((next :: rest).map text)) := by
      obtain ⟨c, tail, hrow⟩ := List.exists_cons_of_ne_nil (gaps 0).ne_nil
      have hblank := (gaps 0).isBlank c (by rw [hrow]; exact List.mem_cons_self)
      rw [hrow]
      exact opens_cons (by rw [ofChar_blank hblank]; exact List.mem_cons_self) _
    have hafter := readBefore_blanks (gaps 0).ne_nil (gaps 0).isBlank _
      (hrest.opens (fun i => gaps (i + 1)))
    rw [List.map_cons, List.map_cons, spaced, ← List.map_cons, hread _ hgap]
    rw [List.filter_cons_of_pos (by simpa using hkind lexeme List.mem_cons_self)]
    refine congrArg (lexeme :: ·) ?_
    rw [hafter, List.filter_cons_of_neg (by simp)]
    exact ih (fun other hmem => hkind other (List.mem_cons_of_mem _ hmem)) _

/-! ## The lexemes of a text -/

/-- Every lexeme is a stray character or what the rule that decides makes of the text that it
takes. -/
theorem exists_decided {c : Char} {rest : List Char} (h : (first c rest).kind ≠ .error) :
    ∃ (rule : Rule) (tail after : List Char), rest = tail ++ after ∧
      first c rest = judge rule.kind c tail ∧
      Rule.first? (c :: tail ++ after) = some (rule, (c :: tail).length) := by
  cases hfirst : Rule.first? (c :: rest) with
  | none =>
    unfold first at h
    rw [hfirst] at h
    exact absurd rfl h
  | some pair =>
    obtain ⟨rule, n⟩ := pair
    obtain ⟨-, hn, hne⟩ := Rule.of_first? hfirst
    have hle := rule.length_le (c :: rest)
    rw [← hn, List.length_cons] at hle
    refine ⟨rule, rest.take (n - 1), rest.drop (n - 1), (List.take_append_drop _ _).symm, ?_, ?_⟩
    · unfold first
      rw [hfirst]
    · rw [List.cons_append, List.take_append_drop, hfirst, List.length_cons, List.length_take]
      congr 2
      omega

theorem starts_solid_of_first {c : Char} {rest : List Char}
    (h : (first c rest).kind ≠ .whitespace) : Starts solid (first c rest).text := by
  obtain ⟨n, hn⟩ := first_text c rest
  refine ⟨c, rest.take n, hn, ?_⟩
  have hblank : Family.ofChar c ≠ .blank := by
    intro hfamily
    have hc : c = ' ' ∨ c = '\t' := by
      unfold Family.ofChar at hfamily
      by_contra hne
      rw [if_neg hne] at hfamily
      split_ifs at hfamily
    have hlength : (⟨"whitespace", .blanks, .whitespace⟩ : Rule).length (c :: rest) ≠ 0 := by
      unfold Rule.length
      rw [Shape.length, List.takeWhile_cons_of_pos (by simpa using hc)]
      exact Nat.succ_ne_zero _
    have hfirst : Rule.first? (c :: rest) = some (⟨"whitespace", .blanks, .whitespace⟩, _) :=
      @Rule.first?_of_split [] _ _ _ rfl (by simp) hlength
    unfold first at h
    rw [hfirst] at h
    exact h rfl
  revert hblank
  cases Family.ofChar c <;> decide

/-- The lexemes of a text without errors and comments, blanks left out, are detached. -/
theorem detached_split {text : List Char}
    (h : ∀ lexeme ∈ split text, lexeme.kind ∉ [.error, .comment]) :
    Detached ((split text).filter (fun lexeme => lexeme.kind ≠ .whitespace)) := by
  fun_induction split text with
  | case1 => exact .nil
  | case2 c rest lexeme ih =>
    have hrest := ih (fun other hmem => h other (List.mem_cons_of_mem _ hmem))
    by_cases hblank : lexeme.kind = .whitespace
    · rw [List.filter_cons_of_neg (by simpa using hblank)]
      exact hrest
    have hkind := h lexeme List.mem_cons_self
    have hstarts : Starts solid lexeme.text := starts_solid_of_first hblank
    simp only [List.mem_cons, List.not_mem_nil, or_false, not_or] at hkind
    obtain ⟨rule, tail, after, hrow, hlexeme, hfirst⟩ := exists_decided hkind.1
    have htext : lexeme.text = c :: tail := by
      show (first c rest).text = c :: tail
      rw [hlexeme, judge_text]
    have hafter : rest.drop (lexeme.text.length - 1) = after := by
      rw [htext, hrow, List.length_cons, Nat.add_sub_cancel, List.drop_left]
    rw [hafter] at hrest
    rw [List.filter_cons_of_pos (by simpa using hblank), hafter]
    have hread : after ≠ [] → lexeme.ReadBefore [.blank] := by
      intro hne
      show (first c rest).ReadBefore [.blank]
      rw [hlexeme]
      refine readBefore_of_decided hfirst ?_ hne
      rw [← hlexeme]
      simp only [List.mem_cons, List.not_mem_nil, or_false, not_or]
      exact ⟨hkind.1, hkind.2, hblank⟩
    cases hkept : (split after).filter (fun lexeme => lexeme.kind ≠ .whitespace) with
    | cons next others =>
      rw [hkept] at hrest
      refine .cons hstarts (hread ?_) hrest
      rintro rfl
      rw [split_nil] at hkept
      cases hkept
    | nil =>
      refine .last hstarts ?_
      by_cases hnil : after = []
      · have hall : lexeme.text = c :: rest := by rw [htext, hrow, hnil, List.append_nil]
        rw [hall, split_cons]
        show lexeme :: split (rest.drop (lexeme.text.length - 1)) = [lexeme]
        rw [hafter, hnil, split_nil]
      · have hend := hread hnil [] (opens_nil _)
        rwa [List.append_nil, split_nil] at hend

end Lexeme

/-! ## Tokens without their places -/

/-- The token as if it stood at the start of the text. -/
def Token.unplaced (token : Token) : Token :=
  { token with position := .start }

def Diagnostic.unplaced (d : Diagnostic) : Diagnostic :=
  ⟨d.problem, .start, d.token.unplaced⟩

mutual

/-- The tree with no place left in it. -/
def Node.unplaced : Node → Node
  | ⟨kind, value, children, token⟩ =>
    ⟨kind, value, Node.unplacedAll children, token.map Token.unplaced⟩

def Node.unplacedAll : List Node → List Node
  | [] => []
  | node :: rest => node.unplaced :: Node.unplacedAll rest

end

theorem Node.unplacedAll_eq_map (nodes : List Node) :
    Node.unplacedAll nodes = nodes.map Node.unplaced := by
  induction nodes with
  | nil => rfl
  | cons node rest ih => rw [Node.unplacedAll, ih, List.map_cons]

/-- Taking the places away as a change of tokens. -/
def Rewriting.unplacing : Rewriting where
  token := Token.unplaced
  node := Node.unplaced
  finding := Diagnostic.unplaced
  token_kind _ := rfl
  node_leafOf token h _ := by
    unfold Node.leafOf
    rw [Node.unplaced, Node.unplacedAll]
    rfl
  node_assignment name value _ := by
    unfold Node.assignment
    rw [Node.unplaced, Node.unplacedAll, Node.unplacedAll]
    rfl
  finding_about _ _ := rfl

/-- Streams that differ in places alone have trees and findings that differ in places alone. -/
theorem derive_unplaced {tokens others : List Token} {mark other : Token}
    (hmark : mark.kind = .endMark) (hother : other.kind = .endMark)
    (hnone : ∀ token ∈ tokens, token.kind ≠ .endMark)
    (hnone' : ∀ token ∈ others, token.kind ≠ .endMark)
    (hsame : (tokens ++ [mark]).map Token.unplaced = (others ++ [other]).map Token.unplaced) :
    (derive (tokens ++ [mark])).tree?.map Node.unplaced =
        (derive (others ++ [other])).tree?.map Node.unplaced ∧
      (derive (tokens ++ [mark])).reports.map Diagnostic.unplaced =
        (derive (others ++ [other])).reports.map Diagnostic.unplaced := by
  have hkeeps : ∀ token, Rewriting.unplacing.Keeps token := fun _ => ⟨rfl, fun _ => rfl⟩
  have h := Rewriting.unplacing.carries_derive hmark hnone (fun token _ => hkeeps token)
  have h' := Rewriting.unplacing.carries_derive hother hnone' (fun token _ => hkeeps token)
  have htree (d : Derivation) : d.tree?.map Node.unplaced =
      if d.statements.isEmpty then none
      else some (Node.program (d.statements.map Node.unplaced)) := by
    unfold Derivation.tree?
    cases d.statements with
    | nil => rfl
    | cons statement rest => simp [Node.program, Node.unplaced, Node.unplacedAll_eq_map]
  have hderive : derive ((tokens ++ [mark]).map Rewriting.unplacing.token) =
      derive ((others ++ [other]).map Rewriting.unplacing.token) := congrArg derive hsame
  constructor
  · rw [htree, htree]
    exact h.tree?_eq.symm.trans (hderive ▸ h'.tree?_eq)
  · exact h.reports_eq.symm.trans (hderive ▸ h'.reports_eq)

theorem Lexeme.map_unplaced_place (position : Position) (lexemes : List Lexeme) :
    (place position lexemes).map Token.unplaced =
      lexemes.map (fun lexeme => lexeme.toToken .start) := by
  induction lexemes generalizing position with
  | nil => rfl
  | cons lexeme rest ih =>
    rw [place, List.map_cons, List.map_cons, ih]
    rfl

/-- The tokens of a text but for their places: its lexemes without the blanks, and an end mark. -/
theorem map_unplaced_tokens (source : String) :
    (tokenize source).tokens.map Token.unplaced =
      ((Lexeme.split source.toList).filter (fun lexeme => lexeme.kind ≠ .whitespace)).map
        (fun lexeme => lexeme.toToken .start) ++ [Token.endMark .start] := by
  have hfilter : ((scan source).filter (fun token => token.kind ≠ .whitespace)).map
        Token.unplaced =
      ((scan source).map Token.unplaced).filter (fun token => token.kind ≠ .whitespace) := by
    rw [List.filter_map]
    rfl
  rw [tokenize, List.map_append, hfilter, scan, Lexeme.map_unplaced_place, List.filter_map]
  rfl

/-! ## The law -/

/-- The tokens of a text, the end mark left out, with gaps between them and nothing after the
last. -/
def respaced (gaps : Nat → Gap) (source : String) : String :=
  String.ofList (spaced gaps (((tokenize source).tokens.filter
    (fun token => token.kind ≠ .endMark)).map (fun token => token.value.toList)))

theorem toList_respaced (gaps : Nat → Gap) (source : String) :
    (respaced gaps source).toList =
      spaced gaps (((Lexeme.split source.toList).filter
        (fun lexeme => lexeme.kind ≠ .whitespace)).map Lexeme.text) := by
  have hvalues (tokens : List Token) : (tokens.filter (fun token => token.kind ≠ .endMark)).map
        (fun token => token.value.toList) =
      ((tokens.map Token.unplaced).filter (fun token => token.kind ≠ .endMark)).map
        (fun token => token.value.toList) := by
    rw [List.filter_map, List.map_map]
    rfl
  have hnone : ∀ token ∈ ((Lexeme.split source.toList).filter
      (fun lexeme => lexeme.kind ≠ .whitespace)).map (fun lexeme => lexeme.toToken .start),
      decide (token.kind ≠ .endMark) = true := by
    intro token hmem
    obtain ⟨lexeme, hlexeme, rfl⟩ := List.mem_map.mp hmem
    obtain ⟨c, rest, rfl⟩ := Lexeme.exists_first_of_mem_split (List.mem_filter.mp hlexeme).1
    exact decide_eq_true (Lexeme.first_kind c rest).1
  have hmark : [Token.endMark .start].filter (fun token => token.kind ≠ .endMark) = [] := rfl
  rw [respaced, String.toList_ofList, hvalues, map_unplaced_tokens, List.filter_append,
    List.filter_eq_self.mpr hnone, hmark, List.append_nil, List.map_map]
  simp only [Function.comp_def, Lexeme.toToken, String.toList_ofList]

/-- A text whose tokens are proper has no other lexemes than blanks besides. -/
theorem proper_lexemes {source : String}
    (h : ∀ token ∈ (tokenize source).tokens, token.kind ∉ [.error, .comment]) :
    ∀ lexeme ∈ Lexeme.split source.toList, lexeme.kind ∉ [.error, .comment] := by
  intro lexeme hmem
  by_cases hblank : lexeme.kind = .whitespace
  · rw [hblank]
    decide
  · have hplain : lexeme.toToken .start ∈ (tokenize source).tokens.map Token.unplaced := by
      rw [map_unplaced_tokens]
      exact List.mem_append_left _
        (List.mem_map_of_mem (List.mem_filter.mpr ⟨hmem, decide_eq_true hblank⟩))
    obtain ⟨token, htoken, hsame⟩ := List.mem_map.mp hplain
    have hkind : token.kind = lexeme.kind := congrArg Token.kind hsame
    rw [← hkind]
    exact h token htoken

/-- The tokens of a text without errors and comments, joined with blanks of any kind, are the
tokens of the new text, again without errors. So the tree and the findings about the new text are
those about the old one, but for the places. -/
theorem respaced_tokens_are_read_again (source : String)
    (hproper : ∀ token ∈ (tokenize source).tokens, token.kind ∉ [.error, .comment])
    (gaps : Nat → Gap) :
    (tokenize (respaced gaps source)).tokens.map Token.unplaced =
        (tokenize source).tokens.map Token.unplaced ∧
      (tokenize (respaced gaps source)).errors = [] ∧
      (analyze (respaced gaps source)).tree.map Node.unplaced =
        (analyze source).tree.map Node.unplaced ∧
      (analyze (respaced gaps source)).syntaxErrors.map Diagnostic.unplaced =
        (analyze source).syntaxErrors.map Diagnostic.unplaced := by
  have hsplit := (Lexeme.detached_split (proper_lexemes hproper)).split_spaced
    (fun lexeme hmem => of_decide_eq_true (List.mem_filter.mp hmem).2) gaps
  have htokens : (tokenize (respaced gaps source)).tokens.map Token.unplaced =
      (tokenize source).tokens.map Token.unplaced := by
    rw [map_unplaced_tokens, map_unplaced_tokens, toList_respaced, hsplit]
  have herrors : (tokenize (respaced gaps source)).errors = [] := by
    rw [errors_eq_filter, List.filter_eq_nil_iff]
    intro token hmem herror
    have hplain : token.unplaced ∈ (tokenize source).tokens.map Token.unplaced :=
      htokens ▸ List.mem_map_of_mem hmem
    obtain ⟨other, hother, hsame⟩ := List.mem_map.mp hplain
    have hkind : other.unplaced.kind = token.unplaced.kind := congrArg Token.kind hsame
    have herrorkind : other.kind = .error := hkind.trans (of_decide_eq_true herror)
    exact hproper other hother (by rw [herrorkind]; exact List.mem_cons_self)
  obtain ⟨htree, hreports⟩ :=
    derive_unplaced rfl rfl (kind_ne_endMark _) (kind_ne_endMark _) htokens
  exact ⟨htokens, herrors, htree, hreports⟩

/-- A tab, then two blanks, and so on. -/
def mixedGaps (i : Nat) : Gap :=
  if i % 2 = 0 then ⟨⟨['\t'], by simp⟩, by simp⟩ else ⟨⟨[' ', ' '], by simp⟩, by simp⟩

/-- A numeral that stops before a letter, a sign that stops before another, and a string. -/
theorem tokens_that_touched_stand_apart :
    respaced mixedGaps "0x1g-=-1.e'a'" = "0x1\tg  -=\t-  1\t.  e\t'a'" ∧
      (analyze "0x1\tg  -=\t-  1\t.  e\t'a'").syntaxErrors.map Diagnostic.unplaced =
        (analyze "0x1g-=-1.e'a'").syntaxErrors.map Diagnostic.unplaced := by
  have hrow : respaced mixedGaps "0x1g-=-1.e'a'" = "0x1\tg  -=\t-  1\t.  e\t'a'" := by
    decide +kernel
  have hproper : ∀ token ∈ (tokenize "0x1g-=-1.e'a'").tokens,
      token.kind ∉ [.error, .comment] := by
    decide +kernel
  obtain ⟨-, -, -, hreports⟩ :=
    respaced_tokens_are_read_again "0x1g-=-1.e'a'" hproper mixedGaps
  rw [hrow] at hreports
  exact ⟨hrow, hreports⟩

end Assay
