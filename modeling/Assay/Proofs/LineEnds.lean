-- How lines end. A text whose lines end in a carriage return and a line feed is
-- analysed as the same text with line feeds alone: the two are scanned in step,
-- lexeme by lexeme, and only the spelling of what a line end stands in differs.
import Assay.Proofs.LineReach
import Assay.Proofs.Places
import Assay.Proofs.Respelling
import Assay.Analysis
import Mathlib.Data.List.Forall2

namespace Assay

/-! ## Texts with the same lines -/

/-- The text without the carriage returns that stand before a line feed. -/
def dropReturns : List Char → List Char
  | '\r' :: '\n' :: rest => '\n' :: dropReturns rest
  | c :: rest => c :: dropReturns rest
  | [] => []

def withLineFeeds (text : String) : String :=
  String.ofList (dropReturns text.toList)

/-- The second text is the first one with line feeds alone for line ends, and the first has no
carriage return but in these. -/
inductive SameLines : List Char → List Char → Prop
  | nil : SameLines [] []
  | pair {text plain : List Char} (h : SameLines text plain) :
      SameLines ('\r' :: '\n' :: text) ('\n' :: plain)
  | char {c : Char} {text plain : List Char} (hc : c ≠ '\r') (h : SameLines text plain) :
      SameLines (c :: text) (c :: plain)

theorem dropReturns_cons {c : Char} (hc : c ≠ '\r') (rest : List Char) :
    dropReturns (c :: rest) = c :: dropReturns rest :=
  dropReturns.eq_2 c rest (fun _ hreturn _ => hc hreturn)

theorem sameLines_dropReturns {text : List Char}
    (h : ∀ i, text[i]? = some '\r' → text[i + 1]? = some '\n') :
    SameLines text (dropReturns text) := by
  fun_induction dropReturns text with
  | case1 rest ih => exact .pair (ih fun i hi => h (i + 2) hi)
  | case2 c rest hpair ih =>
    refine .char ?_ (ih fun i hi => h (i + 1) hi)
    rintro rfl
    have hnext := h 0 rfl
    cases rest with
    | nil => cases hnext
    | cons d rest =>
      cases hnext
      exact hpair rest rfl rfl
  | case3 => exact .nil

theorem isQuote_ne_return {quote : Char} (h : isQuote quote) : quote ≠ '\r' := by
  rintro rfl
  exact isQuote_ne_lineEnd h rfl

/-- A row of quotes holds no line end. -/
theorem not_lineEnd_of_mem_replicate {quote : Char} (hquote : isQuote quote) (n : Nat) :
    ∀ c ∈ List.replicate n quote, ¬ isLineEnd c := by
  intro c hc
  rw [List.eq_of_mem_replicate hc]
  exact isQuote_ne_lineEnd hquote

namespace SameLines

variable {text plain : List Char}

theorem eq_dropReturns (h : SameLines text plain) : plain = dropReturns text := by
  induction h with
  | nil => rfl
  | pair _ ih => rw [dropReturns, ih]
  | char hc _ ih => rw [dropReturns_cons hc, ih]

/-- A text without line ends has the lines of itself alone. -/
theorem refl_of {front : List Char} (h : ∀ c ∈ front, ¬ isLineEnd c) : SameLines front front := by
  induction front with
  | nil => exact .nil
  | cons c front ih =>
    refine .char ?_ (ih fun d hd => h d (List.mem_cons_of_mem _ hd))
    rintro rfl
    exact h '\r' List.mem_cons_self rfl

theorem append {more plainMore : List Char} (h : SameLines text plain)
    (hmore : SameLines more plainMore) : SameLines (text ++ more) (plain ++ plainMore) := by
  induction h with
  | nil => exact hmore
  | pair _ ih => exact .pair ih
  | char hc _ ih => exact .char hc ih

theorem cons_left {c : Char} (hc : c ≠ '\r') (h : SameLines (c :: text) plain) :
    ∃ rest, plain = c :: rest ∧ SameLines text rest := by
  cases h with
  | pair _ => exact absurd rfl hc
  | char _ hrest => exact ⟨_, rfl, hrest⟩

theorem quotes_left {quote : Char} (hquote : isQuote quote)
    (h : SameLines (quote :: quote :: quote :: text) plain) :
    ∃ rest, plain = quote :: quote :: quote :: rest ∧ SameLines text rest := by
  have hreturn : quote ≠ '\r' := isQuote_ne_return hquote
  obtain ⟨tail, rfl, htail⟩ := h.cons_left hreturn
  obtain ⟨more, rfl, hmore⟩ := htail.cons_left hreturn
  obtain ⟨rest, rfl, hrest⟩ := hmore.cons_left hreturn
  exact ⟨rest, rfl, hrest⟩

/-- What holds no line end stands at the front of both texts or of neither. -/
theorem prefix_iff {s : List Char} (hs : ∀ c ∈ s, ¬ isLineEnd c) (h : SameLines text plain) :
    s <+: text ↔ s <+: plain := by
  induction s generalizing text plain with
  | nil => simp
  | cons c s ih =>
    have hc : ¬ isLineEnd c := hs c List.mem_cons_self
    have htail : ∀ d ∈ s, ¬ isLineEnd d := fun d hd => hs d (List.mem_cons_of_mem _ hd)
    cases h with
    | nil => exact Iff.rfl
    | pair hrest =>
      constructor
      · intro hpre
        rw [(List.cons_prefix_cons.mp hpre).1] at hc
        exact absurd rfl hc
      · intro hpre
        rw [(List.cons_prefix_cons.mp hpre).1] at hc
        exact absurd rfl hc
    | char _ hrest => rw [List.cons_prefix_cons, List.cons_prefix_cons, ih htail hrest]

theorem isPrefixOf_eq {s : List Char} (hs : ∀ c ∈ s, ¬ isLineEnd c) (h : SameLines text plain) :
    s.isPrefixOf plain = s.isPrefixOf text := by
  rw [Bool.eq_iff_iff, List.isPrefixOf_iff_prefix, List.isPrefixOf_iff_prefix, h.prefix_iff hs]

/-- What holds no line end is all of both texts or of neither. -/
theorem eq_iff {s : List Char} (hs : ∀ c ∈ s, ¬ isLineEnd c) (h : SameLines text plain) :
    s = text ↔ s = plain := by
  induction h generalizing s with
  | nil => exact Iff.rfl
  | pair _ _ =>
    constructor
    · rintro rfl
      exact absurd rfl (hs '\r' List.mem_cons_self)
    · rintro rfl
      exact absurd rfl (hs '\n' List.mem_cons_self)
  | char _ _ ih =>
    cases s with
    | nil => simp
    | cons d s =>
      rw [List.cons.injEq, List.cons.injEq, ih fun c hc => hs c (List.mem_cons_of_mem _ hc)]

/-- What holds no line end stands at the back of both texts or of neither. -/
theorem suffix_iff {s : List Char} (hs : ∀ c ∈ s, ¬ isLineEnd c) (h : SameLines text plain) :
    s <:+ text ↔ s <:+ plain := by
  induction h with
  | nil => exact Iff.rfl
  | @pair text plain hrest ih =>
    have hwhole := (SameLines.pair hrest).eq_iff hs
    have hhalf : s ≠ '\n' :: text := by
      rintro rfl
      exact hs '\n' List.mem_cons_self rfl
    rw [List.suffix_cons_iff, List.suffix_cons_iff, List.suffix_cons_iff, hwhole, ih]
    simp only [hhalf, false_or]
  | @char c text plain hc hrest ih =>
    rw [List.suffix_cons_iff, List.suffix_cons_iff, (SameLines.char hc hrest).eq_iff hs, ih]

theorem isSuffixOf_eq {s : List Char} (hs : ∀ c ∈ s, ¬ isLineEnd c) (h : SameLines text plain) :
    s.isSuffixOf plain = s.isSuffixOf text := by
  rw [Bool.eq_iff_iff, List.isSuffixOf_iff_suffix, List.isSuffixOf_iff_suffix, h.suffix_iff hs]

/-- The first lines are the same, character by character. -/
theorem exists_front (h : SameLines text plain) :
    ∃ front rest plainRest, text = front ++ rest ∧ plain = front ++ plainRest ∧
      SameLines rest plainRest ∧ (∀ c ∈ front, ¬ isLineEnd c) ∧
      (∀ c ∈ rest.head?, isLineEnd c) ∧ ∀ c ∈ plainRest.head?, isLineEnd c := by
  induction h with
  | nil => exact ⟨[], [], [], rfl, rfl, .nil, by simp, by simp, by simp⟩
  | @pair text plain h _ =>
    exact ⟨[], _, _, rfl, rfl, .pair h, by simp, by simp [isLineEnd], by simp [isLineEnd]⟩
  | @char c text plain hc h ih =>
    by_cases hend : isLineEnd c
    · exact ⟨[], _, _, rfl, rfl, .char hc h, by simp, by simp [hend], by simp [hend]⟩
    · obtain ⟨front, rest, plainRest, rfl, rfl, hrest, hfront, hhead, hplain⟩ := ih
      refine ⟨c :: front, rest, plainRest, rfl, rfl, hrest, ?_, hhead, hplain⟩
      intro d hd
      rcases List.mem_cons.mp hd with rfl | hd
      · exact hend
      · exact hfront d hd

theorem past_eq (h : SameLines text plain) (p : Position) : p.past plain = p.past text := by
  induction h generalizing p with
  | nil => rfl
  | pair _ ih =>
    rw [Position.past_cons, Position.past_cons, Position.past_cons, ih]
    rfl
  | char _ _ ih => rw [Position.past_cons, Position.past_cons, ih]

end SameLines

/-! ## Cuts at the same place -/

/-- The texts have the same lines up to `n` characters of the first and `m` of the second, and the
same lines after that. -/
def SameCut (n m : Nat) (text plain : List Char) : Prop :=
  SameLines (text.take n) (plain.take m) ∧ SameLines (text.drop n) (plain.drop m)

namespace SameCut

variable {n m : Nat} {text plain : List Char}

theorem zero (h : SameLines text plain) : SameCut 0 0 text plain :=
  ⟨.nil, h⟩

theorem pair (h : SameCut n m text plain) :
    SameCut (n + 2) (m + 1) ('\r' :: '\n' :: text) ('\n' :: plain) :=
  ⟨.pair h.1, h.2⟩

theorem char {c : Char} (hc : c ≠ '\r') (h : SameCut n m text plain) :
    SameCut (n + 1) (m + 1) (c :: text) (c :: plain) :=
  ⟨.char hc h.1, h.2⟩

theorem of_char {c : Char} (hc : c ≠ '\r') (h : SameCut (n + 1) (m + 1) (c :: text) (c :: plain)) :
    SameCut n m text plain := by
  obtain ⟨hbefore, hafter⟩ := h
  obtain ⟨rest, hrow, hrest⟩ := hbefore.cons_left hc
  cases hrow
  exact ⟨hrest, hafter⟩

/-- Within the first line the two cuts are one. -/
theorem of_front {front rest plainRest : List Char} (hfront : ∀ c ∈ front, ¬ isLineEnd c)
    (hrest : SameLines rest plainRest) (hn : n ≤ front.length) :
    SameCut n n (front ++ rest) (front ++ plainRest) := by
  unfold SameCut
  rw [List.take_append_of_le_length hn, List.take_append_of_le_length hn,
    List.drop_append_of_le_length hn, List.drop_append_of_le_length hn]
  constructor
  · exact .refl_of fun c hc => hfront c (List.mem_of_mem_take hc)
  · exact (SameLines.refl_of fun c hc => hfront c (List.mem_of_mem_drop hc)).append hrest

end SameCut

/-! ## Rules in step -/

theorem sameCut_blockBodyLength {quote : Char} (hquote : isQuote quote) {body plain : List Char}
    (h : SameLines body plain) :
    SameCut (blockBodyLength quote body) (blockBodyLength quote plain) body plain := by
  have hreturn : quote ≠ '\r' := isQuote_ne_return hquote
  have hquotes : ∀ c ∈ [quote, quote], ¬ isLineEnd c :=
    not_lineEnd_of_mem_replicate hquote 2
  have hfeed : '\n' ≠ quote := by
    rintro rfl
    exact isQuote_ne_lineEnd hquote rfl
  -- A line feed is one character of the body, and nothing more.
  have hline (rest : List Char) :
      blockBodyLength quote ('\n' :: rest) = blockBodyLength quote rest + 1 := by
    rw [blockBodyLength_cons (by decide), if_neg (fun hclose => hfeed hclose.1), Nat.add_comm]
  fun_induction blockBodyLength quote body generalizing plain with
  | case1 =>
    cases h
    exact .zero .nil
  | case2 =>
    obtain ⟨rest, rfl, hrest⟩ := h.cons_left (by decide)
    cases hrest
    exact .char (by decide) (.zero .nil)
  | case3 c rest ih =>
    obtain ⟨tail, rfl, htail⟩ := h.cons_left (by decide)
    cases htail with
    | pair hrest =>
      have hcut := ih (.char (by decide) hrest)
      rw [hline, hline] at hcut
      rw [hline, blockBodyLength, Nat.add_comm 2, Nat.add_comm 2]
      exact .char (by decide) (.pair (hcut.of_char (by decide)))
    | char hc hrest =>
      rw [blockBodyLength, Nat.add_comm 2, Nat.add_comm 2]
      exact .char (by decide) (.char hc (ih hrest))
  | case4 c rest hlast hunit hclose =>
    obtain ⟨rfl, hpre⟩ := hclose
    obtain ⟨more, rfl⟩ := List.isPrefixOf_iff_prefix.mp hpre
    obtain ⟨rest, rfl, hafter⟩ := h.quotes_left hquote
    rw [blockBodyLength_cons (isQuote_ne_backslash hquote), if_pos ⟨rfl, by simp⟩]
    exact .char hreturn (.char hreturn (.char hreturn (.zero hafter)))
  | case5 c rest hlast hunit hclose ih =>
    cases h with
    | pair hrest =>
      have hcut := ih (.char (by decide) hrest)
      rw [hline, hline] at hcut
      rw [hline, hline, Nat.add_comm 1]
      exact .pair (hcut.of_char (by decide))
    | char hc hrest =>
      rw [← hrest.isPrefixOf_eq hquotes] at hclose
      rw [blockBodyLength_cons (ne_backslash hlast hunit), if_neg hclose, Nat.add_comm 1,
        Nat.add_comm 1]
      exact .char hc (ih hrest)

theorem sameCut_blockLength {text plain : List Char} (h : SameLines text plain) :
    SameCut (blockLength text) (blockLength plain) text plain := by
  by_cases hzero : blockLength text = 0
  · have hzero' : blockLength plain = 0 := by
      by_contra hne
      obtain ⟨quote, body, hquote, rfl⟩ := exists_quotes_of_blockLength hne
      have hquotes : ∀ c ∈ [quote, quote, quote], ¬ isLineEnd c :=
        not_lineEnd_of_mem_replicate hquote 3
      obtain ⟨more, rfl⟩ := (h.prefix_iff hquotes).mpr ⟨body, rfl⟩
      rw [List.cons_append, List.cons_append, List.cons_append, blockLength,
        if_pos ⟨hquote, rfl, rfl⟩] at hzero
      omega
    rw [hzero, hzero']
    exact .zero h
  · obtain ⟨quote, body, hquote, rfl⟩ := exists_quotes_of_blockLength hzero
    have hreturn : quote ≠ '\r' := isQuote_ne_return hquote
    obtain ⟨plain, rfl, hafter⟩ := h.quotes_left hquote
    rw [blockLength, blockLength, if_pos ⟨hquote, rfl, rfl⟩, if_pos ⟨hquote, rfl, rfl⟩,
      Nat.add_comm 3, Nat.add_comm 3]
    exact .char hreturn (.char hreturn (.char hreturn (sameCut_blockBodyLength hquote hafter)))

/-- A rule takes from the two texts what has the same lines. -/
theorem Rule.sameCut {rule : Rule} (hrule : rule ∈ table) {text plain : List Char}
    (h : SameLines text plain) : SameCut (rule.length text) (rule.length plain) text plain := by
  by_cases hbreak : rule.shape = .lineBreak
  · unfold length
    rw [hbreak]
    cases h with
    | nil => exact .zero .nil
    | pair hrest => exact .pair (.zero hrest)
    | @char c text plain hc hrest =>
      by_cases hfeed : c = '\n'
      · rw [hfeed]
        exact .char (by decide) (.zero hrest)
      · have hzero (rest : List Char) : Shape.lineBreak.length (c :: rest) = 0 := by
          simp [Shape.length, Ne.symm hc, Ne.symm hfeed]
        rw [hzero, hzero]
        exact .zero (.char hc hrest)
  by_cases hblock : rule.shape = .blockLiteral
  · unfold length
    rw [hblock]
    exact sameCut_blockLength h
  · obtain ⟨front, rest, plainRest, rfl, rfl, hrest, hfront, hhead, hplain⟩ := h.exists_front
    rw [length_append_of_lineEnd hrule hbreak hblock hhead,
      length_append_of_lineEnd hrule hbreak hblock hplain]
    exact .of_front hfront hrest (rule.length_le front)

namespace Rule

variable {rule : Rule} {text plain : List Char}

/-- A rule takes something from both texts or from neither. -/
theorem length_eq_zero_iff (hrule : rule ∈ table) (h : SameLines text plain) :
    rule.length plain = 0 ↔ rule.length text = 0 := by
  obtain ⟨htaken, -⟩ := sameCut hrule h
  have hle := rule.length_le text
  have hle' := rule.length_le plain
  constructor
  · intro hzero
    rw [hzero, List.take_zero] at htaken
    generalize hfront : text.take (rule.length text) = front at htaken
    cases htaken
    have hlength := congrArg List.length hfront
    rw [List.length_take, List.length_nil] at hlength
    omega
  · intro hzero
    rw [hzero, List.take_zero] at htaken
    generalize hfront : plain.take (rule.length plain) = front at htaken
    cases htaken
    have hlength := congrArg List.length hfront
    rw [List.length_take, List.length_nil] at hlength
    omega

/-- The same rule decides for both texts. -/
theorem first?_inStep (h : SameLines text plain) :
    first? plain = (first? text).map (fun found => (found.1, found.1.length plain)) := by
  have hzero : ∀ rule ∈ table, (rule.length plain = 0 ↔ rule.length text = 0) :=
    fun rule hrule => length_eq_zero_iff hrule h
  unfold first?
  generalize table = rules at hzero ⊢
  induction rules with
  | nil => rfl
  | cons rule rules ih =>
    have hrules := ih fun other hmem => hzero other (List.mem_cons_of_mem _ hmem)
    have hfirst := hzero rule List.mem_cons_self
    rw [List.findSome?_cons, List.findSome?_cons]
    by_cases hnone : rule.length text = 0
    · simp only [if_pos hnone, if_pos (hfirst.mpr hnone), hrules]
    · simp only [if_neg hnone, if_neg (fun h => hnone (hfirst.mp h)), Option.map_some]

/-- But for line breaks and block literals, a rule takes the same characters. -/
theorem take_eq (hrule : rule ∈ table) (hbreak : rule.shape ≠ .lineBreak)
    (hblock : rule.shape ≠ .blockLiteral) (h : SameLines text plain) :
    plain.take (rule.length plain) = text.take (rule.length text) := by
  obtain ⟨front, rest, plainRest, rfl, rfl, -, -, hhead, hplain⟩ := h.exists_front
  have hle := rule.length_le front
  rw [length_append_of_lineEnd hrule hbreak hblock hhead,
    length_append_of_lineEnd hrule hbreak hblock hplain, List.take_append_of_le_length hle,
    List.take_append_of_le_length hle]

end Rule

/-! ## Lexemes in step -/

/-- A lexeme and the one that stands for it in the text with line feeds alone. -/
structure Lexeme.InStep (lexeme plain : Lexeme) : Prop where
  kind_eq : plain.kind = lexeme.kind
  fault_eq : plain.fault = lexeme.fault
  text : SameLines lexeme.text plain.text
  steady : lexeme.kind ∈ [.newline, .string, .error] ∨ plain.text = lexeme.text

/-- After three quotes, what counts is whether three quotes stand at the end of the rest. -/
theorem literalFault?_quotes {quote : Char} (hquote : isQuote quote) (body : List Char) :
    literalFault? quote (quote :: quote :: body) =
      if [quote, quote, quote].isSuffixOf body then none else some (.openBlock quote) := by
  have hcloses : ((quote :: quote :: body).length < 5 ∨
      ¬ [quote, quote, quote].isSuffixOf (quote :: quote :: body)) ↔
        ¬ [quote, quote, quote].isSuffixOf body := by
    simp only [List.isSuffixOf_iff_suffix]
    constructor
    · rintro hopen hsuffix
      have hlength := hsuffix.length_le
      simp only [List.length_cons, List.length_nil] at hlength hopen
      rcases hopen with hshort | hnot
      · omega
      · exact hnot (hsuffix.trans ((List.suffix_cons _ _).trans (List.suffix_cons _ _)))
    · intro hnot
      rw [or_iff_not_imp_left]
      intro hlong hsuffix
      apply hnot
      refine List.suffix_of_suffix_length_le hsuffix
        ((List.suffix_cons _ _).trans (List.suffix_cons _ _)) ?_
      simp only [List.length_cons, List.length_nil] at hlong ⊢
      omega
  unfold literalFault?
  rw [if_pos ⟨hquote, by simp⟩]
  simp only [hcloses, ite_not]

theorem Rule.kind_of_shape {rule : Rule} (hrule : rule ∈ table) :
    (rule.shape = .lineBreak → rule.kind = .newline) ∧
      (rule.shape = .blockLiteral → rule.kind = .string) := by
  have hall : table.all (fun rule => match rule.shape with
      | .lineBreak => rule.kind = .newline
      | .blockLiteral => rule.kind = .string
      | _ => true) := by decide
  have hkind := List.all_eq_true.mp hall rule hrule
  constructor
  · intro hshape
    simpa only [hshape, decide_eq_true_eq] using hkind
  · intro hshape
    simpa only [hshape, decide_eq_true_eq] using hkind

namespace Lexeme

section First

variable {c d : Char} {rest plain : List Char} (h : SameLines (c :: rest) (d :: plain))

include h

theorem judge_string_inStep (hfault : literalFault? d plain = literalFault? c rest) :
    InStep (judge .string c rest) (judge .string d plain) := by
  unfold judge
  simp only [hfault]
  cases literalFault? c rest with
  | none => exact ⟨rfl, rfl, h, Or.inl (by simp)⟩
  | some fault => exact ⟨rfl, rfl, h, Or.inl (by simp)⟩

/-- Two block literals with the same lines are closed alike. -/
theorem literalFault?_inStep {quote : Char} (hquote : isQuote quote)
    (hopens : [quote, quote, quote] <+: c :: rest) :
    literalFault? d plain = literalFault? c rest := by
  obtain ⟨body, hbegin⟩ := hopens
  have hrow : c :: rest = quote :: quote :: quote :: body := hbegin.symm
  cases hrow
  obtain ⟨plainBody, hplain, hbody⟩ := h.quotes_left hquote
  cases hplain
  have hclosing : ∀ d ∈ [c, c, c], ¬ isLineEnd d :=
    not_lineEnd_of_mem_replicate hquote 3
  have hfault := literalFault?_quotes hquote body
  rw [← hbody.isSuffixOf_eq hclosing, ← literalFault?_quotes hquote plainBody] at hfault
  exact hfault.symm

theorem judge_inStep {rule : Rule} (hrule : rule ∈ Rule.table)
    (hne : rule.length (c :: rest) ≠ 0) :
    InStep (judge rule.kind c (rest.take (rule.length (c :: rest) - 1)))
      (judge rule.kind d (plain.take (rule.length (d :: plain) - 1))) := by
  have hne' : rule.length (d :: plain) ≠ 0 := fun hzero =>
    hne ((Rule.length_eq_zero_iff hrule h).mp hzero)
  have htaken := (Rule.sameCut hrule h).1
  rw [List.take_cons (Nat.pos_of_ne_zero hne), List.take_cons (Nat.pos_of_ne_zero hne')] at htaken
  by_cases hbreak : rule.shape = .lineBreak
  · rw [(Rule.kind_of_shape hrule).1 hbreak]
    exact ⟨rfl, rfl, htaken, Or.inl (by simp [judge])⟩
  by_cases hblock : rule.shape = .blockLiteral
  · rw [(Rule.kind_of_shape hrule).2 hblock]
    apply judge_string_inStep htaken
    have hlength : rule.length (c :: rest) = blockLength (c :: rest) := by
      rw [Rule.length, hblock, Shape.length]
    rw [hlength] at hne
    obtain ⟨quote, body, hquote, hrow⟩ := exists_quotes_of_blockLength hne
    apply literalFault?_inStep htaken hquote
    rw [← List.take_cons (by omega), hlength, hrow, blockLength, if_pos ⟨hquote, rfl, rfl⟩,
      Nat.add_comm 3]
    simp [List.take_succ_cons]
  · have hsame := Rule.take_eq hrule hbreak hblock h
    rw [List.take_cons (Nat.pos_of_ne_zero hne), List.take_cons (Nat.pos_of_ne_zero hne')] at hsame
    obtain ⟨rfl, htail⟩ := List.cons.inj hsame
    rw [htail] at htaken ⊢
    refine ⟨rfl, rfl, ?_, Or.inr rfl⟩
    rw [judge_text]
    exact htaken

/-- The first lexemes of the two texts are in step, and what is left has the same lines. -/
theorem first_inStep :
    InStep (first c rest) (first d plain) ∧
      SameLines (rest.drop ((first c rest).text.length - 1))
        (plain.drop ((first d plain).text.length - 1)) := by
  have hfirst := Rule.first?_inStep h
  cases hdecide : Rule.first? (c :: rest) with
  | none =>
    rw [hdecide, Option.map_none] at hfirst
    unfold first
    simp only [hdecide, hfirst]
    cases h with
    | char hc hrest => exact ⟨⟨rfl, rfl, .char hc .nil, Or.inr rfl⟩, hrest⟩
    | pair hrest =>
      -- The rule for line breaks takes a carriage return and a line feed.
      have hbreak : (⟨"newline", .lineBreak, .newline⟩ : Rule) ∈ Rule.table := by
        simp [Rule.table]
      have hnone := List.findSome?_eq_none_iff.mp hdecide _ hbreak
      simp [Rule.length, Shape.length] at hnone
  | some found =>
    obtain ⟨rule, n⟩ := found
    obtain ⟨hrule, rfl, hne⟩ := Rule.of_first? hdecide
    rw [hdecide, Option.map_some] at hfirst
    have hne' : rule.length (d :: plain) ≠ 0 := fun hzero =>
      hne ((Rule.length_eq_zero_iff hrule h).mp hzero)
    obtain ⟨hjudge, htext⟩ := first_of_rule hdecide hne
    obtain ⟨hjudge', htext'⟩ := first_of_rule hfirst hne'
    rw [htext, htext', List.length_take_of_le (rule.length_le _),
      List.length_take_of_le (rule.length_le _), hjudge, hjudge']
    refine ⟨judge_inStep h hrule hne, ?_⟩
    have hafter := (Rule.sameCut hrule h).2
    rw [List.drop_cons (Nat.pos_of_ne_zero hne), List.drop_cons (Nat.pos_of_ne_zero hne')] at hafter
    exact hafter

end First

theorem split_inStep {text plain : List Char} (h : SameLines text plain) :
    List.Forall₂ InStep (split text) (split plain) := by
  fun_induction split text generalizing plain with
  | case1 =>
    cases h
    rw [split_nil]
    exact .nil
  | case2 c rest lexeme =>
    rename_i ih
    obtain ⟨d, plainRest, rfl⟩ : ∃ d plainRest, plain = d :: plainRest := by
      cases h with
      | pair _ => exact ⟨_, _, rfl⟩
      | char _ _ => exact ⟨_, _, rfl⟩
    obtain ⟨hfirst, hrest⟩ := first_inStep h
    rw [split_cons d plainRest]
    exact .cons hfirst (ih hrest)

/-! ## Tokens in step -/

section Tokens

variable {lexeme plain : Lexeme}

theorem InStep.toToken_eq (h : InStep lexeme plain) (p : Position) :
    plain.toToken p = (lexeme.toToken p).respell withLineFeeds := by
  unfold toToken Token.respell withLineFeeds
  simp only [h.kind_eq, h.fault_eq, h.text.eq_dropReturns, String.toList_ofList]

theorem InStep.steady_toToken (h : InStep lexeme plain) (p : Position) :
    (lexeme.toToken p).Steady withLineFeeds := by
  rcases h.steady with hkind | htext
  · exact Or.inl hkind
  · right
    rw [h.text.eq_dropReturns] at htext
    simp only [toToken, withLineFeeds, String.toList_ofList, htext]

/-- Lexemes in step make tokens at the same places. -/
theorem place_inStep {lexemes plains : List Lexeme} (h : List.Forall₂ InStep lexemes plains)
    (p : Position) :
    place p plains = (place p lexemes).map (Token.respell withLineFeeds) ∧
      ∀ token ∈ place p lexemes, token.Steady withLineFeeds := by
  induction h generalizing p with
  | nil => exact ⟨rfl, by simp [place]⟩
  | @cons lexeme plain lexemes plains hfirst _ ih =>
    obtain ⟨hrest, hsteady⟩ := ih (p.past lexeme.text)
    constructor
    · rw [place, place, hfirst.text.past_eq, hrest, hfirst.toToken_eq, List.map_cons]
    · intro token hmem
      rcases List.mem_cons.mp hmem with rfl | hmem
      · exact hfirst.steady_toToken p
      · exact hsteady token hmem

end Tokens

end Lexeme

section Source

variable {source : String}
  (h : ∀ i, source.toList[i]? = some '\r' → source.toList[i + 1]? = some '\n')

include h

theorem scan_withLineFeeds :
    scan (withLineFeeds source) = (scan source).map (Token.respell withLineFeeds) ∧
      ∀ token ∈ scan source, token.Steady withLineFeeds := by
  unfold scan
  rw [withLineFeeds, String.toList_ofList]
  exact Lexeme.place_inStep (Lexeme.split_inStep (sameLines_dropReturns h)) .start

theorem endOf_withLineFeeds : endOf (withLineFeeds source) = endOf source := by
  unfold endOf
  rw [withLineFeeds, String.toList_ofList]
  exact (sameLines_dropReturns h).past_eq .start

theorem tokens_withLineFeeds :
    (tokenize (withLineFeeds source)).tokens =
      (tokenize source).tokens.map (Token.respell withLineFeeds) := by
  have hmark (p : Position) : (Token.endMark p).respell withLineFeeds = Token.endMark p := by
    have hvalue : withLineFeeds "EOF" = "EOF" := by decide
    rw [Token.endMark, Token.respell, hvalue]
  unfold tokenize
  simp only [(scan_withLineFeeds h).1, endOf_withLineFeeds h, List.map_append, List.map_singleton,
    hmark, List.filter_map]
  rfl

theorem errors_withLineFeeds :
    (tokenize (withLineFeeds source)).errors =
      (tokenize source).errors.map (Token.respell withLineFeeds) := by
  unfold tokenize
  simp only [(scan_withLineFeeds h).1, List.filter_map]
  rfl

theorem derive_withLineFeeds :
    derive (tokenize (withLineFeeds source)).tokens =
      (derive (tokenize source).tokens).respell withLineFeeds := by
  rw [tokens_withLineFeeds h]
  apply derive_respell
  · rfl
  · exact kind_ne_endMark source
  · intro token hmem
    rcases List.mem_append.mp hmem with hkept | hend
    · exact (scan_withLineFeeds h).2 token (List.mem_filter.mp hkept).1
    · rw [List.mem_singleton.mp hend]
      have hvalue : withLineFeeds "EOF" = "EOF" := by decide
      exact Or.inr hvalue

end Source

/-! ## The law -/

/-- How lines end shows in texts alone. Where carriage returns stand only before line feeds, a text
without them has the same analysis: the tokens, the tree and the findings are the same, in kind,
place and wording, but for the carriage returns in the texts of tokens. -/
theorem line_ends_show_in_texts_alone (source : String)
    (h : ∀ i, source.toList[i]? = some '\r' → source.toList[i + 1]? = some '\n') :
    (analyze (withLineFeeds source)).tokens =
        (analyze source).tokens.map (Token.respell withLineFeeds) ∧
      (analyze (withLineFeeds source)).tree =
        (analyze source).tree.map (Node.respell withLineFeeds) ∧
      (analyze (withLineFeeds source)).lexicalErrors =
        (analyze source).lexicalErrors.map (Diagnostic.respell withLineFeeds) ∧
      (analyze (withLineFeeds source)).syntaxErrors =
        (analyze source).syntaxErrors.map (Diagnostic.respell withLineFeeds) := by
  have hderive := derive_withLineFeeds h
  refine ⟨tokens_withLineFeeds h, ?_, ?_, ?_⟩
  · unfold analyze
    simp only [hderive, Derivation.tree?_respell]
  · unfold analyze
    simp only [errors_withLineFeeds h, List.map_map]
    rfl
  · unfold analyze
    simp only [hderive]
    rfl

/-- A block literal over two lines, with a backslash before the line end in it, and a fault after
it. -/
def returnFeeds : String := "s=\"\"\"a\\\r\nb\"\"\"\r\n=1"

theorem the_same_string_over_two_lines :
    (tokenize returnFeeds).tokens.map Token.value =
        ["s", "=", "\"\"\"a\\\r\nb\"\"\"", "\r\n", "=", "1", "EOF"] ∧
      (analyze (withLineFeeds returnFeeds)).tokens.map Token.value =
        ["s", "=", "\"\"\"a\\\nb\"\"\"", "\n", "=", "1", "EOF"] ∧
      (analyze (withLineFeeds returnFeeds)).syntaxErrors =
        (analyze returnFeeds).syntaxErrors.map (Diagnostic.respell withLineFeeds) := by
  have hpaired : ∀ i, returnFeeds.toList[i]? = some '\r' →
      returnFeeds.toList[i + 1]? = some '\n' := by
    intro i hi
    have hall : ∀ j < returnFeeds.toList.length, returnFeeds.toList[j]? = some '\r' →
        returnFeeds.toList[j + 1]? = some '\n' := by decide
    exact hall i (List.getElem?_eq_some_iff.mp hi).1 hi
  obtain ⟨htokens, -, -, hsyntax⟩ := line_ends_show_in_texts_alone returnFeeds hpaired
  refine ⟨by decide +kernel, ?_, hsyntax⟩
  rw [htokens]
  decide +kernel

end Assay
