-- The body of a string literal as a row of units, which no definition of the
-- scanner mentions, and what a step does where a quote stands: the rule for
-- block literals reads three quotes, and the rule for literals on one line
-- reads all others.
import Assay.Proofs.LineReach

namespace Assay

/-! ## Units -/

/-- A unit of a literal's body: a backslash with the character after it, or any other character
on its own. -/
inductive BodyUnit where
  | plain (c : Char) (hc : c ≠ '\\')
  | escape (c : Char)

namespace BodyUnit

def text : BodyUnit → List Char
  | plain c _ => [c]
  | escape c => ['\\', c]

/-- The character after the backslash. -/
def escaped? : BodyUnit → Option Char
  | plain _ _ => none
  | escape c => some c

end BodyUnit

/-- The text of some units in a row. -/
def unitsText (units : List BodyUnit) : List Char :=
  units.flatMap BodyUnit.text

@[simp] theorem unitsText_nil : unitsText [] = [] := rfl

@[simp] theorem unitsText_plain (c : Char) (hc : c ≠ '\\') (units : List BodyUnit) :
    unitsText (.plain c hc :: units) = c :: unitsText units := rfl

@[simp] theorem unitsText_escape (c : Char) (units : List BodyUnit) :
    unitsText (.escape c :: units) = '\\' :: c :: unitsText units := rfl

theorem unitsText_append (units others : List BodyUnit) :
    unitsText (units ++ others) = unitsText units ++ unitsText others :=
  List.flatMap_append

/-- The closing quotes stand in the text just behind these units, outside of any. -/
def ClosesAfter (closing text : List Char) (units : List BodyUnit) : Prop :=
  unitsText units ++ closing <+: text

section

variable {closing text : List Char} {units : List BodyUnit}

@[simp] theorem closesAfter_nil : ClosesAfter closing text [] ↔ closing <+: text := Iff.rfl

@[simp] theorem closesAfter_plain {c d : Char} {hc : c ≠ '\\'} :
    ClosesAfter closing (d :: text) (.plain c hc :: units) ↔
      c = d ∧ ClosesAfter closing text units :=
  List.cons_prefix_cons

@[simp] theorem closesAfter_escape {c d e : Char} :
    ClosesAfter closing (d :: e :: text) (.escape c :: units) ↔
      '\\' = d ∧ c = e ∧ ClosesAfter closing text units := by
  unfold ClosesAfter
  rw [unitsText_escape, List.cons_append, List.cons_append, List.cons_prefix_cons,
    List.cons_prefix_cons]

end

/-- Any text is a row of units, but for a backslash that may be left at its end. -/
theorem exists_units (text : List Char) :
    ∃ units, text = unitsText units ∨ text = unitsText units ++ ['\\'] := by
  -- A unit takes one or two characters, so the induction is on how many are left.
  induction hn : text.length using Nat.strongRecOn generalizing text with
  | ind n ih =>
    cases text with
    | nil => exact ⟨[], Or.inl rfl⟩
    | cons c rest =>
      rw [List.length_cons] at hn
      by_cases hc : c = '\\'
      · subst hc
        cases rest with
        | nil => exact ⟨[], Or.inr rfl⟩
        | cons d rest =>
          rw [List.length_cons] at hn
          obtain ⟨units, hunits⟩ := ih rest.length (by omega) rest rfl
          refine ⟨.escape d :: units, ?_⟩
          rw [unitsText_escape, List.cons_append, List.cons_append]
          rcases hunits with h | h
          · exact Or.inl (by rw [← h])
          · exact Or.inr (by rw [← h])
      · obtain ⟨units, hunits⟩ := ih rest.length (by omega) rest rfl
        refine ⟨.plain c hc :: units, ?_⟩
        rw [unitsText_plain, List.cons_append]
        rcases hunits with h | h
        · exact Or.inl (by rw [← h])
        · exact Or.inr (by rw [← h])

/-! ## The rule for a quote -/

namespace Lexeme

/-- Where a rule for quotes takes something, and the other no more, the lexeme is a literal of
as many characters. -/
theorem first_of_quotes {rule : Rule} (quote : Char) (rest : List Char) (n : Nat)
    (hrule : rule ∈ Rule.ofFamily .quote) (hlength : rule.length (quote :: rest) = n + 1)
    (hmost : ∀ other ∈ Rule.ofFamily .quote, other.length (quote :: rest) ≤ n + 1) :
    first quote rest = judge .string quote (rest.take n) := by
  have hall : ∀ r ∈ Rule.ofFamily .quote,
      r.kind = .string ∧ r.shape.family = .quote ∧ r.name ≠ "identifier" := by decide
  obtain ⟨hkind, hfamily, hname⟩ := hall rule hrule
  have hne : rule.length (quote :: rest) ≠ 0 := by
    rw [hlength]
    exact Nat.succ_ne_zero n
  have hdecides : Rule.first? (quote :: rest) = some (rule, rule.length (quote :: rest)) := by
    apply Rule.first?_of_most (List.mem_filter.mp hrule).1 hne
    · rw [hfamily, hlength]
      exact hmost
    · intro hidentifier
      exact absurd hidentifier hname
  rw [(first_of_rule hdecides hne).1, hkind, hlength, Nat.add_sub_cancel]

theorem first_of_blockLiteral {quote : Char} (hquote : isQuote quote) (body : List Char) :
    first quote (quote :: quote :: body) =
      judge .string quote (quote :: quote :: body.take (blockBodyLength quote body)) := by
  have hlength : blockLength (quote :: quote :: quote :: body) =
      blockBodyLength quote body + 2 + 1 := by
    rw [blockLength, if_pos ⟨hquote, rfl, rfl⟩]
    omega
  have hless : lineLength (quote :: quote :: quote :: body) <
      blockLength (quote :: quote :: quote :: body) :=
    Rule.lineLength_lt_blockLength (by rw [hlength]; exact Nat.succ_ne_zero _)
  have hrule : (⟨"triple_string", .blockLiteral, .string⟩ : Rule) ∈ Rule.ofFamily .quote := by
    simp [Rule.ofFamily_quote]
  rw [hlength] at hless
  rw [first_of_quotes quote (quote :: quote :: body) (blockBodyLength quote body + 2) hrule hlength
    (length_le_of_quotes hlength.le hless.le), List.take_succ_cons, List.take_succ_cons]

theorem first_of_lineLiteral {quote : Char} {rest : List Char} (hquote : isQuote quote)
    (hnot : ¬ [quote, quote] <+: rest) :
    first quote rest = judge .string quote (rest.take (lineBodyLength quote rest)) := by
  have hlength : lineLength (quote :: rest) = lineBodyLength quote rest + 1 := by
    rw [lineLength, if_pos hquote, Nat.add_comm]
  have hblock : blockLength (quote :: rest) = 0 := by
    by_contra hblock
    obtain ⟨other, body, -, hrow⟩ := exists_quotes_of_blockLength hblock
    obtain ⟨rfl, rfl⟩ := List.cons.inj hrow
    exact hnot ⟨body, rfl⟩
  have hrule : (⟨"string", .lineLiteral, .string⟩ : Rule) ∈ Rule.ofFamily .quote := by
    simp [Rule.ofFamily_quote]
  apply first_of_quotes quote rest (lineBodyLength quote rest) hrule hlength
  apply length_le_of_quotes
  · rw [hblock]
    exact Nat.zero_le _
  · exact hlength.le

/-- A literal with a fault is an error token, and any other a string. -/
theorem judge_string (quote : Char) (rest : List Char) :
    judge .string quote rest =
      ⟨if (literalFault? quote rest).isSome then .error else .string, quote :: rest,
        literalFault? quote rest⟩ := by
  unfold judge
  cases literalFault? quote rest <;> rfl

end Lexeme

/-! ## One step at an offset -/

/-- A step of a scanner that stands at this offset of the text gives this lexeme, at the place of
the scanner, and takes the scanner just past it. -/
def ReadAt (source : String) (offset : Nat) (lexeme : Lexeme) : Prop :=
  ∀ scanner : Scanner, scanner.rest = source.toList.drop offset →
    ∃ next, scanner.next? = some (⟨lexeme.kind, String.ofList lexeme.text, scanner.position,
        lexeme.fault.map LexicalFault.problem⟩, next) ∧
      next.rest = source.toList.drop (offset + lexeme.text.length)

theorem readAt_first {source : String} {offset : Nat} {c : Char} {rest : List Char}
    (h : source.toList.drop offset = c :: rest) : ReadAt source offset (Lexeme.first c rest) := by
  intro scanner hscanner
  obtain ⟨token, next, hnext, rfl, hrest⟩ := Scanner.next?_of_rest (hscanner.trans h)
  exact ⟨next, hnext, by rw [hrest, ← h, List.drop_drop]⟩

/-- One lexeme at most is read at an offset. -/
theorem ReadAt.kind_eq {source : String} {offset : Nat} {lexeme other : Lexeme}
    (h : ReadAt source offset lexeme) (hother : ReadAt source offset other) :
    lexeme.kind = other.kind := by
  have hrest : (Scanner.mk source (source.toList.drop offset) offset .start []).rest =
      source.toList.drop offset := rfl
  obtain ⟨next, hnext, -⟩ := h _ hrest
  obtain ⟨next', hnext', -⟩ := hother _ hrest
  rw [hnext] at hnext'
  exact congrArg Token.kind (Prod.mk.inj (Option.some.inj hnext')).1

end Assay
