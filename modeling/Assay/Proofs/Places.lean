-- Where the tokens of a text stand. The lexemes of a text make it up, and the
-- place of each is the line and column that one would count in the text
-- before it. A scanner that reads token by token comes to the same tokens,
-- the same errors and the same end.
import Mathlib.Data.List.Induction
import Assay.Proofs.Reach
import Assay.Token.Scanner

namespace Assay

/-! ## Places counted in the text -/

/-- The place after some text, counted afresh: one line more than there are line feeds, one
column more than there are characters after the last of them. -/
def placeAfter (text : List Char) : Position :=
  ⟨1 + text.count '\n', 1 + (text.reverse.takeWhile (fun c => c ≠ '\n')).length⟩

theorem placeAfter_snoc (text : List Char) (c : Char) :
    placeAfter (text ++ [c]) = (placeAfter text).step c := by
  unfold placeAfter Position.step
  rw [List.reverse_append, List.reverse_singleton, List.singleton_append, List.count_append]
  by_cases h : c = '\n'
  · rw [if_pos h, List.takeWhile_cons_of_neg (by simp [h])]
    simp [h, Int.add_assoc]
  · rw [if_neg h, List.takeWhile_cons_of_pos (by simp [h]), List.count_singleton]
    simp [h, Int.add_assoc]

/-- The reader of a text knows its place without looking back. -/
theorem start_past (text : List Char) : Position.start.past text = placeAfter text := by
  induction text using List.reverseRecOn with
  | nil => rfl
  | append_singleton text c ih => rw [Position.past_append, ih, placeAfter_snoc]; rfl

theorem endOf_eq (source : String) : endOf source = placeAfter source.toList :=
  start_past source.toList

/-! ## Kinds of lexemes -/

theorem classifyWord_kinds (word : String) :
    classifyWord word ≠ .error ∧ classifyWord word ≠ .endMark := by
  unfold classifyWord
  split_ifs <;> decide

theorem Rule.kind_of_mem {rule : Rule} (h : rule ∈ table) :
    rule.kind ≠ .error ∧ rule.kind ≠ .endMark := by
  have hall : ∀ kind ∈ table.map Rule.kind, kind ≠ .error ∧ kind ≠ .endMark := by decide
  exact hall rule.kind (List.mem_map_of_mem h)

theorem Rule.filter_string_table : table.filter (fun rule => rule.kind = .string) =
    [⟨"triple_string", .blockLiteral, .string⟩, ⟨"string", .lineLiteral, .string⟩] :=
  rfl

theorem Rule.isQuote_of_length {rule : Rule} (hrule : rule ∈ table) (hkind : rule.kind = .string)
    {c : Char} {rest : List Char} (hlength : rule.length (c :: rest) ≠ 0) : isQuote c := by
  have hmem : rule ∈ table.filter (fun rule => rule.kind = .string) :=
    List.mem_filter.mpr ⟨hrule, decide_eq_true hkind⟩
  rw [filter_string_table] at hmem
  simp only [List.mem_cons, List.not_mem_nil, or_false] at hmem
  rcases hmem with rfl | rfl
  · obtain ⟨quote, body, hquote, hrow⟩ := exists_quotes_of_blockLength hlength
    rw [(List.cons.inj hrow).1]
    exact hquote
  · by_contra hnot
    exact hlength (if_neg hnot)

namespace Lexeme

/-- What a rule makes is no end mark, and it has a fault just when it is an error. -/
theorem judge_kind {kind : TokenKind} (herror : kind ≠ .error) (hend : kind ≠ .endMark)
    (c : Char) (rest : List Char) :
    (judge kind c rest).kind ≠ .endMark ∧
      ((judge kind c rest).fault.isSome ↔ (judge kind c rest).kind = .error) := by
  unfold judge
  split
  · split
    · simp
    · simp
  · obtain ⟨hworderror, hwordend⟩ := classifyWord_kinds (String.ofList (c :: rest))
    exact ⟨hwordend, nofun, fun h => absurd h hworderror⟩
  · simp [herror, hend]

theorem first_kind (c : Char) (rest : List Char) :
    (first c rest).kind ≠ .endMark ∧
      ((first c rest).fault.isSome ↔ (first c rest).kind = .error) := by
  rcases first_cases c rest with ⟨rule, hrule, -, hfirst⟩ | hstray
  · obtain ⟨herror, hend⟩ := Rule.kind_of_mem hrule
    rw [hfirst]
    exact judge_kind herror hend c _
  · rw [hstray]
    simp

/-- A fault is about a stray character, or it is what is wrong with a literal. -/
theorem fault_of_first {c : Char} {rest : List Char} {fault : LexicalFault}
    (h : (first c rest).fault = some fault) :
    fault = .strayCharacter c ∨
      isQuote c ∧ ∃ tail, (first c rest).text = c :: tail ∧ literalFault? c tail = some fault := by
  rcases first_cases c rest with ⟨rule, hrule, hne, hfirst⟩ | hstray
  · rw [hfirst] at h ⊢
    rw [judge_text]
    unfold judge at h
    split at h
    · rename_i hkind
      refine Or.inr ⟨Rule.isQuote_of_length hrule hkind hne, _, rfl, ?_⟩
      split at h
      · rename_i found hfound
        rw [hfound]
        exact h
      · cases h
    · cases h
    · cases h
  · rw [hstray] at h
    exact Or.inl (Option.some.inj h).symm

theorem exists_first_of_mem_split {text : List Char} {lexeme : Lexeme} (h : lexeme ∈ split text) :
    ∃ c rest, lexeme = first c rest := by
  fun_induction split text with
  | case1 => cases h
  | case2 c rest head ih =>
    rcases List.mem_cons.mp h with rfl | hmem
    · exact ⟨c, rest, rfl⟩
    · exact ih hmem

theorem exists_of_mem_place {position : Position} {lexemes : List Lexeme} {token : Token}
    (h : token ∈ place position lexemes) :
    ∃ lexeme ∈ lexemes, ∃ start, token = lexeme.toToken start := by
  induction lexemes generalizing position with
  | nil => cases h
  | cons lexeme rest ih =>
    rcases List.mem_cons.mp h with rfl | hmem
    · exact ⟨lexeme, List.mem_cons_self, position, rfl⟩
    · obtain ⟨other, hother, start, hstart⟩ := ih hmem
      exact ⟨other, List.mem_cons_of_mem _ hother, start, hstart⟩

/-! ## Tokens in their places -/

theorem flatMap_value_place (position : Position) (lexemes : List Lexeme) :
    (place position lexemes).flatMap (fun token => token.value.toList) =
      lexemes.flatMap Lexeme.text := by
  induction lexemes generalizing position with
  | nil => rfl
  | cons lexeme rest ih =>
    rw [place, List.flatMap_cons, List.flatMap_cons, ih]
    rw [toToken, String.toList_ofList]

theorem place_append (position : Position) (lexemes others : List Lexeme) :
    place position (lexemes ++ others) =
      place position lexemes ++ place (position.past (lexemes.flatMap Lexeme.text)) others := by
  induction lexemes generalizing position with
  | nil => rfl
  | cons lexeme rest ih =>
    rw [List.cons_append, place, place, List.cons_append, ih, List.flatMap_cons,
      Position.past_append]

/-- A token stands where the texts of those before it end. -/
theorem position_of_place {position : Position} {lexemes : List Lexeme}
    {before after : List Token} {token : Token}
    (h : place position lexemes = before ++ token :: after) :
    token.position = position.past (before.flatMap (fun token => token.value.toList)) := by
  induction before generalizing position lexemes with
  | nil =>
    cases lexemes with
    | nil => cases h
    | cons lexeme rest =>
      simp only [place, List.nil_append, List.cons.injEq] at h
      rw [← h.1]
      rfl
  | cons first before ih =>
    cases lexemes with
    | nil => cases h
    | cons lexeme rest =>
      simp only [place, List.cons_append, List.cons.injEq] at h
      rw [ih h.2, List.flatMap_cons, Position.past_append, ← h.1, toToken, String.toList_ofList]

end Lexeme

/-- Tokens of a text are no end marks, hold something, and have a problem just when they are
errors. -/
theorem of_mem_scan {source : String} {token : Token} (h : token ∈ scan source) :
    token.kind ≠ .endMark ∧ token.value ≠ "" ∧ (token.error.isSome ↔ token.kind = .error) := by
  obtain ⟨lexeme, hmem, start, rfl⟩ := Lexeme.exists_of_mem_place h
  obtain ⟨c, rest, rfl⟩ := Lexeme.exists_first_of_mem_split hmem
  obtain ⟨hend, hfault⟩ := Lexeme.first_kind c rest
  obtain ⟨n, htext⟩ := Lexeme.first_text c rest
  refine ⟨hend, ?_, ?_⟩
  · intro hvalue
    rw [← String.toList_eq_nil_iff, Lexeme.toToken, String.toList_ofList, htext] at hvalue
    cases hvalue
  · rw [Lexeme.toToken, Option.isSome_map]
    exact hfault

/-- Before the end mark of a stream stands no other. -/
theorem kind_ne_endMark (source : String) :
    ∀ token ∈ (scan source).filter (fun token => token.kind ≠ .whitespace),
      token.kind ≠ .endMark :=
  fun _ hmem => (of_mem_scan (List.mem_filter.mp hmem).1).1

theorem flatMap_value_scan (source : String) :
    (scan source).flatMap (fun token => token.value.toList) = source.toList := by
  rw [scan, Lexeme.flatMap_value_place, Lexeme.flatMap_text_split]

/-! ## Reading token by token -/

namespace Scanner

theorem drain_of_end {scanner : Scanner} (h : scanner.next? = none) :
    scanner.drain = ([], scanner) := by
  rw [drain]
  split
  · rfl
  · rename_i token next hnext
    rw [h] at hnext
    cases hnext

theorem drain_of_next {scanner next : Scanner} {token : Token}
    (h : scanner.next? = some (token, next)) :
    scanner.drain = (token :: next.drain.1, next.drain.2) := by
  rw [drain]
  split
  · rename_i hnone
    rw [h] at hnone
    cases hnone
  · rename_i other rest hother
    rw [h] at hother
    cases hother
    rfl

/-- Whatever a scanner has read, the tokens it comes to are those of the lexemes of the rest,
each where the one before it ends, and it ends past the rest with their errors added. -/
theorem drain_eq (source : String) (rest : List Char) (offset : Nat) (position : Position)
    (errors : List Token) :
    (Scanner.mk source rest offset position errors).drain =
      (Lexeme.place position (Lexeme.split rest),
        ⟨source, [], offset + rest.length, position.past rest,
          errors ++ (Lexeme.place position (Lexeme.split rest)).filter
            (fun token => token.kind = .error)⟩) := by
  fun_induction Lexeme.split rest generalizing offset position errors with
  | case1 =>
    rw [drain_of_end rfl]
    simp [Lexeme.place]
  | case2 c rest lexeme ih =>
    have happend : lexeme.text ++ rest.drop (lexeme.text.length - 1) = c :: rest :=
      Lexeme.first_text_append c rest
    have hlength : lexeme.text.length + (rest.drop (lexeme.text.length - 1)).length =
        (c :: rest).length := by
      rw [← List.length_append, happend]
    have hnext : (Scanner.mk source (c :: rest) offset position errors).next? =
        some (lexeme.toToken position,
          ⟨source, rest.drop (lexeme.text.length - 1), offset + lexeme.text.length,
            position.past lexeme.text,
            if (lexeme.toToken position).kind = .error then errors ++ [lexeme.toToken position]
            else errors⟩) := rfl
    -- The place, the offset and the errors move on together, past the same lexeme.
    rw [drain_of_next hnext, ih, Nat.add_assoc, hlength, ← Position.past_append, happend]
    rw [Lexeme.place, List.filter_cons]
    by_cases herror : (lexeme.toToken position).kind = .error
    · simp [herror]
    · simp [herror]

end Scanner

/-! ## The law -/

/-- The offset at which the token after some others starts. -/
def offsetAfter (before : List Token) : Nat :=
  (before.flatMap (fun token => token.value.toList)).length

theorem take_offsetAfter {source : String} {before after : List Token}
    (h : scan source = before ++ after) :
    source.toList.take (offsetAfter before) =
      before.flatMap (fun token => token.value.toList) := by
  rw [← flatMap_value_scan source, h, List.flatMap_append, offsetAfter, List.take_left]

/-- The scan tiles the text. Every token holds something, their values are the text, and each
stands at the line and column of its offset. The stream for the parser is the scan without
blanks and with one end mark, at the end of the text; its errors are the error tokens of the
scan, and they alone carry a problem. A scanner that reads token by token comes to the same. -/
theorem the_scan_tiles_the_text (source : String) :
    (∀ token ∈ scan source, token.value ≠ "") ∧
    String.join ((scan source).map Token.value) = source ∧
    (∀ (before after : List Token) (token : Token), scan source = before ++ token :: after →
      token.position = placeAfter (source.toList.take (offsetAfter before))) ∧
    (tokenize source).tokens =
      (scan source).filter (fun token => token.kind ≠ .whitespace) ++
        [⟨.endMark, "EOF", placeAfter source.toList, none⟩] ∧
    (∀ token ∈ scan source, token.kind ≠ .endMark) ∧
    (tokenize source).errors = (scan source).filter (fun token => token.kind = .error) ∧
    (∀ token ∈ scan source ++ (tokenize source).tokens,
      token.error.isSome ↔ token.kind = .error) ∧
    (Scanner.ofSource source).drain =
      (scan source,
        ⟨source, [], source.length, placeAfter source.toList, (tokenize source).errors⟩) := by
  refine ⟨fun token hmem => (of_mem_scan hmem).2.1, ?_, ?_, ?_,
    fun token hmem => (of_mem_scan hmem).1, rfl, ?_, ?_⟩
  · rw [← String.toList_inj, String.toList_join, List.flatMap_map]
    exact flatMap_value_scan source
  · intro before after token hsplit
    rw [take_offsetAfter hsplit, ← start_past]
    exact Lexeme.position_of_place hsplit
  · rw [← endOf_eq]
    rfl
  · intro token hmem
    rcases List.mem_append.mp hmem with hscan | hstream
    · exact (of_mem_scan hscan).2.2
    · rcases List.mem_append.mp hstream with hkept | hmark
      · exact (of_mem_scan (List.mem_filter.mp hkept).1).2.2
      · rw [List.mem_singleton.mp hmark]
        simp [Token.endMark]
  · rw [Scanner.ofSource, Scanner.drain_eq, Nat.zero_add, ← endOf_eq, String.length_toList]
    rfl

/-- A string over two lines, a line end of two characters, an unknown character and a name. -/
def brokenText : String :=
  "'''a\nb''' \r\n$ y"

/-- The name stands in the third line, after the two line feeds that the string and the line end
hold, and past the unknown character. -/
theorem a_name_past_a_long_string :
    scan brokenText = (scan brokenText).take 5 ++ ⟨.identifier, "y", ⟨3, 3⟩, none⟩ :: [] ∧
    placeAfter (brokenText.toList.take (offsetAfter ((scan brokenText).take 5))) = ⟨3, 3⟩ := by
  have hsplit : scan brokenText =
      (scan brokenText).take 5 ++ ⟨.identifier, "y", ⟨3, 3⟩, none⟩ :: [] := by
    decide +kernel
  obtain ⟨-, -, hplaces, -⟩ := the_scan_tiles_the_text brokenText
  exact ⟨hsplit, (hplaces _ _ _ hsplit).symm⟩

end Assay
