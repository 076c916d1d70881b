-- What a name is. The lexer cuts words out of the text and tells names from
-- reserved words by the table of rules; the parser judges the text of a name as
-- a whole. Both come to the same, so no text gives the parser a bad name.
import Assay.Proofs.Findings
import Assay.Proofs.Layout

namespace Assay

/-! ## Words that are names -/

/-- The digits that are no decimal digits lie beyond the letters. -/
theorem not_isDigitLike_of_isWordStart {c : Char} (h : isWordStart c) : ¬ isDigitLike c := by
  have hmarked : ∀ span ∈ markedDigits, 123 ≤ span.1 := by decide
  simp only [isWordStart, Bool.or_eq_true, decide_eq_true_eq] at h
  rcases h with rfl | halpha
  · decide
  · have hletter := toNat_of_isAlpha halpha
    intro hdigit
    rcases Bool.or_eq_true_iff.mp hdigit with hdecimal | hother
    · exact not_isDecimalDigit_of_isAlpha halpha hdecimal
    · obtain ⟨span, hspan, hin⟩ := List.any_eq_true.mp hother
      have hlow := hmarked span hspan
      simp only [Bool.and_eq_true, decide_eq_true_eq] at hin
      omega

theorem identifierFault?_of_isName {word : List Char} (hname : isName word)
    (hreserved : String.ofList word ∉ reservedWords) :
    identifierFault? (String.ofList word) = none := by
  cases word with
  | nil => cases hname
  | cons c tail =>
    have hdigit := not_isDigitLike_of_isWordStart (Bool.and_eq_true_iff.mp hname).1
    unfold identifierFault?
    rw [String.toList_ofList, List.head?_cons, Option.any_some, if_neg hdigit, if_neg hreserved,
      if_pos hname]

theorem not_reserved_of_classifyWord {word : String} (h : classifyWord word = .identifier) :
    word ∉ reservedWords := by
  unfold classifyWord at h
  split_ifs at h with hboolean hnone hkeyword
  simp only [reservedWords, List.mem_append, not_or]
  exact ⟨⟨hboolean, hnone⟩, hkeyword⟩

theorem identifierProblem?_eq_none {text : String} :
    identifierProblem? text = none ↔ identifierFault? text = none :=
  Option.map_eq_none_iff

/-! ## Names that the lexer makes -/

theorem Rule.filter_identifier_table :
    table.filter (fun rule => rule.kind = .identifier) = [⟨"identifier", .word, .identifier⟩] :=
  rfl

namespace Lexeme

theorem of_judge_identifier {kind : TokenKind} {c : Char} {rest : List Char}
    (h : (judge kind c rest).kind = .identifier) :
    kind = .identifier ∧ classifyWord (String.ofList (c :: rest)) = .identifier := by
  unfold judge at h
  split at h
  · split at h
    · cases h
    · cases h
  · exact ⟨rfl, h⟩
  · contradiction

/-- A lexeme that is a name is a run of word characters that is not reserved. -/
theorem identifierFault?_of_first {c : Char} {rest : List Char}
    (h : (first c rest).kind = .identifier) :
    identifierFault? (String.ofList (first c rest).text) = none := by
  rcases first_cases c rest with ⟨rule, hmem, hne, hfirst⟩ | hstray
  · rw [hfirst] at h ⊢
    obtain ⟨hkind, hword⟩ := of_judge_identifier h
    have hrow : rule ∈ [(⟨"identifier", .word, .identifier⟩ : Rule)] := by
      rw [← Rule.filter_identifier_table]
      exact List.mem_filter.mpr ⟨hmem, decide_eq_true hkind⟩
    have hlength : rule.length (c :: rest) = Shape.length .word (c :: rest) := by
      rw [List.mem_singleton.mp hrow]
      rfl
    have hstart : isWordStart c := by
      by_contra hstart
      rw [hlength, Shape.length, if_neg hstart] at hne
      exact hne rfl
    rw [Shape.length, if_pos hstart] at hlength
    have htake : rest.take (rule.length (c :: rest) - 1) = rest.takeWhile isWordChar := by
      rw [hlength, Nat.add_sub_cancel_left]
      exact (List.prefix_iff_eq_take.mp (List.takeWhile_prefix _)).symm
    rw [htake] at hword ⊢
    rw [judge_text]
    apply identifierFault?_of_isName
    · rw [isName, hstart, List.all_takeWhile]
      rfl
    · exact not_reserved_of_classifyWord hword
  · rw [hstray] at h
    cases h

end Lexeme

theorem identifierFault?_of_mem_scan {source : String} {token : Token} (h : token ∈ scan source)
    (hkind : token.kind = .identifier) : identifierFault? token.value = none := by
  obtain ⟨lexeme, hmem, start, rfl⟩ := Lexeme.exists_of_mem_place h
  obtain ⟨c, rest, rfl⟩ := Lexeme.exists_first_of_mem_split hmem
  exact Lexeme.identifierFault?_of_first hkind

theorem Scanner.identifierFault?_of_next? {scanner next : Scanner} {token : Token}
    (h : scanner.next? = some (token, next)) (hkind : token.kind = .identifier) :
    identifierFault? token.value = none := by
  unfold next? at h
  split at h
  · cases h
  · cases h
    exact Lexeme.identifierFault?_of_first hkind

/-- A name on its own is one token and the end mark. -/
theorem tokenize_of_name {text : String} (h : identifierFault? text = none) :
    (tokenize text).tokens = [⟨.identifier, text, .start, none⟩, Token.endMark (endOf text)] := by
  have hword : identifierFault? (String.ofList text.toList) = none := by
    rw [String.ofList_toList]
    exact h
  have hsplit : Lexeme.split text.toList = [⟨.identifier, text.toList, none⟩] := by
    have hread := readBefore_name hword [] (opens_nil _)
    rw [List.append_nil, Lexeme.split_nil] at hread
    exact hread
  unfold tokenize scan
  rw [hsplit]
  simp [Lexeme.place, Lexeme.toToken]

/-! ## Findings about names -/

theorem exists_holds_of_mem_reports {tokens : List Token} {d : Diagnostic}
    (h : d ∈ (derive tokens).reports) : ∃ index, d.Holds (keptTokens tokens) index := by
  obtain ⟨segments, htiles, hderive⟩ := derive_tiles tokens
  obtain ⟨indices, -, -, hholds⟩ :=
    htiles.located (programEnd_kind tokens) [] (Tape.ofTokens tokens).beyond
  rw [List.nil_append, ← keptTokens_eq] at hholds
  rw [hderive, outcome_reports] at h
  obtain ⟨i, hi, rfl⟩ := List.mem_iff_getElem.mp h
  exact ⟨_, List.Forall₂.get hholds (by rw [hholds.length_eq]; exact hi) hi⟩

/-- A finding about a name stands at a token of the stream that holds no proper name. -/
theorem exists_bad_name_of_code {tokens : List Token} {d : Diagnostic}
    (h : d ∈ (derive tokens).reports) (hcode : d.problem.code ∈ nameCodes) :
    ∃ token ∈ tokens, token.kind = .identifier ∧ identifierProblem? token.value = some d.problem := by
  obtain ⟨index, hholds⟩ := exists_holds_of_mem_reports h
  have hname : d.token.kind = .identifier ∧
      identifierProblem? d.token.value = some d.problem := by
    have hcontext := hholds.context
    unfold Diagnostic.Context at hcontext
    simp only [nameCodes, List.mem_cons, List.not_mem_nil, or_false] at hcode
    rcases hcode with hcode | hcode | hcode <;> rw [hcode] at hcontext <;> exact hcontext
  refine ⟨d.token, ?_, hname⟩
  exact mem_of_mem_keptTokens (List.mem_of_getElem? hholds.token_eq) (by simp [hname.1])

/-! ## The law -/

theorem mem_scan_of_mem_tokens {source : String} {token : Token}
    (h : token ∈ (tokenize source).tokens) (hkind : token.kind ≠ .endMark) :
    token ∈ scan source := by
  rcases List.mem_append.mp h with hscan | hend
  · exact (List.mem_filter.mp hscan).1
  · rw [List.mem_singleton.mp hend] at hkind
    exact absurd rfl hkind

/-- A text is a proper name just if the lexer reads it as one name and nothing else. Whatever
the text and wherever the lexer stands in it, each name that it makes is proper, so the parser
has no name to find fault with. -/
theorem the_lexer_and_the_parser_agree_on_names (text : String) :
    (identifierProblem? text = none ↔
      ∃ name mark : Token, (tokenize text).tokens = [name, mark] ∧
        name.kind = .identifier ∧ name.value = text ∧ mark.kind = .endMark) ∧
    (∀ token ∈ scan text ++ (tokenize text).tokens ++ (tokenize text).errors,
      token.kind = .identifier → identifierProblem? token.value = none) ∧
    (∀ (scanner next : Scanner) (token : Token), scanner.next? = some (token, next) →
      token.kind = .identifier → identifierProblem? token.value = none) ∧
    ∀ d ∈ (analyze text).syntaxErrors, d.problem.code ∉ ["P006", "P007", "P008"] := by
  have hproper : ∀ token ∈ (tokenize text).tokens, token.kind = .identifier →
      identifierProblem? token.value = none := by
    intro token hmem hkind
    have hscan := mem_scan_of_mem_tokens hmem (by simp [hkind])
    exact identifierProblem?_eq_none.mpr (identifierFault?_of_mem_scan hscan hkind)
  refine ⟨⟨?_, ?_⟩, ?_, ?_, ?_⟩
  · intro hname
    exact ⟨_, _, tokenize_of_name (identifierProblem?_eq_none.mp hname), rfl, rfl, rfl⟩
  · rintro ⟨name, mark, htokens, hkind, rfl, -⟩
    exact hproper name (by rw [htokens]; exact List.mem_cons_self) hkind
  · intro token hmem hkind
    rw [List.append_assoc] at hmem
    rcases List.mem_append.mp hmem with hscan | hstream
    · exact identifierProblem?_eq_none.mpr (identifierFault?_of_mem_scan hscan hkind)
    rcases List.mem_append.mp hstream with hkept | herror
    · exact hproper token hkept hkind
    · have hscan := (List.mem_filter.mp herror).1
      exact identifierProblem?_eq_none.mpr (identifierFault?_of_mem_scan hscan hkind)
  · intro scanner next token hnext hkind
    exact identifierProblem?_eq_none.mpr (Scanner.identifierFault?_of_next? hnext hkind)
  · intro d hmem hcode
    obtain ⟨token, hstream, hkind, hproblem⟩ := exists_bad_name_of_code hmem hcode
    rw [hproper token hstream hkind] at hproblem
    cases hproblem

/-- The lexer takes `not` for an operator before it asks whether it is a reserved word. -/
theorem the_word_not_is_a_name_to_neither :
    identifierProblem? "not" = some (IdentifierFault.reserved.problem "not") ∧
      ¬ ∃ name mark : Token, (tokenize "not").tokens = [name, mark] ∧
        name.kind = .identifier ∧ name.value = "not" ∧ mark.kind = .endMark := by
  have hproblem : identifierProblem? "not" = some (IdentifierFault.reserved.problem "not") := by
    decide
  refine ⟨hproblem, ?_⟩
  intro hone
  have hnone := (the_lexer_and_the_parser_agree_on_names "not").1.mpr hone
  rw [hproblem] at hnone
  cases hnone

end Assay
