-- Whatever an analysis gives is traced to the text: its findings and the nodes
-- of its tree hold tokens of the stream, and each of these stands where the
-- text, counted by lines and columns, goes on with its value.
import Mathlib.Data.List.DropRight
import Assay.Analysis
import Assay.Proofs.Names

namespace Assay

/-! ## The text at a place -/

/-- What is left of a text after its first lines, if it has so many. -/
def dropLines : Nat → List Char → Option (List Char)
  | 0, text => some text
  | _ + 1, [] => none
  | count + 1, c :: rest => if c = '\n' then dropLines count rest else dropLines (count + 1) rest

/-- The text from a line and a column on, both counted from one, if there is such a place. -/
def textAt? (source : String) (place : Position) : Option (List Char) := do
  let rest ← dropLines (place.line - 1).toNat source.toList
  let column := (place.column - 1).toNat
  if 1 ≤ place.line ∧ 1 ≤ place.column ∧ column ≤ (rest.takeWhile (fun c => c ≠ '\n')).length then
    some (rest.drop column)
  else none

/-- What stands after the last line feed of a text. -/
def lastLine (text : List Char) : List Char :=
  text.rtakeWhile (fun c => c ≠ '\n')

theorem ne_newline_of_mem_lastLine {text : List Char} {c : Char} (h : c ∈ lastLine text) :
    c ≠ '\n' := by
  simpa using List.mem_rtakeWhile_imp h

theorem lastLine_eq_self {text : List Char} (h : '\n' ∉ text) : lastLine text = text := by
  refine List.rtakeWhile_eq_self_iff.mpr ?_
  intro c hmem
  have hne : c ≠ '\n' := fun hc => h (hc ▸ hmem)
  simpa using hne

theorem lastLine_cons {text : List Char} (c : Char) (h : c = '\n' ∨ '\n' ∈ text) :
    lastLine (c :: text) = lastLine text := by
  unfold lastLine List.rtakeWhile
  rw [List.reverse_cons, List.takeWhile_append]
  split
  · rename_i hall
    -- The text holds no line feed, so the character itself is one.
    have hself := List.takeWhile_eq_self_iff.mp ((List.takeWhile_prefix _).eq_of_length hall)
    have hnone : '\n' ∉ text := by
      intro hmem
      simpa using hself '\n' (List.mem_reverse.mpr hmem)
    rw [(List.takeWhile_prefix _).eq_of_length hall, h.resolve_right hnone]
    simp
  · rfl

theorem dropLines_count (before rest : List Char) :
    dropLines (before.count '\n') (before ++ rest) = some (lastLine before ++ rest) := by
  induction before with
  | nil => simp [dropLines, lastLine]
  | cons c before ih =>
    by_cases hline : c = '\n'
    · rw [lastLine_cons c (Or.inl hline), hline, List.count_cons_self, List.cons_append, dropLines,
        if_pos rfl, ih]
    · rw [List.count_cons_of_ne hline]
      by_cases hmem : '\n' ∈ before
      · obtain ⟨count, hcount⟩ : ∃ count, before.count '\n' = count + 1 :=
          Nat.exists_eq_add_one.mpr (List.count_pos_iff.mpr hmem)
        rw [lastLine_cons c (Or.inr hmem), hcount, List.cons_append, dropLines, if_neg hline,
          ← hcount, ih]
      · rw [List.count_eq_zero_of_not_mem hmem, dropLines,
          lastLine_eq_self (by simp [hmem, Ne.symm hline])]

/-- At the place after some of the text stands the rest of it. -/
theorem textAt?_placeAfter {source : String} {before rest : List Char}
    (h : source.toList = before ++ rest) : textAt? source (placeAfter before) = some rest := by
  have hline : ((placeAfter before).line - 1).toNat = before.count '\n' := by
    simp only [placeAfter]
    omega
  have hcolumn : ((placeAfter before).column - 1).toNat = (lastLine before).length := by
    simp only [placeAfter, lastLine, List.rtakeWhile, List.length_reverse]
    omega
  have hwithin : (lastLine before).length ≤
      ((lastLine before ++ rest).takeWhile (fun c => c ≠ '\n')).length := by
    rw [List.takeWhile_append_of_pos (by simpa using fun c => ne_newline_of_mem_lastLine),
      List.length_append]
    exact Nat.le_add_right _ _
  rw [textAt?, hline, hcolumn, h, dropLines_count, Option.bind_eq_bind, Option.bind_some,
    if_pos ⟨by simp only [placeAfter]; omega, by simp only [placeAfter]; omega, hwithin⟩,
    List.drop_left]

/-- The line feed is the last place of its line. -/
example : textAt? "ab\nc" ⟨1, 3⟩ = some ['\n', 'c'] ∧ textAt? "ab\nc" ⟨1, 4⟩ = none := by
  decide

/-! ## The text at a token -/

/-- From each token of a scan on, the text is made of the values of this token and of those after
it. -/
theorem textAt?_token {source : String} {before after : List Token} {token : Token}
    (h : scan source = before ++ token :: after) :
    textAt? source token.position =
      some ((token :: after).flatMap (fun token => token.value.toList)) := by
  have htext : source.toList = before.flatMap (fun token => token.value.toList) ++
      (token :: after).flatMap (fun token => token.value.toList) := by
    rw [← flatMap_value_scan source, h, List.flatMap_append]
  have hplace : token.position =
      placeAfter (before.flatMap (fun token => token.value.toList)) := by
    rw [← start_past]
    exact Lexeme.position_of_place h
  rw [hplace]
  exact textAt?_placeAfter htext

/-- No two tokens of a scan stand at the same place, nor does any stand at the end of the text. -/
theorem nodup_position_scan (source : String) :
    ((scan source ++ [Token.endMark (placeAfter source.toList)]).map Token.position).Nodup := by
  have hend : textAt? source (placeAfter source.toList) = some [] :=
    textAt?_placeAfter (List.append_nil _).symm
  -- What is left of the text from a token on gets shorter from token to token.
  have hnodup : ∀ before after : List Token, scan source = before ++ after →
      ((after ++ [Token.endMark (placeAfter source.toList)]).map Token.position).Nodup := by
    intro before after
    induction after generalizing before with
    | nil => simp
    | cons token after ih =>
      intro hscan
      have htoken := textAt?_token hscan
      have hvalue : token.value.toList ≠ [] := by
        rw [ne_eq, String.toList_eq_nil_iff]
        exact (of_mem_scan (hscan ▸ List.mem_append_right _ List.mem_cons_self)).2.1
      rw [List.cons_append, List.map_cons, List.nodup_cons]
      refine ⟨?_, ih (before ++ [token]) (by simp [hscan])⟩
      intro hmem
      obtain ⟨other, hother, hsame⟩ := List.mem_map.mp hmem
      rcases List.mem_append.mp hother with hafter | hmark
      · obtain ⟨middle, last, rfl⟩ := List.append_of_mem hafter
        have hrow : scan source = (before ++ token :: middle) ++ other :: last := by simp [hscan]
        have hlast := textAt?_token hrow
        rw [hsame, htoken] at hlast
        have hlength := congrArg List.length (Option.some.inj hlast)
        simp only [List.flatMap_cons, List.flatMap_append, List.length_append] at hlength
        have hpos := List.length_pos_iff.mpr hvalue
        omega
      · rw [List.mem_singleton.mp hmark] at hsame
        rw [← hsame, Token.endMark, hend, List.flatMap_cons] at htoken
        exact hvalue (List.append_eq_nil_iff.mp (Option.some.inj htoken).symm).1
  exact hnodup [] (scan source) rfl

/-- The tokens for the parser are those of the scan and the end mark, without the blanks. -/
theorem tokens_eq_filter (source : String) :
    (tokenize source).tokens = (scan source ++ [Token.endMark (endOf source)]).filter
      (fun token => token.kind ≠ .whitespace) := by
  rw [List.filter_append]
  rfl

theorem tokens_sublist_scan (source : String) :
    (tokenize source).tokens.Sublist
      (scan source ++ [Token.endMark (placeAfter source.toList)]) := by
  rw [← endOf_eq, tokens_eq_filter]
  exact List.filter_sublist

theorem errors_eq_filter (source : String) :
    (tokenize source).errors =
      (tokenize source).tokens.filter (fun token => token.kind = .error) := by
  have hmark : [Token.endMark (endOf source)].filter (fun token => token.kind = .error) = [] := rfl
  rw [tokenize, List.filter_append, hmark, List.append_nil, List.filter_filter]
  refine List.filter_congr fun token _ => ?_
  cases token.kind <;> rfl

theorem programTokens_sublist (source : String) :
    (programTokens (tokenize source).tokens).Sublist (tokenize source).tokens := by
  rw [tokenize, programTokens_append_mark rfl (kind_ne_endMark source)]
  exact List.filter_sublist.trans (List.sublist_append_left _ _)

/-! ## The nodes of a tree -/

namespace Node

mutual

/-- The nodes of a tree, each before its children. -/
def preorder : Node → List Node
  | ⟨kind, value, children, token⟩ => ⟨kind, value, children, token⟩ :: preorderAll children

/-- The nodes of some trees, one tree after the other. -/
def preorderAll : List Node → List Node
  | [] => []
  | node :: rest => preorder node ++ preorderAll rest

end

theorem preorderAll_append (nodes others : List Node) :
    preorderAll (nodes ++ others) = preorderAll nodes ++ preorderAll others := by
  induction nodes with
  | nil => rfl
  | cons node rest ih => rw [List.cons_append, preorderAll, preorderAll, ih, List.append_assoc]

/-- The node holds one of these tokens, and its value. -/
def Holds (tokens : List Token) (node : Node) : Prop :=
  ∃ token ∈ tokens, node.token = some token ∧ node.value = some token.value

end Node

/-- The nodes of the tree, if there is one. -/
def Analysis.nodes (analysis : Analysis) : List Node :=
  (analysis.tree.map Node.preorder).getD []

theorem Item.nodes_hold {item : Item} {node : Node}
    (h : node ∈ Node.preorderAll item.statement?.toList) : node.Holds item.tokens := by
  cases item with
  | lineBreak mark hmark => cases h
  | bare value hvalue =>
    have hnodes : node ∈ [Node.leafOf value hvalue] := h
    rw [List.mem_singleton.mp hnodes]
    exact ⟨value, List.mem_singleton_self value, rfl, rfl⟩
  | assigned name operator value hname hoperator hvalue =>
    have hnodes : node ∈ [Node.assignment name (Node.leafOf value hvalue),
        Node.leafOf value hvalue] := h
    rcases List.mem_cons.mp hnodes with rfl | hleaf
    · exact ⟨name, List.mem_cons_self, rfl, rfl⟩
    · rw [List.mem_singleton.mp hleaf]
      exact ⟨value, by simp [Item.tokens], rfl, rfl⟩

/-- An item makes its nodes in the order of its tokens, of each token one at most. -/
theorem Item.nodes_sublist (item : Item) :
    ((Node.preorderAll item.statement?.toList).filterMap Node.token).Sublist item.tokens := by
  cases item with
  | lineBreak mark hmark => exact List.nil_sublist _
  | bare value hvalue => exact List.Sublist.refl [value]
  | assigned name operator value hname hoperator hvalue =>
    have hvalues : [value].Sublist [operator, value] := List.sublist_cons_self _ _
    exact hvalues.cons_cons name

theorem Segment.nodes_hold {segment : Segment} {node : Node}
    (h : node ∈ Node.preorderAll segment.statement?.toList) : node.Holds segment.tokens := by
  cases segment with
  | item i => exact i.nodes_hold h
  | refused token hkind => cases h
  | discarded begun passed fault => cases h

theorem Segment.nodes_sublist (segment : Segment) :
    ((Node.preorderAll segment.statement?.toList).filterMap Node.token).Sublist
      segment.tokens := by
  cases segment with
  | item i => exact i.nodes_sublist
  | refused token hkind => exact List.nil_sublist _
  | discarded begun passed fault => exact List.nil_sublist _

theorem preorderAll_statements (segments : List Segment) :
    Node.preorderAll (segments.filterMap Segment.statement?) =
      segments.flatMap (fun segment => Node.preorderAll segment.statement?.toList) := by
  induction segments with
  | nil => rfl
  | cons segment rest ih =>
    have hrow : (segment :: rest).filterMap Segment.statement? =
        segment.statement?.toList ++ rest.filterMap Segment.statement? := by
      rw [List.filterMap_cons]
      cases segment.statement? <;> rfl
    rw [hrow, Node.preorderAll_append, ih, List.flatMap_cons]

/-- The nodes of the statements hold tokens of the program, in their order. -/
theorem derive_nodes (tokens : List Token) :
    (∀ node ∈ Node.preorderAll (derive tokens).statements, node.Holds (programTokens tokens)) ∧
      ((Node.preorderAll (derive tokens).statements).filterMap Node.token).Sublist
        (programTokens tokens) := by
  obtain ⟨segments, htiles, hderive⟩ := derive_tiles tokens
  rw [hderive, outcome_statements, preorderAll_statements, htiles.flatMap_tokens]
  constructor
  · intro node hmem
    obtain ⟨segment, hsegment, hnode⟩ := List.mem_flatMap.mp hmem
    obtain ⟨token, htoken, hholds⟩ := segment.nodes_hold hnode
    exact ⟨token, List.mem_flatMap.mpr ⟨segment, hsegment, htoken⟩, hholds⟩
  · clear htiles hderive
    induction segments with
    | nil => exact List.Sublist.refl []
    | cons segment rest ih =>
      rw [List.flatMap_cons, List.filterMap_append, List.flatMap_cons]
      exact segment.nodes_sublist.append ih

/-- The nodes of a tree are those of its statements, under one root. -/
theorem analyze_nodes (source : String) :
    (analyze source).nodes = [] ∨
      (analyze source).nodes =
        Node.program (derive (tokenize source).tokens).statements ::
          Node.preorderAll (derive (tokenize source).tokens).statements := by
  have htree : (analyze source).tree = (derive (tokenize source).tokens).tree? := rfl
  unfold Analysis.nodes
  rw [htree, Derivation.tree?]
  split
  · exact Or.inl rfl
  · exact Or.inr rfl

theorem nodes_sublist_tokens (source : String) :
    ((analyze source).nodes.filterMap Node.token).Sublist (analyze source).tokens := by
  rcases analyze_nodes source with hnone | htree
  · rw [hnone]
    exact List.nil_sublist _
  · rw [htree, List.filterMap_cons_none rfl]
    exact (derive_nodes (tokenize source).tokens).2.trans (programTokens_sublist source)

theorem of_mem_nodes {source : String} {node : Node} (h : node ∈ (analyze source).nodes) :
    node.kind = .program ∧ node.token = none ∨ node.Holds (analyze source).tokens := by
  rcases analyze_nodes source with hnone | htree
  · rw [hnone] at h
    cases h
  · rw [htree] at h
    rcases List.mem_cons.mp h with rfl | hstatement
    · exact Or.inl ⟨rfl, rfl⟩
    · obtain ⟨token, htoken, hholds⟩ := (derive_nodes (tokenize source).tokens).1 node hstatement
      exact Or.inr ⟨token, (programTokens_sublist source).subset htoken, hholds⟩

/-! ## Findings -/

theorem exists_of_mem_lexicalErrors {source : String} {d : Diagnostic}
    (h : d ∈ (analyze source).lexicalErrors) :
    ∃ token ∈ scan source, token.kind = .error ∧ d = Diagnostic.ofErrorToken token := by
  obtain ⟨token, htoken, rfl⟩ := List.mem_map.mp h
  obtain ⟨hscan, hkind⟩ := List.mem_filter.mp htoken
  exact ⟨token, hscan, of_decide_eq_true hkind, rfl⟩

theorem LexicalFault.code_mem (fault : LexicalFault) :
    fault.problem.code ∈ ["L001", "L002", "L003"] := by
  cases fault <;> simp [LexicalFault.problem, LexicalFault.code]

/-- An error token carries the problem of a lexical fault, and the finding about it repeats
this. -/
theorem ofErrorToken_of_mem_scan {source : String} {token : Token} (h : token ∈ scan source)
    (hkind : token.kind = .error) :
    token.error = some (Diagnostic.ofErrorToken token).problem ∧
      (Diagnostic.ofErrorToken token).problem.code ∈ ["L001", "L002", "L003"] := by
  obtain ⟨lexeme, -, start, rfl⟩ := Lexeme.exists_of_mem_place h
  obtain ⟨problem, hproblem⟩ := Option.isSome_iff_exists.mp ((of_mem_scan h).2.2.mpr hkind)
  obtain ⟨fault, -, rfl⟩ := Option.map_eq_some_iff.mp hproblem
  have hfinding : (Diagnostic.ofErrorToken (lexeme.toToken start)).problem = fault.problem := by
    rw [Diagnostic.ofErrorToken, hproblem]
    rfl
  rw [hfinding]
  exact ⟨hproblem, fault.code_mem⟩

/-- A syntax finding is about a token of the stream, at the place of this token. -/
theorem mem_tokens_of_mem_syntaxErrors {source : String} {d : Diagnostic}
    (h : d ∈ (analyze source).syntaxErrors) :
    d.token ∈ (analyze source).tokens ∧ d.position = d.token.position := by
  obtain ⟨index, hholds⟩ := exists_holds_of_mem_reports h
  refine ⟨?_, hholds.position_eq⟩
  have hkept := List.mem_of_getElem? hholds.token_eq
  rw [tokenize, keptTokens_append_mark _ _ rfl] at hkept
  rcases List.mem_append.mp hkept with hmem | hmark
  · exact List.mem_append_left _ (List.mem_filter.mp hmem).1
  · exact List.mem_append_right _ hmark

theorem position_of_endMark {source : String} {token : Token} (h : token ∈ (tokenize source).tokens)
    (hkind : token.kind = .endMark) : token.position = placeAfter source.toList := by
  rcases List.mem_append.mp h with hscan | hmark
  · exact absurd hkind (kind_ne_endMark source token hscan)
  · rw [List.mem_singleton.mp hmark, ← endOf_eq]
    rfl

/-! ## The law -/

/-- Everything in an analysis is traced to the text. The lexical findings are about the error
tokens, in order, and each repeats the problem of its token. A syntax finding is about a token of
the stream. Every node but the root holds a token of the stream and its value, and the nodes come
in the order of these tokens, no two at one place. At the line and column of a token the text goes
on with its value, and a finding at the end mark stands just past the text. -/
theorem everything_is_traced_to_the_text (source : String) :
    (analyze source).lexicalErrors.map Diagnostic.token =
      (analyze source).tokens.filter (fun token => token.kind = .error) ∧
    (∀ d ∈ (analyze source).lexicalErrors, d.token.error = some d.problem ∧
      d.problem.code ∈ ["L001", "L002", "L003"] ∧ d.position = d.token.position) ∧
    (∀ d ∈ (analyze source).syntaxErrors,
      d.token ∈ (analyze source).tokens ∧ d.position = d.token.position) ∧
    (∀ node ∈ (analyze source).nodes,
      node.kind = .program ∧ node.token = none ∨ node.Holds (analyze source).tokens) ∧
    ((analyze source).nodes.filterMap Node.token).Sublist (analyze source).tokens ∧
    (((analyze source).nodes.filterMap Node.token).map Token.position).Nodup ∧
    (∀ token ∈ (analyze source).tokens, token.kind ≠ .endMark →
      ∃ rest, textAt? source token.position = some (token.value.toList ++ rest)) ∧
    (∀ d ∈ (analyze source).lexicalErrors ++ (analyze source).syntaxErrors,
      d.token.kind = .endMark → d.position = placeAfter source.toList) := by
  have hnodes := nodes_sublist_tokens source
  refine ⟨?_, ?_, fun d hmem => mem_tokens_of_mem_syntaxErrors hmem,
    fun node hmem => of_mem_nodes hmem, hnodes, ?_, ?_, ?_⟩
  · show ((tokenize source).errors.map Diagnostic.ofErrorToken).map Diagnostic.token =
      (tokenize source).tokens.filter _
    rw [← errors_eq_filter, List.map_map]
    exact List.map_id _
  · intro d hmem
    obtain ⟨token, hscan, hkind, rfl⟩ := exists_of_mem_lexicalErrors hmem
    obtain ⟨herror, hcode⟩ := ofErrorToken_of_mem_scan hscan hkind
    exact ⟨herror, hcode, rfl⟩
  · exact (nodup_position_scan source).sublist
      ((hnodes.trans (tokens_sublist_scan source)).map Token.position)
  · intro token hmem hkind
    obtain ⟨before, after, hscan⟩ := List.append_of_mem (mem_scan_of_mem_tokens hmem hkind)
    exact ⟨_, textAt?_token hscan⟩
  · intro d hmem hkind
    rcases List.mem_append.mp hmem with hlexical | hfound
    · obtain ⟨token, -, herror, rfl⟩ := exists_of_mem_lexicalErrors hlexical
      exact absurd hkind (by simp [Diagnostic.ofErrorToken, Diagnostic.about, herror])
    · obtain ⟨hstream, hplace⟩ := mem_tokens_of_mem_syntaxErrors hfound
      rw [hplace]
      exact position_of_endMark hstream hkind

end Assay
