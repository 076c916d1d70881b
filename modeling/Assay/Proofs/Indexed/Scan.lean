-- The lexer as it walks over a text by index, from token to token. Each step
-- reads characters that are there and moves on, so the scan ends, and it gives
-- the tokens of the text.
import Assay.Proofs.Indexed.Text
import Assay.Token.Scan

namespace Assay

namespace Indexed

/-! ## Judging a literal -/

def closedRound (quote : Char) (text : List Char) (i : Nat) : Option (Turn Nat Bool) := do
  if i < text.length then
    let c ← text[i]?
    if c = '\\' then some (.again (i + 2))
    else if c = quote then some (.done (i + 1 = text.length))
    else some (.again (i + 1))
  else some (.done false)

/-- Whether the first quote outside a unit, from an index on, is the last character. -/
def closedFrom (quote : Char) (text : List Char) (i : Nat) : Option Bool :=
  loop (closedRound quote text) i

def escapeRound (text : List Char) (i : Nat) : Option (Turn Nat (Option Char)) := do
  if i + 1 < text.length then
    let c ← text[i]?
    if c = '\\' then
      let escaped ← text[i + 1]?
      if escaped ∈ escapes then some (.again (i + 2)) else some (.done (some escaped))
    else some (.again (i + 1))
  else some (.done none)

/-- The first character from an index on that means nothing after its backslash. -/
def unknownEscapeFrom (text : List Char) (i : Nat) : Option (Option Char) :=
  loop (escapeRound text) i

def literalFault (text : List Char) : Option (Option LexicalFault) := do
  let delimiter := text.take 3
  let quote ← text[0]?
  if delimitsBlock delimiter then
    if text.length < 6 ∨ ¬ delimiter.isSuffixOf text then some (some (.openBlock quote))
    else some none
  else if ← closedFrom quote text 1 then
    let escape ← unknownEscapeFrom text 1
    some (escape.map .unknownEscape)
  else some (some .openLine)

section Literals

variable {text rest : List Char} {i : Nat}

theorem closedFrom_past {quote : Char} (h : text.length ≤ i) :
    closedFrom quote text i = some false :=
  loop_done (if_neg (Nat.not_lt.mpr h))

theorem closedRound_backslash {quote : Char} (h : text.drop i = '\\' :: rest) :
    closedRound quote text i = some (.again (i + 2)) := by
  obtain ⟨hlt, hc, -⟩ := of_drop_cons h
  rw [closedRound, if_pos hlt, hc, Option.bind_eq_bind, Option.bind_some, if_pos rfl]

theorem closedFrom_eq (quote : Char) (h : text.drop i = rest) :
    closedFrom quote text i = some (closedBy quote rest) := by
  fun_induction closedBy quote rest generalizing i with
  | case1 => exact closedFrom_past (length_le_of_drop_nil h)
  | case2 =>
    obtain ⟨-, -, hnext⟩ := of_drop_cons h
    rw [closedFrom, loop_again (closedRound_backslash h)]
    exact closedFrom_past (Nat.le_succ_of_le (length_le_of_drop_nil hnext))
  | case3 c rest ih =>
    obtain ⟨-, -, hnext⟩ := of_drop_cons h
    obtain ⟨-, -, hafter⟩ := of_drop_cons hnext
    rw [closedFrom, loop_again (closedRound_backslash h)]
    exact ih hafter
  | case4 rest hlast hunit =>
    obtain ⟨hlt, hc, hnext⟩ := of_drop_cons h
    have hlength : text.length = i + 1 ↔ rest = [] := by
      rw [← hnext, List.drop_eq_nil_iff]
      omega
    have hround : closedRound quote text i = some (.done (i + 1 = text.length)) := by
      rw [closedRound, if_pos hlt, hc, Option.bind_eq_bind, Option.bind_some,
        if_neg (ne_backslash hlast hunit), if_pos rfl]
    rw [closedFrom, loop_done hround]
    congr 1
    rw [Bool.eq_iff_iff, decide_eq_true_iff, List.isEmpty_iff, ← hlength]
    exact eq_comm
  | case5 c rest hlast hunit hquote ih =>
    obtain ⟨hlt, hc, hnext⟩ := of_drop_cons h
    have hround : closedRound quote text i = some (.again (i + 1)) := by
      rw [closedRound, if_pos hlt, hc, Option.bind_eq_bind, Option.bind_some,
        if_neg (ne_backslash hlast hunit), if_neg hquote]
    rw [closedFrom, loop_again hround]
    exact ih hnext

theorem unknownEscapeFrom_past (h : text.length ≤ i + 1) : unknownEscapeFrom text i = some none :=
  loop_done (if_neg (Nat.not_lt.mpr h))

theorem unknownEscapeFrom_eq (h : text.drop i = rest) :
    unknownEscapeFrom text i = some (unknownEscape? rest) := by
  fun_induction unknownEscape? rest generalizing i with
  | case1 => exact unknownEscapeFrom_past (Nat.le_succ_of_le (length_le_of_drop_nil h))
  | case2 => exact unknownEscapeFrom_past (length_le_of_drop_nil (of_drop_cons h).2.2)
  | case3 c rest hmeans ih =>
    obtain ⟨-, hc, hnext⟩ := of_drop_cons h
    obtain ⟨hlt, hescaped, hafter⟩ := of_drop_cons hnext
    have hround : escapeRound text i = some (.again (i + 2)) := by
      rw [escapeRound, if_pos hlt, hc, hescaped]
      simp only [Option.bind_eq_bind, Option.bind_some, if_pos, if_pos hmeans]
    rw [unknownEscapeFrom, loop_again hround]
    exact ih hafter
  | case4 c rest hmeans =>
    obtain ⟨-, hc, hnext⟩ := of_drop_cons h
    obtain ⟨hlt, hescaped, -⟩ := of_drop_cons hnext
    have hround : escapeRound text i = some (.done (some c)) := by
      rw [escapeRound, if_pos hlt, hc, hescaped]
      simp only [Option.bind_eq_bind, Option.bind_some, if_pos, if_neg hmeans]
    exact loop_done hround
  | case5 c rest hlast hunit ih =>
    obtain ⟨-, hc, hnext⟩ := of_drop_cons h
    cases rest with
    | nil => exact unknownEscapeFrom_past (length_le_of_drop_nil hnext)
    | cons d rest =>
      obtain ⟨hlt, -, -⟩ := of_drop_cons hnext
      have hround : escapeRound text i = some (.again (i + 1)) := by
        rw [escapeRound, if_pos hlt, hc, Option.bind_eq_bind, Option.bind_some,
          if_neg (ne_backslash hlast hunit)]
      rw [unknownEscapeFrom, loop_again hround]
      exact ih hnext

/-- Whether three quotes close a block literal does not hang on the quote at its front. -/
theorem blockCloses_iff (quote : Char) (body : List Char) :
    ((quote :: quote :: quote :: body).length < 6 ∨
        ¬ [quote, quote, quote].isSuffixOf (quote :: quote :: quote :: body)) ↔
      ((quote :: quote :: body).length < 5 ∨
        ¬ [quote, quote, quote].isSuffixOf (quote :: quote :: body)) := by
  simp only [List.isSuffixOf_iff_suffix, List.suffix_cons_iff (a := quote)]
  cases body with
  | nil => simp
  | cons c body =>
    have hlength : (quote :: quote :: quote :: c :: body).length < 6 ↔
        (quote :: quote :: c :: body).length < 5 := by
      simp only [List.length_cons]
      omega
    rw [hlength]
    simp

theorem literalFault_eq (first : Char) (rest : List Char) :
    literalFault (first :: rest) = some (literalFault? first rest) := by
  unfold literalFault literalFault?
  simp only [List.getElem?_cons_zero, Option.bind_eq_bind, Option.bind_some]
  by_cases hopens : delimitsBlock ((first :: rest).take 3)
  · obtain ⟨quote, body, hquote, hrow⟩ := delimitsBlock_take.mp hopens
    cases hrow
    have hblock : isQuote first ∧ [first, first].isPrefixOf (first :: first :: body) :=
      ⟨hquote, by simp⟩
    rw [if_pos hopens, if_pos hblock, List.take_succ_cons, List.take_succ_cons,
      List.take_succ_cons, List.take_zero]
    simp only [blockCloses_iff]
    split
    · rfl
    · rfl
  · have hblock : ¬ (isQuote first ∧ [first, first].isPrefixOf rest) := by
      rintro ⟨hquote, hpre⟩
      obtain ⟨body, rfl⟩ := List.isPrefixOf_iff_prefix.mp hpre
      exact hopens (delimitsBlock_take.mpr ⟨first, body, hquote, rfl⟩)
    have hnext : (first :: rest).drop 1 = rest := rfl
    rw [if_neg hopens, if_neg hblock, closedFrom_eq first hnext, unknownEscapeFrom_eq hnext,
      Option.bind_some, Option.bind_some]
    split
    · rfl
    · rfl

end Literals

/-! ## Tokens -/

/-- The first of some rules that takes something from an index on, with the number of
characters. -/
def firstRule (text : List Char) (start : Nat) : List Rule → Option (Option (Rule × Nat))
  | [] => some none
  | rule :: rules => do
    let n ← shapeLength rule.shape text start
    if 0 < n then some (some (rule, n)) else firstRule text start rules

/-- The lexeme that a rule of the given kind makes of a piece of text. -/
def lexemeOf (kind : TokenKind) (piece : List Char) : Option Lexeme := do
  if kind = .string then
    match ← literalFault piece with
    | some fault => some ⟨.error, piece, some fault⟩
    | none => some ⟨.string, piece, none⟩
  else if kind = .identifier then some ⟨classifyWord (String.ofList piece), piece, none⟩
  else some ⟨kind, piece, none⟩

/-- The lexeme that starts at an index. -/
def lexemeAt (text : List Char) (start : Nat) : Option Lexeme := do
  match ← firstRule text start Rule.table with
  | some (rule, n) => lexemeOf rule.kind ((text.drop start).take n)
  | none =>
    let c ← text[start]?
    some ⟨.error, [c], some (.strayCharacter c)⟩

/-- Moves over some characters, one by one. -/
def moveOver (text : List Char) : Nat → Nat → Position → Option (Nat × Position)
  | 0, i, position => some (i, position)
  | count + 1, i, position => do
    let c ← text[i]?
    moveOver text count (i + 1) (position.step c)

/-- Where the lexer stands, and the error tokens so far. -/
structure Cursor where
  offset : Nat
  position : Position
  errors : List Token

def nextToken (text : List Char) (cursor : Cursor) : Option (Token × Cursor) := do
  let lexeme ← lexemeAt text cursor.offset
  let token := lexeme.toToken cursor.position
  let (offset, position) ← moveOver text lexeme.text.length cursor.offset cursor.position
  let errors := if token.kind = .error then cursor.errors ++ [token] else cursor.errors
  some (token, ⟨offset, position, errors⟩)

def scanRound (text : List Char) :
    List Token × Cursor → Option (Turn (List Token × Cursor) (List Token × Cursor))
  | (found, cursor) => do
    if cursor.offset < text.length then
      let (token, next) ← nextToken text cursor
      some (.again (found ++ [token], next))
    else some (.done (found, cursor))

/-- The tokens found so far and those from the cursor on, and the cursor at the end. -/
def scanFrom (text : List Char) (found : List Token) (cursor : Cursor) :
    Option (List Token × Cursor) :=
  loop (scanRound text) (found, cursor)

def tokenize (source : String) : Option TokenStream := do
  let (all, last) ← scanFrom source.toList [] ⟨0, .start, []⟩
  some ⟨all.filter (fun token => token.kind ≠ .whitespace) ++ [Token.endMark last.position],
    last.errors⟩

/-! ## Every scan ends -/

section Scan

variable {text rest : List Char} {i : Nat}

theorem firstRule_eq (h : text.drop i = rest) (rules : List Rule) :
    firstRule text i rules = some (rules.findSome? (fun rule =>
      let n := rule.length rest
      if n = 0 then none else some (rule, n))) := by
  induction rules with
  | nil => rfl
  | cons rule rules ih =>
    have hlength : shapeLength rule.shape text i = some (rule.length rest) :=
      shapeLength_eq rule.shape h
    rw [firstRule, hlength, ih, List.findSome?_cons, Option.bind_eq_bind, Option.bind_some]
    by_cases hzero : rule.length rest = 0
    · rw [if_neg (Nat.not_lt.mpr (Nat.le_of_eq hzero))]
      simp only [if_pos hzero]
    · rw [if_pos (Nat.pos_of_ne_zero hzero)]
      simp only [if_neg hzero]

theorem lexemeOf_eq (kind : TokenKind) (c : Char) (rest : List Char) :
    lexemeOf kind (c :: rest) = some (Lexeme.judge kind c rest) := by
  unfold lexemeOf Lexeme.judge
  rw [literalFault_eq]
  split
  · rename_i hstring
    rw [hstring]
    cases literalFault? c rest with
    | none => rfl
    | some fault => rfl
  · rename_i hstring
    split
    · rename_i hname
      rw [hname]
    · rename_i hname
      split
      · exact absurd rfl hstring
      · exact absurd rfl hname
      · rfl

theorem lexemeAt_eq {c : Char} (h : text.drop i = c :: rest) :
    lexemeAt text i = some (Lexeme.first c rest) := by
  obtain ⟨-, hc, -⟩ := of_drop_cons h
  unfold lexemeAt Lexeme.first
  have hrule : firstRule text i Rule.table = some (Rule.first? (c :: rest)) :=
    firstRule_eq h Rule.table
  rw [hrule, Option.bind_eq_bind, Option.bind_some]
  cases hfirst : Rule.first? (c :: rest) with
  | none =>
    simp only [hc]
    rfl
  | some found =>
    obtain ⟨rule, n⟩ := found
    obtain ⟨-, -, hne⟩ := Rule.of_first? hfirst
    simp only
    rw [h, List.take_cons (Nat.pos_of_ne_zero hne)]
    exact lexemeOf_eq rule.kind c (rest.take (n - 1))

/-- What is left after a word that was read. -/
theorem drop_after {word : List Char} (h : text.drop i = word ++ rest) :
    text.drop (i + word.length) = rest := by
  rw [← List.drop_drop, h, List.drop_left]

theorem moveOver_eq {word : List Char} (h : text.drop i = word ++ rest) (position : Position) :
    moveOver text word.length i position = some (i + word.length, position.past word) := by
  induction word generalizing i position with
  | nil => rfl
  | cons c word ih =>
    obtain ⟨-, hc, hnext⟩ := of_drop_cons h
    rw [List.length_cons, moveOver, hc, Option.bind_eq_bind, Option.bind_some, ih hnext,
      Position.past_cons]
    congr 2
    omega

theorem nextToken_eq {cursor : Cursor} {c : Char} (h : text.drop cursor.offset = c :: rest) :
    nextToken text cursor =
      some ((Lexeme.first c rest).toToken cursor.position,
        ⟨cursor.offset + (Lexeme.first c rest).text.length,
          cursor.position.past (Lexeme.first c rest).text,
          cursor.errors ++ [(Lexeme.first c rest).toToken cursor.position].filter
            (fun token => token.kind = .error)⟩) := by
  have hmove : text.drop cursor.offset = (Lexeme.first c rest).text ++
      rest.drop ((Lexeme.first c rest).text.length - 1) := by
    rw [h, Lexeme.first_text_append]
  unfold nextToken
  rw [lexemeAt_eq h, Option.bind_eq_bind, Option.bind_some, moveOver_eq hmove]
  simp only
  by_cases herror : ((Lexeme.first c rest).toToken cursor.position).kind = .error
  · simp [herror]
  · simp [herror]

/-- The scan from the cursor on has the tokens of the text that is left. -/
theorem scanFrom_eq (found : List Token) {cursor : Cursor} (h : text.drop cursor.offset = rest)
    (hin : cursor.offset ≤ text.length) :
    scanFrom text found cursor =
      some (found ++ Lexeme.place cursor.position (Lexeme.split rest),
        ⟨text.length, cursor.position.past rest,
          cursor.errors ++ (Lexeme.place cursor.position (Lexeme.split rest)).filter
            (fun token => token.kind = .error)⟩) := by
  fun_induction Lexeme.split rest generalizing found cursor with
  | case1 =>
    have hle := length_le_of_drop_nil h
    have hround : scanRound text (found, cursor) = some (.done (found, cursor)) :=
      if_neg (Nat.not_lt.mpr hle)
    rw [scanFrom, loop_done hround, ← Nat.le_antisymm hin hle]
    simp [Lexeme.place]
  | case2 c rest lexeme =>
    rename_i ih
    obtain ⟨hlt, -, -⟩ := of_drop_cons h
    have hrow : text.drop cursor.offset =
        lexeme.text ++ rest.drop (lexeme.text.length - 1) := by
      rw [h, Lexeme.first_text_append]
    have hin' : cursor.offset + lexeme.text.length ≤ text.length := by
      have hlength := congrArg List.length hrow
      rw [List.length_drop, List.length_append] at hlength
      omega
    have hpast : cursor.position.past (c :: rest) =
        (cursor.position.past lexeme.text).past (rest.drop (lexeme.text.length - 1)) := by
      rw [← Position.past_append, Lexeme.first_text_append]
    have hround : scanRound text (found, cursor) =
        some (.again (found ++ [lexeme.toToken cursor.position],
          ⟨cursor.offset + lexeme.text.length, cursor.position.past lexeme.text,
            cursor.errors ++ [lexeme.toToken cursor.position].filter
              (fun token => token.kind = .error)⟩)) := by
      rw [scanRound, if_pos hlt, nextToken_eq h]
      rfl
    rw [scanFrom, loop_again hround, ← scanFrom, ih _ (drop_after hrow) hin', Lexeme.place, hpast]
    simp only [List.append_assoc, ← List.filter_append]
    rfl

theorem tokenize_eq (source : String) : tokenize source = some (Assay.tokenize source) := by
  have hstart : (⟨0, .start, []⟩ : Cursor).offset ≤ source.toList.length := Nat.zero_le _
  have hscan := scanFrom_eq [] List.drop_zero hstart
  unfold tokenize Assay.tokenize
  rw [hscan]
  rfl

end Scan

end Indexed

end Assay
