-- The rules as they walk over a text by index. An access to a character can
-- miss, a loop can go on for ever, and a walk could end before its start, which
-- makes no length; in each case there is no result. Here each walk is shown to
-- have one, the length that the rule takes.
import Mathlib.Data.List.Basic
import Mathlib.Data.Nat.PSub
import Assay.Proofs.Reach
import Assay.Proofs.Quotations

namespace Assay

/-! ## Indices into a list -/

section Drop

variable {α : Type} {row rest : List α} {i : Nat}

theorem length_le_of_drop_nil (h : row.drop i = []) : row.length ≤ i :=
  List.drop_eq_nil_iff.mp h

/-- The element at an index, and what stands from the next index on. -/
theorem of_drop_cons {x : α} (h : row.drop i = x :: rest) :
    i < row.length ∧ row[i]? = some x ∧ row.drop (i + 1) = rest := by
  have hlt : i < row.length := by
    by_contra hle
    rw [List.drop_of_length_le (Nat.not_lt.mp hle)] at h
    cases h
  rw [List.drop_eq_getElem_cons hlt] at h
  obtain ⟨hx, hrest⟩ := List.cons.inj h
  exact ⟨hlt, by rw [List.getElem?_eq_getElem hlt, hx], hrest⟩

end Drop

namespace Indexed

/-! ## Loops -/

/-- How a round of a loop ends: the loop goes on from a state, or it has a result. -/
inductive Turn (σ β : Type) where
  | again (state : σ)
  | done (result : β)

section Loop

variable {σ β : Type} (round : σ → Option (Turn σ β))

/-- One round after the other is made, until one has a result. There is none if a round breaks
off, or if the rounds go on for ever. -/
def loop (state : σ) : Option β := do
  match ← round state with
  -- The call is left to a tactic, so that the term does not record where in the file it stands.
  | .again next => by apply loop; exact next
  | .done result => some result
partial_fixpoint

variable {round} {state : σ}

theorem loop_again {next : σ} (h : round state = some (.again next)) :
    loop round state = loop round next := by
  rw [loop, h]
  rfl

theorem loop_done {result : β} (h : round state = some (.done result)) :
    loop round state = some result := by
  rw [loop, h]
  rfl

end Loop

/-! ## Walks -/

/-- Whether there is a character at an index, and a member. -/
def holdsAt (member : Char → Bool) (text : List Char) (i : Nat) : Option Bool := do
  if i < text.length then
    let c ← text[i]?
    some (member c)
  else some false

def runRound (member : Char → Bool) (text : List Char) (i : Nat) : Option (Turn Nat Nat) := do
  if ← holdsAt member text i then some (.again (i + 1)) else some (.done i)

/-- The end of the run of members that starts at an index. -/
def runEnd (member : Char → Bool) (text : List Char) (i : Nat) : Option Nat :=
  loop (runRound member text) i

def startsAt (s text : List Char) (i : Nat) : Bool :=
  s.isPrefixOf (text.drop i)

/-- What opens and closes a block literal. -/
def blockDelimiters : List (List Char) := [['"', '"', '"'], ['\'', '\'', '\'']]

def delimitsBlock (piece : List Char) : Bool := piece ∈ blockDelimiters

def blockRound (delimiter text : List Char) (i : Nat) : Option (Turn Nat Nat) := do
  if i < text.length then
    let c ← text[i]?
    if c = '\\' then some (.again (i + 2))
    else if startsAt delimiter text i then some (.done (i + 3))
    else some (.again (i + 1))
  else some (.done text.length)

/-- The end of a block literal whose body goes on at an index. -/
def blockEnd (delimiter text : List Char) (i : Nat) : Option Nat :=
  loop (blockRound delimiter text) i

def blockLength (text : List Char) (start : Nat) : Option Nat := do
  let delimiter := (text.drop start).take 3
  if delimitsBlock delimiter then
    let stop ← blockEnd delimiter text (start + 3)
    Nat.psub stop start
  else some 0

def staysOnLine (c : Char) : Bool := !isLineEnd c

def lineRound (quote : Char) (text : List Char) (i : Nat) : Option (Turn Nat Nat) := do
  if ← holdsAt staysOnLine text i then
    let c ← text[i]?
    if c = '\\' then
      if ← holdsAt staysOnLine text (i + 1) then some (.again (i + 2))
      else some (.again (i + 1))
    else if c = quote then some (.done (i + 1))
    else some (.again (i + 1))
  else some (.done i)

/-- The end of a literal on one line whose body goes on at an index. -/
def lineEnd (quote : Char) (text : List Char) (i : Nat) : Option Nat :=
  loop (lineRound quote text) i

def lineLength (text : List Char) (start : Nat) : Option Nat := do
  if ← holdsAt isQuote text start then
    let quote ← text[start]?
    let stop ← lineEnd quote text (start + 1)
    Nat.psub stop start
  else some 0

def wordLength (text : List Char) (start : Nat) : Option Nat := do
  if ← holdsAt isWordStart text start then
    let stop ← runEnd isWordChar text (start + 1)
    Nat.psub stop start
  else some 0

/-- The length of the longest of the words that stands at an index as a whole word. -/
def wholeWordLength (text : List Char) (start : Nat) : List (List Char) → Option Nat
  | [] => some 0
  | word :: words => do
    let others ← wholeWordLength text start words
    if startsAt word text start then
      if ← holdsAt isWordChar text (start + word.length) then some others
      else some (max word.length others)
    else some others

/-- The number of characters that a shape takes from an index on. -/
def shapeLength (shape : Shape) (text : List Char) (start : Nat) : Option Nat :=
  match shape with
  | .blanks => do
    let stop ← runEnd (fun c => c = ' ' || c = '\t') text start
    Nat.psub stop start
  | .lineBreak =>
    some (if startsAt ['\r', '\n'] text start then 2 else if startsAt ['\n'] text start then 1
      else 0)
  | .comment => do
    if startsAt ['#'] text start then
      let stop ← runEnd staysOnLine text start
      Nat.psub stop start
    else some 0
  | .blockLiteral => blockLength text start
  | .lineLiteral => lineLength text start
  | .pattern p => some ((p.length? (text.drop start)).getD 0)
  | .spelling spellings => some (longest (spellings.filter (fun s => startsAt s text start)))
  | .wholeWord words => wholeWordLength text start words
  | .word => wordLength text start

/-! ## Every walk ends -/

section Walks

variable {text rest : List Char} {i : Nat}

theorem holdsAt_eq (member : Char → Bool) (h : text.drop i = rest) :
    holdsAt member text i = some (rest.head?.any member) := by
  unfold holdsAt
  cases rest with
  | nil =>
    rw [if_neg (Nat.not_lt.mpr (length_le_of_drop_nil h))]
    rfl
  | cons c rest =>
    obtain ⟨hlt, hc, -⟩ := of_drop_cons h
    rw [if_pos hlt, hc]
    rfl

theorem runRound_eq (member : Char → Bool) (h : text.drop i = rest) :
    runRound member text i = some (if rest.head?.any member then .again (i + 1) else .done i) := by
  rw [runRound, holdsAt_eq member h, Option.bind_eq_bind, Option.bind_some, apply_ite some]

theorem runEnd_eq (member : Char → Bool) (h : text.drop i = rest) :
    runEnd member text i = some (i + (rest.takeWhile member).length) := by
  induction rest generalizing i with
  | nil => exact loop_done (runRound_eq member h)
  | cons c rest ih =>
    obtain ⟨-, -, hnext⟩ := of_drop_cons h
    have hround := runRound_eq member h
    rw [List.head?_cons, Option.any_some] at hround
    by_cases hmember : member c
    · rw [if_pos hmember] at hround
      rw [runEnd, loop_again hround, ← runEnd, ih hnext, List.takeWhile_cons_of_pos hmember,
        List.length_cons]
      congr 1
      omega
    · rw [if_neg hmember] at hround
      rw [List.takeWhile_cons_of_neg hmember]
      exact loop_done hround

/-- A walk that ends some places on has taken as many characters. -/
theorem psub_add_left (start n : Nat) : Nat.psub (start + n) start = some n :=
  Nat.psub_eq_some.mpr (Nat.add_comm n start)

theorem startsAt_eq (s : List Char) (h : text.drop i = rest) :
    startsAt s text i = s.isPrefixOf rest := by
  rw [startsAt, h]

theorem blockEnd_past {delimiter : List Char} (h : text.length ≤ i) :
    blockEnd delimiter text i = some text.length :=
  loop_done (if_neg (Nat.not_lt.mpr h))

theorem blockRound_backslash {delimiter : List Char} (h : text.drop i = '\\' :: rest) :
    blockRound delimiter text i = some (.again (i + 2)) := by
  obtain ⟨hlt, hc, -⟩ := of_drop_cons h
  rw [blockRound, if_pos hlt, hc, Option.bind_eq_bind, Option.bind_some, if_pos rfl]

theorem blockEnd_eq (quote : Char) (h : text.drop i = rest) (hi : i ≤ text.length) :
    blockEnd [quote, quote, quote] text i = some (i + blockBodyLength quote rest) := by
  fun_induction blockBodyLength quote rest generalizing i with
  | case1 =>
    rw [blockEnd_past (length_le_of_drop_nil h), Nat.add_zero,
      Nat.le_antisymm (length_le_of_drop_nil h) hi]
  | case2 =>
    -- The unit goes one place past the end of the text.
    obtain ⟨hlt, -, hnext⟩ := of_drop_cons h
    have hle := length_le_of_drop_nil hnext
    rw [blockEnd, loop_again (blockRound_backslash h), ← blockEnd, blockEnd_past (Nat.le_succ_of_le hle)]
    congr 1
    omega
  | case3 c rest ih =>
    obtain ⟨-, -, hnext⟩ := of_drop_cons h
    obtain ⟨hlt, -, hafter⟩ := of_drop_cons hnext
    rw [blockEnd, loop_again (blockRound_backslash h), ← blockEnd, ih hafter hlt]
    congr 1
    omega
  | case4 c rest hlast hunit hclose =>
    obtain ⟨hlt, hc, hnext⟩ := of_drop_cons h
    have hne := ne_backslash hlast hunit
    obtain ⟨rfl, hpre⟩ := hclose
    have hstarts : startsAt [c, c, c] text i := by
      rw [startsAt_eq _ h, List.isPrefixOf_cons_cons, hpre]
      simp
    have hround : blockRound [c, c, c] text i = some (.done (i + 3)) := by
      rw [blockRound, if_pos hlt, hc, Option.bind_eq_bind, Option.bind_some, if_neg hne,
        if_pos hstarts]
    exact loop_done hround
  | case5 c rest hlast hunit hclose ih =>
    obtain ⟨hlt, hc, hnext⟩ := of_drop_cons h
    have hstarts : ¬ startsAt [quote, quote, quote] text i := by
      rw [startsAt_eq _ h, List.isPrefixOf_cons_cons]
      intro hpre
      rw [Bool.and_eq_true, beq_iff_eq] at hpre
      exact hclose ⟨hpre.1.symm, hpre.2⟩
    have hround : blockRound [quote, quote, quote] text i = some (.again (i + 1)) := by
      rw [blockRound, if_pos hlt, hc, Option.bind_eq_bind, Option.bind_some,
        if_neg (ne_backslash hlast hunit), if_neg hstarts]
    rw [blockEnd, loop_again hround, ← blockEnd, ih hnext hlt]
    congr 1
    omega

/-- Three characters that are the delimiter of a block literal are a quote three times. -/
theorem delimitsBlock_take {text : List Char} :
    delimitsBlock (text.take 3) ↔
      ∃ quote body, isQuote quote ∧ text = quote :: quote :: quote :: body := by
  rw [delimitsBlock, decide_eq_true_iff]
  constructor
  · intro hmem
    have hrow := List.take_append_drop 3 text
    simp only [blockDelimiters, List.mem_cons, List.not_mem_nil, or_false] at hmem
    rcases hmem with hquotes | hquotes
    · exact ⟨'"', text.drop 3, rfl, by rw [← hrow, hquotes]; simp⟩
    · exact ⟨'\'', text.drop 3, rfl, by rw [← hrow, hquotes]; simp⟩
  · rintro ⟨quote, body, hquote, rfl⟩
    simp only [isQuote, Bool.or_eq_true, decide_eq_true_eq] at hquote
    rcases hquote with rfl | rfl <;> simp [blockDelimiters]

theorem blockLength_eq (h : text.drop i = rest) :
    blockLength text i = some (Assay.blockLength rest) := by
  unfold blockLength
  rw [h]
  by_cases hopens : delimitsBlock (rest.take 3)
  · obtain ⟨quote, body, hquote, rfl⟩ := delimitsBlock_take.mp hopens
    obtain ⟨hlt, -, hafter⟩ := of_drop_cons h
    obtain ⟨hlt, -, hafter⟩ := of_drop_cons hafter
    obtain ⟨hlt, -, hafter⟩ := of_drop_cons hafter
    have hend := blockEnd_eq quote hafter hlt
    simp only [if_pos hopens]
    simp only [List.take_succ_cons, List.take_zero] at hend ⊢
    rw [hend, Option.bind_eq_bind, Option.bind_some, Assay.blockLength, if_pos ⟨hquote, rfl, rfl⟩]
    exact Nat.psub_eq_some.mpr (by omega)
  · have hzero : Assay.blockLength rest = 0 := by
      by_contra hne
      exact hopens (delimitsBlock_take.mpr (exists_quotes_of_blockLength hne))
    simp only [if_neg hopens, hzero]

theorem lineEnd_of_lineEnd (quote : Char) (h : text.drop i = rest)
    (hrest : ∀ c ∈ rest.head?, isLineEnd c) : lineEnd quote text i = some i := by
  have hstops : rest.head?.any staysOnLine = false := by
    cases hhead : rest.head? with
    | none => rfl
    | some c => simp [staysOnLine, hrest c hhead]
  have hround : lineRound quote text i = some (.done i) := by
    rw [lineRound, holdsAt_eq _ h, hstops]
    rfl
  exact loop_done hround

theorem lineEnd_step (quote : Char) {c : Char} (h : text.drop i = c :: rest)
    (hline : ¬ isLineEnd c) :
    lineEnd quote text i =
      if c = '\\' then
        if rest.head?.any staysOnLine then lineEnd quote text (i + 2)
        else lineEnd quote text (i + 1)
      else if c = quote then some (i + 1)
      else lineEnd quote text (i + 1) := by
  obtain ⟨-, hc, hnext⟩ := of_drop_cons h
  have hround : lineRound quote text i = (
      if c = '\\' then
        if rest.head?.any staysOnLine then some (.again (i + 2)) else some (.again (i + 1))
      else if c = quote then some (.done (i + 1)) else some (.again (i + 1))) := by
    rw [lineRound, holdsAt_eq _ h, holdsAt_eq _ hnext, hc]
    simp [staysOnLine, hline]
  unfold lineEnd
  split_ifs with hescape hmore hquote
  · exact loop_again (hround.trans ((if_pos hescape).trans (if_pos hmore)))
  · exact loop_again (hround.trans ((if_pos hescape).trans (if_neg hmore)))
  · exact loop_done (hround.trans ((if_neg hescape).trans (if_pos hquote)))
  · exact loop_again (hround.trans ((if_neg hescape).trans (if_neg hquote)))

theorem lineEnd_eq (quote : Char) (h : text.drop i = rest) :
    lineEnd quote text i = some (i + lineBodyLength quote rest) := by
  fun_induction lineBodyLength quote rest generalizing i with
  | case1 => exact lineEnd_of_lineEnd quote h (by simp)
  | case2 =>
    obtain ⟨-, -, hnext⟩ := of_drop_cons h
    rw [lineEnd_step quote h (by decide), if_pos rfl, if_neg (by simp)]
    exact lineEnd_of_lineEnd quote hnext (by simp)
  | case3 c rest hline =>
    obtain ⟨-, -, hnext⟩ := of_drop_cons h
    rw [lineEnd_step quote h (by decide), if_pos rfl,
      if_neg (by simp [staysOnLine, hline])]
    exact lineEnd_of_lineEnd quote hnext (by simp [hline])
  | case4 c rest hline ih =>
    obtain ⟨-, -, hnext⟩ := of_drop_cons h
    obtain ⟨-, -, hafter⟩ := of_drop_cons hnext
    rw [lineEnd_step quote h (by decide), if_pos rfl,
      if_pos (by simp [staysOnLine, hline]), ih hafter]
    congr 1
    omega
  | case5 c rest _ _ hline => exact lineEnd_of_lineEnd quote h (by simp [hline])
  | case6 rest hlast hunit hline =>
    rw [lineEnd_step quote h hline, if_neg (ne_backslash hlast hunit), if_pos rfl]
  | case7 c rest hlast hunit hline hquote ih =>
    obtain ⟨-, -, hnext⟩ := of_drop_cons h
    rw [lineEnd_step quote h hline, if_neg (ne_backslash hlast hunit), if_neg hquote, ih hnext,
      Nat.add_assoc]

theorem lineLength_eq (h : text.drop i = rest) :
    lineLength text i = some (Assay.lineLength rest) := by
  rw [lineLength, holdsAt_eq _ h, Option.bind_eq_bind, Option.bind_some]
  cases rest with
  | nil => rfl
  | cons quote rest =>
    obtain ⟨-, hc, hnext⟩ := of_drop_cons h
    rw [Assay.lineLength, List.head?_cons, Option.any_some]
    by_cases hquote : isQuote quote
    · rw [if_pos hquote, if_pos hquote, hc, Option.bind_eq_bind, Option.bind_some,
        lineEnd_eq quote hnext, Option.bind_eq_bind, Option.bind_some]
      exact Nat.psub_eq_some.mpr (by omega)
    · rw [if_neg hquote, if_neg hquote]

theorem wordLength_eq (h : text.drop i = rest) :
    wordLength text i = some (Shape.word.length rest) := by
  rw [wordLength, holdsAt_eq _ h, Option.bind_eq_bind, Option.bind_some]
  cases rest with
  | nil => rfl
  | cons first rest =>
    obtain ⟨-, -, hnext⟩ := of_drop_cons h
    rw [Shape.length, List.head?_cons, Option.any_some]
    by_cases hstart : isWordStart first
    · rw [if_pos hstart, if_pos hstart, runEnd_eq isWordChar hnext, Option.bind_eq_bind,
        Option.bind_some]
      exact Nat.psub_eq_some.mpr (by omega)
    · rw [if_neg hstart, if_neg hstart]

theorem wholeWordLength_eq (h : text.drop i = rest) (words : List (List Char)) :
    wholeWordLength text i words = some ((Shape.wholeWord words).length rest) := by
  induction words with
  | nil => rfl
  | cons word words ih =>
    have hafter : text.drop (i + word.length) = rest.drop word.length := by
      rw [← h, List.drop_drop]
    have hmore : holdsAt isWordChar text (i + word.length) =
        some (continuesWord (rest.drop word.length)) := holdsAt_eq isWordChar hafter
    rw [wholeWordLength, ih, startsAt_eq word h, hmore]
    simp only [Option.bind_eq_bind, Option.bind_some, Shape.length, List.filter_cons]
    by_cases hword : word.isPrefixOf rest
    · by_cases hmore : continuesWord (rest.drop word.length)
      · simp [hword, hmore]
      · simp [hword, hmore, longest]
    · simp [hword]

/-- Every walk over a text has a result, and it is the length that the shape takes. -/
theorem shapeLength_eq (shape : Shape) (h : text.drop i = rest) :
    shapeLength shape text i = some (shape.length rest) := by
  cases shape with
  | blanks =>
    rw [shapeLength, runEnd_eq _ h, Option.bind_eq_bind, Option.bind_some, Shape.length,
      psub_add_left]
  | lineBreak => rw [shapeLength, startsAt_eq _ h, startsAt_eq _ h, Shape.length]
  | comment =>
    rw [shapeLength, startsAt_eq _ h, runEnd_eq _ h, Option.bind_eq_bind, Option.bind_some,
      Shape.length, psub_add_left]
    split
    · rfl
    · rfl
  | blockLiteral => exact blockLength_eq h
  | lineLiteral => exact lineLength_eq h
  | pattern p => rw [shapeLength, h, Shape.length]
  | spelling spellings =>
    have hstarts : (fun s => startsAt s text i) = (fun s : List Char => s.isPrefixOf rest) :=
      funext fun s => startsAt_eq s h
    rw [shapeLength, hstarts, Shape.length]
  | wholeWord words => exact wholeWordLength_eq h words
  | word => exact wordLength_eq h

end Walks

end Indexed

end Assay
