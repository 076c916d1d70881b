-- The tape on which the parser reads: blanks and comments are left out, a
-- missing end mark is completed, and the head never moves past the first
-- end mark.
import Assay.Token.Basic

namespace Assay

/-! ## The tokens kept -/

/-- The end mark that some tokens lack: just past the last token, which counts as one line; at
the start of the text if there is no token. -/
def missingEnd (tokens : List Token) : List Token :=
  match tokens.getLast? with
  | none => [.endMark .start]
  | some last =>
    if last.kind = .endMark then []
    else [.endMark ⟨last.position.line, last.position.column + last.value.length⟩]

/-- The tokens that the parser sees. -/
def keptTokens (tokens : List Token) : List Token :=
  let kept := tokens.filter (fun token => !token.kind.isTrivia)
  kept ++ missingEnd kept

/-! ## The tape -/

/-- A tape: the tokens passed, nearest first; those ahead, up to the first end mark; this mark;
and whatever stands beyond it. -/
structure Tape where
  behind : List Token
  ahead : List Token
  stop : Token
  beyond : List Token

namespace Tape

/-- The tape over the kept tokens, at its start. -/
def ofTokens (tokens : List Token) : Tape :=
  let kept := keptTokens tokens
  let marked := kept.dropWhile (fun token => token.kind ≠ .endMark)
  { behind := []
    ahead := kept.takeWhile (fun token => token.kind ≠ .endMark)
    stop := marked.headD (.endMark .start)
    beyond := marked.tail }

def tokens (tape : Tape) : List Token :=
  tape.behind.reverse ++ tape.ahead ++ tape.stop :: tape.beyond

def offset (tape : Tape) : Nat :=
  tape.behind.length

def current (tape : Tape) : Token :=
  tape.ahead.headD tape.stop

/-- The token before the head, or the first one at the start. -/
def previous (tape : Tape) : Token :=
  tape.behind.headD tape.current

def atEnd (tape : Tape) : Bool :=
  tape.ahead.isEmpty

/-- The kind of the token some places ahead, if there is one, be it beyond the end mark. -/
def peekKind? (tape : Tape) (places : Nat) : Option TokenKind :=
  (tape.ahead ++ tape.stop :: tape.beyond)[places]?.map Token.kind

/-- The tape with the head back at the start. -/
def rewind (tape : Tape) : Tape :=
  { tape with behind := [], ahead := tape.behind.reverse ++ tape.ahead }

/-- The tape with the head moved on, until just `rest`, the end of what is ahead, is left. -/
def moveTo (tape : Tape) (rest : List Token) : Tape :=
  let passed := tape.ahead.take (tape.ahead.length - rest.length)
  { tape with behind := passed.reverse ++ tape.behind, ahead := rest }

/-! ## The tokens stay -/

/-- The last token kept is an end mark. -/
theorem exists_endMark_mem_keptTokens (tokens : List Token) :
    ∃ token ∈ keptTokens tokens, token.kind = .endMark := by
  unfold keptTokens missingEnd
  simp only
  split
  · exact ⟨.endMark .start, by simp, rfl⟩
  · rename_i last hlast
    split
    · rename_i hend
      exact ⟨last, List.mem_append_left _ (List.mem_of_getLast? hlast), hend⟩
    · exact ⟨.endMark _, List.mem_append_right _ (List.mem_singleton_self _), rfl⟩

theorem dropWhile_ne_nil_of_mem {p : Token → Bool} {token : Token} {tokens : List Token}
    (hmem : token ∈ tokens) (hp : p token = false) : tokens.dropWhile p ≠ [] := by
  induction tokens with
  | nil => cases hmem
  | cons first rest ih =>
    cases hfirst : p first with
    | false => simp [hfirst]
    | true =>
      rcases List.mem_cons.mp hmem with h | h
      · rw [h, hfirst] at hp
        cases hp
      · rw [List.dropWhile_cons_of_pos hfirst]
        exact ih h

/-- The tape holds the tokens kept, in their order. -/
theorem tokens_ofTokens (tokens : List Token) : (ofTokens tokens).tokens = keptTokens tokens := by
  have hmark : (keptTokens tokens).dropWhile (fun token => token.kind ≠ .endMark) ≠ [] := by
    obtain ⟨token, hmem, hkind⟩ := exists_endMark_mem_keptTokens tokens
    exact dropWhile_ne_nil_of_mem hmem (by simp [hkind])
  unfold ofTokens Tape.tokens
  simp only [List.reverse_nil, List.nil_append]
  obtain ⟨stop, beyond, hsplit⟩ := List.exists_cons_of_ne_nil hmark
  rw [hsplit, List.headD_cons, List.tail_cons, ← hsplit, List.takeWhile_append_dropWhile]

theorem tokens_rewind (tape : Tape) : tape.rewind.tokens = tape.tokens := by
  simp [rewind, tokens]

/-- What the head passes when it moves on stands behind it then. -/
theorem row_moveTo (tape : Tape) {rest : List Token} (h : rest <:+ tape.ahead) :
    (tape.moveTo rest).behind.reverse ++ (tape.moveTo rest).ahead =
      tape.behind.reverse ++ tape.ahead := by
  obtain ⟨passed, hpassed⟩ := h
  have htake : tape.ahead.take (tape.ahead.length - rest.length) = passed := by
    rw [← hpassed, List.length_append, Nat.add_sub_cancel, List.take_left]
  simp only [moveTo, htake, List.reverse_append, List.reverse_reverse, List.append_assoc, hpassed]

/-- Moving the head leaves the tokens as they are. -/
theorem tokens_moveTo (tape : Tape) {rest : List Token} (h : rest <:+ tape.ahead) :
    (tape.moveTo rest).tokens = tape.tokens := by
  rw [tokens, row_moveTo tape h]
  rfl

end Tape

end Assay
