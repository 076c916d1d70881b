-- What a program is read from: of any list of tokens, those that are no
-- trivia and stand before the first end mark, and that end mark itself.
import Assay.Parser

namespace Assay

/-! ## The tokens of a program -/

/-- The tokens that are read as a program: of the tokens kept, those before the first end
mark. -/
def programTokens (tokens : List Token) : List Token :=
  (keptTokens tokens).takeWhile (fun token => token.kind ≠ .endMark)

/-- The end mark of the program: the first one among the tokens kept. -/
def programEnd (tokens : List Token) : Token :=
  (Tape.ofTokens tokens).stop

theorem derive_eq (tokens : List Token) :
    derive tokens = readProgram (programEnd tokens) (programTokens tokens) := rfl

theorem kind_of_mem_programTokens {tokens : List Token} {token : Token}
    (h : token ∈ programTokens tokens) : token.kind ≠ .endMark := by
  have hall := List.all_takeWhile (p := fun token : Token => token.kind ≠ .endMark)
    (l := keptTokens tokens)
  simpa using List.all_eq_true.mp hall token h

/-- The tokens kept are those of the program, its end mark, and whatever stands beyond. -/
theorem keptTokens_eq (tokens : List Token) :
    keptTokens tokens =
      programTokens tokens ++ programEnd tokens :: (Tape.ofTokens tokens).beyond := by
  have h := Tape.tokens_ofTokens tokens
  rw [← h]
  rfl

theorem programEnd_kind (tokens : List Token) : (programEnd tokens).kind = .endMark := by
  obtain ⟨mark, hmem, hkind⟩ := Tape.exists_endMark_mem_keptTokens tokens
  have hrest : (keptTokens tokens).dropWhile (fun token => token.kind ≠ .endMark) ≠ [] :=
    Tape.dropWhile_ne_nil_of_mem hmem (by simp [hkind])
  have hhead := List.head_dropWhile_not (fun token : Token => token.kind ≠ .endMark)
    (l := keptTokens tokens) hrest
  obtain ⟨first, beyond, hsplit⟩ := List.exists_cons_of_ne_nil hrest
  have hend : programEnd tokens = first := by
    unfold programEnd Tape.ofTokens
    simp only [hsplit, List.headD_cons]
  simp only [hsplit, List.head_cons] at hhead
  rw [hend]
  simpa using hhead

/-- The only token kept that may be added is an end mark. -/
theorem mem_of_mem_keptTokens {tokens : List Token} {token : Token} (h : token ∈ keptTokens tokens)
    (hkind : token.kind ≠ .endMark) : token ∈ tokens := by
  rcases List.mem_append.mp h with hkept | hadded
  · exact (List.mem_filter.mp hkept).1
  · unfold missingEnd at hadded
    split at hadded
    · rw [List.mem_singleton.mp hadded] at hkind
      exact absurd rfl hkind
    · split at hadded
      · cases hadded
      · rw [List.mem_singleton.mp hadded] at hkind
        exact absurd rfl hkind

/-- The statements of the tree, none if there is no tree. -/
def Derivation.children (d : Derivation) : List Node :=
  (d.tree?.map Node.children).getD []

theorem Derivation.children_eq (d : Derivation) : d.children = d.statements := by
  unfold children tree?
  cases h : d.statements with
  | nil => rfl
  | cons statement rest => rfl

/-! ## Streams that end with a mark -/

/-- A stream whose end mark stands last keeps everything before it but the trivia. -/
theorem keptTokens_append_mark (tokens : List Token) (mark : Token) (h : mark.kind = .endMark) :
    keptTokens (tokens ++ [mark]) = tokens.filter (fun token => !token.kind.isTrivia) ++ [mark] := by
  have hmark : [mark].filter (fun token => !token.kind.isTrivia) = [mark] := by
    simp [h, TokenKind.isTrivia]
  unfold keptTokens
  simp only [List.filter_append, hmark]
  unfold missingEnd
  simp [h]

section Marked

variable {tokens : List Token} {mark : Token} (hmark : mark.kind = .endMark)
  (hnone : ∀ token ∈ tokens, token.kind ≠ .endMark)

include hmark hnone

theorem programTokens_append_mark :
    programTokens (tokens ++ [mark]) = tokens.filter (fun token => !token.kind.isTrivia) := by
  unfold programTokens
  rw [keptTokens_append_mark tokens mark hmark, List.takeWhile_append_of_pos]
  · simp [hmark]
  · intro token hmem
    simpa using hnone token ((List.mem_filter.mp hmem).1)

theorem programEnd_append_mark : programEnd (tokens ++ [mark]) = mark := by
  have h := keptTokens_eq (tokens ++ [mark])
  rw [keptTokens_append_mark tokens mark hmark, programTokens_append_mark hmark hnone] at h
  have htail := List.append_cancel_left h
  exact (List.cons.inj htail).1.symm

end Marked

end Assay
