-- Programs: statements one after the other, line breaks passed over, and a
-- recovery after each failure, so that all tokens are read in any case.
import Assay.Reading.Recovery
import Assay.Reading.Statement

namespace Assay

/-- What reading all tokens gives: the statements, the findings and the recoveries, each in the
order of the tokens. -/
structure Derivation where
  statements : List Node
  reports : List Diagnostic
  recoveries : List Recovery

namespace Derivation

/-- The tree of the program, if there is any statement. -/
def tree? (d : Derivation) : Option Node :=
  if d.statements.isEmpty then none else some (Node.program d.statements)

def empty : Derivation := ⟨[], [], []⟩

/-- What comes of one part, and of the part after it. -/
def append (a b : Derivation) : Derivation :=
  ⟨a.statements ++ b.statements, a.reports ++ b.reports, a.recoveries ++ b.recoveries⟩

instance : Append Derivation := ⟨append⟩

end Derivation

/-- Reads all tokens before the end mark `stop`. -/
def readProgram (stop : Token) (ahead : List Token) : Derivation :=
  match ahead with
  | [] => .empty
  | token :: rest =>
    if token.kind = .newline then readProgram stop rest
    else
      let reading := readStatement stop (token :: rest)
      match _outcome : reading.result with
      | .ok statement =>
        ⟨statement.toList, reading.reports, []⟩ ++ readProgram stop reading.rest
      | .error _ =>
        ⟨[], reading.reports, [.of stop reading.rest]⟩ ++ readProgram stop (recover reading.rest)
  termination_by ahead.length
  decreasing_by
    · simp
    · exact readStatement_rest_length_lt stop token rest statement _outcome
    · have hle := (readStatement_rest_suffix stop (token :: rest)).length_le
      have hrec := (recover_suffix_tail (readStatement stop (token :: rest)).rest).length_le
      rw [List.length_tail] at hrec
      simp only [List.length_cons] at hle ⊢
      omega

/-! ## Each step of a program -/

theorem readProgram_nil (stop : Token) : readProgram stop [] = .empty := by
  rw [readProgram]

theorem readProgram_newline (stop token : Token) (rest : List Token) (h : token.kind = .newline) :
    readProgram stop (token :: rest) = readProgram stop rest := by
  rw [readProgram, if_pos h]

theorem readProgram_ok (stop token : Token) (rest : List Token) (statement : Option Node)
    (hkind : token.kind ≠ .newline)
    (h : (readStatement stop (token :: rest)).result = .ok statement) :
    readProgram stop (token :: rest) =
      ⟨statement.toList, (readStatement stop (token :: rest)).reports, []⟩
        ++ readProgram stop (readStatement stop (token :: rest)).rest := by
  rw [readProgram, if_neg hkind]
  simp only
  split
  · rename_i other hother
    rw [h] at hother
    cases hother
    rfl
  · rename_i d hfail
    rw [h] at hfail
    cases hfail

theorem readProgram_error (stop token : Token) (rest : List Token) (d : Diagnostic)
    (hkind : token.kind ≠ .newline)
    (h : (readStatement stop (token :: rest)).result = .error d) :
    readProgram stop (token :: rest) =
      ⟨[], (readStatement stop (token :: rest)).reports,
        [.of stop (readStatement stop (token :: rest)).rest]⟩
        ++ readProgram stop (recover (readStatement stop (token :: rest)).rest) := by
  rw [readProgram, if_neg hkind]
  simp only
  split
  · rename_i other hother
    rw [h] at hother
    cases hother
  · rfl

end Assay
