-- Recovery: after a failure, tokens are passed until reading can start anew,
-- at the latest where the next line begins.
import Assay.Token.Basic

namespace Assay

/-- The tokens from the first safe place on: a literal or name, or whatever follows a line
break. `before` is the token just passed. -/
def safeFrom (before : Token) : List Token → List Token
  | [] => []
  | token :: rest =>
    if before.kind = .newline ∨ token.kind.isLiteral then token :: rest else safeFrom token rest

/-- The tokens left after a failure: the current token is always passed. -/
def recover : List Token → List Token
  | [] => []
  | token :: rest => safeFrom token rest

/-- The places of the token where a recovery starts and of the token where it ends. -/
structure Recovery where
  start : Position
  resumed : Position
  deriving DecidableEq, Repr

/-- The record of the recovery before the given tokens and the end mark. -/
def Recovery.of (stop : Token) (ahead : List Token) : Recovery :=
  ⟨(ahead.headD stop).position, ((recover ahead).headD stop).position⟩

/-! ## What recovery leaves -/

theorem safeFrom_suffix (before : Token) (tokens : List Token) :
    safeFrom before tokens <:+ tokens := by
  induction tokens generalizing before with
  | nil => exact List.suffix_rfl
  | cons token rest ih =>
    unfold safeFrom
    split
    · exact List.suffix_rfl
    · exact (ih token).trans (List.suffix_cons token rest)

/-- Recovery passes at least one token, if there is one. -/
theorem recover_suffix_tail (tokens : List Token) : recover tokens <:+ tokens.tail := by
  cases tokens with
  | nil => exact List.suffix_rfl
  | cons token rest => exact safeFrom_suffix token rest

theorem recover_suffix (tokens : List Token) : recover tokens <:+ tokens :=
  (recover_suffix_tail tokens).trans (List.tail_suffix tokens)

end Assay
