-- Readings: what one attempt to derive a statement or a value gives, what it
-- reports on the way, and the tokens that it leaves.
import Assay.Diagnostic
import Assay.Node.Basic

namespace Assay

/-- The outcome of one attempt: a result, or the finding it failed with; all findings in their
order, that one included; and the tokens left before the end mark. -/
structure Reading (α : Type) where
  result : Except Diagnostic α
  reports : List Diagnostic
  rest : List Token

namespace Reading

variable {α β : Type}

def done (value : α) (rest : List Token) : Reading α :=
  ⟨.ok value, [], rest⟩

/-- A failure on a token. -/
def fail (fault : SyntaxFault) (token : Token) (rest : List Token) : Reading α :=
  ⟨.error (fault.about token), [fault.about token], rest⟩

/-- The reading with its result changed. -/
def map (f : α → β) (reading : Reading α) : Reading β :=
  ⟨reading.result.map f, reading.reports, reading.rest⟩

/-- The reading with some findings before its own. -/
def after (reports : List Diagnostic) (reading : Reading α) : Reading α :=
  ⟨reading.result, reports ++ reading.reports, reading.rest⟩

end Reading

end Assay
