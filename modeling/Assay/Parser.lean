-- A parser with a memory: a tape and the findings so far. Each step reads
-- from the head of the tape on, and adds what it reports.
import Assay.Reading.Program
import Assay.Tape

namespace Assay

/-- What the tokens say when they are read as a program. -/
def derive (tokens : List Token) : Derivation :=
  let tape := Tape.ofTokens tokens
  readProgram tape.stop tape.ahead

/-- A tape and the findings so far, oldest first. -/
structure Parser where
  tape : Tape
  reports : List Diagnostic

namespace Parser

variable {α : Type}

def ofTokens (tokens : List Token) : Parser :=
  ⟨.ofTokens tokens, []⟩

/-- One attempt to read from the head on. -/
def attempt (read : Token → List Token → Reading α) (parser : Parser) :
    Except Diagnostic α × Parser :=
  let reading := read parser.tape.stop parser.tape.ahead
  (reading.result, ⟨parser.tape.moveTo reading.rest, parser.reports ++ reading.reports⟩)

/-- Reads everything from the start, and forgets earlier findings. -/
def program (parser : Parser) : Derivation × Parser :=
  let tape := parser.tape.rewind
  let derivation := readProgram tape.stop tape.ahead
  (derivation, ⟨tape.moveTo [], derivation.reports⟩)

def statement : Parser → Except Diagnostic (Option Node) × Parser :=
  attempt readStatement

/-- Reads an assignment, whatever the current token is. -/
def assignment : Parser → Except Diagnostic Node × Parser :=
  attempt readAssignment

/-- Reads a value that stands alone. -/
def expression : Parser → Except Diagnostic Node × Parser :=
  attempt readExpression

def value (judged : Bool) : Parser → Except Diagnostic Node × Parser :=
  attempt (readValue judged)

/-- Moves to where reading can start anew after a failure. -/
def recover (parser : Parser) : Recovery × Parser :=
  (.of parser.tape.stop parser.tape.ahead,
   { parser with tape := parser.tape.moveTo (Assay.recover parser.tape.ahead) })

def skipNewlines (parser : Parser) : Parser :=
  { parser with
    tape := parser.tape.moveTo (parser.tape.ahead.dropWhile (fun token => token.kind = .newline)) }

/-- Moves past the current token, unless it is the end mark, and gives it. -/
def advance (parser : Parser) : Token × Parser :=
  (parser.tape.current, { parser with tape := parser.tape.moveTo parser.tape.ahead.tail })

end Parser

end Assay
