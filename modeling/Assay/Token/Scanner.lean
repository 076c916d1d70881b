-- A scanner that stops between tokens: several runs share one place in the
-- text, each goes on from wherever the place is, and a run's first step
-- takes the place back to the start.
import Assay.Token.Scan

namespace Assay

/-! ## Scanners -/

/-- A text, what is left of it, how many characters were read, the place they end at, and the
error tokens among them. -/
structure Scanner where
  source : String
  rest : List Char
  offset : Nat
  position : Position
  errors : List Token

namespace Scanner

def ofSource (source : String) : Scanner :=
  ⟨source, source.toList, 0, .start, []⟩

def rewind (scanner : Scanner) : Scanner :=
  ofSource scanner.source

/-- The next token and the scanner past it, if there is text left. -/
def next? (scanner : Scanner) : Option (Token × Scanner) :=
  match scanner.rest with
  | [] => none
  | c :: rest =>
    let lexeme := Lexeme.first c rest
    let token := lexeme.toToken scanner.position
    some (token,
      { scanner with
        rest := rest.drop (lexeme.text.length - 1)
        offset := scanner.offset + lexeme.text.length
        position := scanner.position.past lexeme.text
        errors := if token.kind = .error then scanner.errors ++ [token] else scanner.errors })

theorem rest_of_next? {scanner next : Scanner} {token : Token}
    (h : scanner.next? = some (token, next)) : next.rest.length < scanner.rest.length := by
  unfold next? at h
  split at h
  · cases h
  · rename_i c rest hrest
    cases h
    rw [hrest, List.length_cons, List.length_drop]
    omega

/-- All tokens from where the scanner is, read one by one, and the scanner after the last. -/
def drain (scanner : Scanner) : List Token × Scanner :=
  match _h : scanner.next? with
  | none => ([], scanner)
  | some (token, next) =>
    let later := next.drain
    (token :: later.1, later.2)
  termination_by scanner.rest.length
  decreasing_by exact rest_of_next? _h

/-- All tokens of the text, read anew from its start, blanks left out and the end mark put where
the scanner comes to a stop; the errors are those that it has met. -/
def tokenize (scanner : Scanner) : TokenStream × Scanner :=
  let (all, last) := scanner.rewind.drain
  ({ tokens := all.filter (fun token => token.kind ≠ .whitespace) ++ [.endMark last.position]
     errors := last.errors },
   last)

end Scanner

/-! ## Runs -/

inductive ScanRun where
  | fresh
  | started
  | ended
  deriving DecidableEq, Repr

/-- A scanner and the runs on it, in the order in which they were opened. -/
structure ScanSession where
  scanner : Scanner
  runs : List ScanRun

namespace ScanSession

/-- The session at the start of a text, without runs. -/
def ofSource (source : String) : ScanSession :=
  ⟨.ofSource source, []⟩

/-- Opens a run and gives its number. The scanner stays where it is. -/
def openRun (session : ScanSession) : Nat × ScanSession :=
  (session.runs.length, { session with runs := session.runs ++ [.fresh] })

/-- One step of a run from where the scanner is. -/
def stepFrom (session : ScanSession) (scanner : Scanner) (number : Nat) :
    Option Token × ScanSession :=
  match scanner.next? with
  | some (token, scanner) => (some token, ⟨scanner, session.runs.set number .started⟩)
  | none => (none, ⟨scanner, session.runs.set number .ended⟩)

/-- The next token of a run. A fresh run starts at the front of the text, a started one where the
scanner is, and one that has ended gives nothing more. -/
def next (session : ScanSession) (number : Nat) : Option Token × ScanSession :=
  match session.runs[number]? with
  | some .fresh => session.stepFrom session.scanner.rewind number
  | some .started => session.stepFrom session.scanner number
  | _ => (none, session)

/-- All tokens of the text. Runs are left as they are. -/
def tokenize (session : ScanSession) : TokenStream × ScanSession :=
  let (stream, scanner) := session.scanner.tokenize
  (stream, { session with scanner := scanner })

end ScanSession

end Assay
