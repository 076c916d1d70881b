-- Answers to requests: a payload becomes a status and a body. What is
-- missing or no text is refused, and an analysis that breaks off is told
-- apart from one that finds errors.
import Assay.Response

namespace Assay

/-! ## Requests -/

/-- The field of a payload that holds the text. -/
def sourceField : String := "sourceCode"

/-- Why a payload is refused. -/
inductive Refusal where
  /-- There is no text, or an empty one. -/
  | missing
  /-- There is something that is no text. -/
  | notText
  deriving DecidableEq, Repr

def Refusal.message : Refusal → String
  | missing => s!"The {sourceField} field is required"
  | notText => s!"The {sourceField} field must be a string"

def requestedSource (payload : Json) : Except Refusal String :=
  match payload.field? sourceField with
  | none => .error .missing
  | some .null => .error .missing
  | some (.string source) => if source = "" then .error .missing else .ok source
  | some _ => .error .notText

/-! ## Replies -/

/-- The answer to a request, and the records made on the way. -/
structure Reply where
  status : Nat
  body : Json
  log : List LogRecord

/-- Answers a payload by the given analysis, which may break off with a message. -/
def handleRequestBy (analysisOf : String → Except String Analysis) (payload : Json) : Reply :=
  match requestedSource payload with
  | .error refusal => ⟨400, .object [("error", .string refusal.message)], []⟩
  | .ok source =>
    match analysisOf source with
    | .error message =>
      ⟨500, .object [("error", .string "Internal server error"), ("message", .string message)],
       [.analysisFailed]⟩
    | .ok analysis =>
      ⟨200, analysis.toJson,
       analysis.log ++ [.analyzed source.length analysis.tokens.length analysis.totalErrors]⟩

def handleRequest (payload : Json) : Reply :=
  handleRequestBy (fun source => .ok (analyze source)) payload

/-! ## Health -/

def version : String := "0.1.0"

/-- What the program says about itself at the time that the clock shows. -/
def health (clock : String) : Json :=
  .object
    [("status", .string "OK"),
     ("message", .string "Python analyzer backend is running"),
     ("language", .string language),
     ("version", .string version),
     ("timestamp", .string clock)]

end Assay
