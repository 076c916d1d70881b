-- The analysis of a text: its tokens, its tree and the findings of both
-- stages, kept apart.
import Assay.Log
import Assay.Parser
import Assay.Token.Scan

namespace Assay

/-- What is found out about a text, and the records made on the way. -/
structure Analysis where
  tokens : List Token
  tree : Option Node
  lexicalErrors : List Diagnostic
  syntaxErrors : List Diagnostic
  log : List LogRecord

/-- The record of a text that was read into tokens. -/
def TokenStream.record (source : String) (stream : TokenStream) : LogRecord :=
  .tokenized source.length stream.tokens.length stream.errors.length

/-- The records of a derivation: its recoveries, and its outcome. -/
def Derivation.log (derivation : Derivation) : List LogRecord :=
  derivation.recoveries.map (fun recovery => .recovered recovery.start recovery.resumed)
    ++ [.parsed derivation.statements.length derivation.reports.length]

def analyze (source : String) : Analysis :=
  let stream := tokenize source
  let derivation := derive stream.tokens
  { tokens := stream.tokens
    tree := derivation.tree?
    lexicalErrors := stream.errors.map Diagnostic.ofErrorToken
    syntaxErrors := derivation.reports
    log := stream.record source :: derivation.log }

namespace Analysis

def totalErrors (analysis : Analysis) : Nat :=
  analysis.lexicalErrors.length + analysis.syntaxErrors.length

def hasErrors (analysis : Analysis) : Bool :=
  0 < analysis.totalErrors

end Analysis

end Assay
