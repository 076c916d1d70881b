-- The log: what is worth a record, at which level, and how a record reads.
import Assay.Position

namespace Assay

/-! ## Records -/

/-- Something worth a record. -/
inductive LogRecord where
  /-- A file is about to be read. -/
  | reading (path : String)
  /-- A text of so many characters was read into so many tokens, so many of them faulty. -/
  | tokenized (characters tokens errors : Nat)
  /-- The parser passed over tokens after a failure. -/
  | recovered (start resumed : Position)
  /-- The tokens gave so many statements, with so many findings. -/
  | parsed (statements errors : Nat)
  /-- A text of so many characters was analysed, with so many tokens and findings. -/
  | analyzed (characters tokens errors : Nat)
  /-- An analysis broke off. -/
  | analysisFailed
  deriving DecidableEq, Repr

namespace LogRecord

/-- The weight of a record: ten for a detail, forty for a failure. -/
def level : LogRecord → Nat
  | analysisFailed => 40
  | _ => 10

/-- The name of the level. -/
def levelName (record : LogRecord) : String :=
  if record.level = 40 then "ERROR" else "DEBUG"

/-- The part of the program that makes the record. -/
def source : LogRecord → String
  | reading _ => "pyfront.cli"
  | tokenized _ _ _ => "pyfront.lexer.lexer"
  | recovered _ _ => "pyfront.parser.parser"
  | parsed _ _ => "pyfront.parser.parser"
  | analyzed _ _ _ => "pyfront.service"
  | analysisFailed => "pyfront.service"

/-- The record in words. -/
def message : LogRecord → String
  | reading path => s!"reading {path}"
  | tokenized characters tokens errors =>
    s!"tokenized {characters} characters into {tokens} tokens ({errors} lexical errors)"
  | recovered start resumed => s!"recovered from {start.render}, resuming at {resumed.render}"
  | parsed statements errors => s!"parsed {statements} statement(s) with {errors} syntax error(s)"
  | analyzed characters tokens errors =>
    s!"analyzed {characters} characters: {tokens} tokens, {errors} error(s)"
  | analysisFailed => "analysis failed"

/-- The line of a record. -/
def render (record : LogRecord) : String :=
  s!"{record.levelName} {record.source}: {record.message}"

end LogRecord

/-! ## Levels -/

/-- The capital form of a character, as far as it consists of ASCII letters: those of a to z, of
the dotless i and the long s, and of the characters that stand for two or three letters. Every
other character is left as it is. -/
def capital (c : Char) : List Char :=
  if c = 'ı' then ['I']
  else if c = 'ſ' then ['S']
  else if c = 'ß' then ['S', 'S']
  else if c = 'ﬀ' then ['F', 'F']
  else if c = 'ﬁ' then ['F', 'I']
  else if c = 'ﬂ' then ['F', 'L']
  else if c = 'ﬃ' then ['F', 'F', 'I']
  else if c = 'ﬄ' then ['F', 'F', 'L']
  else if c = 'ﬅ' then ['S', 'T']
  else if c = 'ﬆ' then ['S', 'T']
  else [c.toUpper]

/-- The levels that can be set by name. -/
def levelNames : List (String × Nat) :=
  [("NOTSET", 0), ("DEBUG", 10), ("INFO", 20), ("WARN", 30), ("WARNING", 30), ("ERROR", 40),
   ("CRITICAL", 50), ("FATAL", 50)]

/-- The level that a name sets, in capitals or not. A name that is none sets that of warnings. -/
def levelOfName (name : String) : Nat :=
  (levelNames.lookup (String.ofList (name.toList.flatMap capital))).getD 30

/-- The level from which on records are shown: details if they are asked for, else what the
setting says, else warnings. -/
def logLevel (verbose : Bool) (setting : Option String) : Nat :=
  if verbose then 10 else (setting.map levelOfName).getD 30

end Assay
