-- The command line: what the arguments ask for, and what is printed for it.
import Assay.Json.Printer
import Assay.Node.Outline
import Assay.Path
import Assay.Service
import Assay.Text.Utf8

namespace Assay

/-! ## Commands -/

inductive Report where
  | tokens
  | tree
  | analysis
  deriving DecidableEq, Repr

inductive Source where
  | standardInput
  | file (path : Path)
  deriving DecidableEq, Repr

/-- What the arguments ask for. -/
inductive Command where
  | nothing
  | help
  | version
  | health
  | unknown (word : String)
  /-- A report on a file that is not named. -/
  | incomplete (word : String)
  | report (about : Report) (source : Source)
  deriving DecidableEq, Repr

def Report.ofWord? : String → Option Report
  | "tokenize" => some .tokens
  | "parse" => some .tree
  | "analyze" => some .analysis
  | _ => none

/-- The source that an argument names: a hyphen is standard input. -/
def Source.ofArgument (argument : String) : Source :=
  if argument = "-" then .standardInput else .file (.ofString argument)

/-- The flags that ask for all details in the log. They may stand anywhere. -/
def verboseFlags : List String := ["-v", "--verbose"]

/-- The arguments without a flag. As long as it stands among them, it is taken out where it stands
first. -/
def takeOut (flag : String) (arguments : List String) : List String :=
  if flag ∈ arguments then takeOut flag (arguments.erase flag) else arguments
  termination_by arguments.length
  decreasing_by
    rename_i hmem
    have hpos := List.length_pos_of_mem hmem
    rw [List.length_erase_of_mem hmem]
    omega

/-- The arguments without all flags for the log, taken out one flag after the other. -/
def withoutFlags (arguments : List String) : List String :=
  verboseFlags.foldl (fun rest flag => takeOut flag rest) arguments

/-- The command that the arguments ask for, flags apart. -/
def Command.ofArguments (arguments : List String) : Command :=
  match withoutFlags arguments with
  | [] => .nothing
  | word :: rest =>
    if word = "--help" ∨ word = "-h" then .help
    else if word = "--version" then .version
    else if word = "health" then .health
    else
      match Report.ofWord? word, rest with
      | none, _ => .unknown word
      | some _, [] => .incomplete word
      | some about, argument :: _ => .report about (.ofArgument argument)

/-! ## Surroundings and output -/

/-- What the program is started with: arguments, the level set for the log, the bytes of standard
input, the files, and the time. -/
structure Invocation where
  arguments : List String
  logSetting : Option String
  input : List UInt8
  files : Path → Except PathFault Entry
  clock : String

/-- What the program leaves: exit code and the texts printed. -/
structure Output where
  exit : Nat
  stdout : String
  stderr : String
  deriving DecidableEq, Repr

def unlines (lines : List String) : String :=
  String.join (lines.map (· ++ "\n"))

def usage : String :=
  "pyfront CLI entry point.\n\nUsage:\n    pyfront tokenize <file>     Display the token stream\n    pyfront parse <file>        Display the syntax tree and diagnostics\n    pyfront analyze <file>      Print the JSON analysis envelope\n    pyfront health              Print the JSON health metadata\n\nPass - as <file> to read from stdin. Add -v/--verbose for debug logging,\nor set PYFRONT_LOG_LEVEL."

/-! ## Reading the source -/

/-- Why a file gives no text. -/
inductive SourceFault where
  | notFound (path : Path)
  | isDirectory (path : Path)
  | notText (path : Path) (fault : Utf8.Fault)
  deriving DecidableEq, Repr

/-- A fault of bytes in words: the bytes, where they are, and why they make no character. -/
def Utf8.Fault.message (fault : Utf8.Fault) : String :=
  let place :=
    if fault.size = 1 then
      s!"byte 0x{String.ofList (hexDigits 2 fault.byte.toNat)} in position {fault.start}"
    else s!"bytes in position {fault.start}-{fault.start + fault.size - 1}"
  let reason :=
    match fault.reason with
    | .badStart => "invalid start byte"
    | .badContinuation => "invalid continuation byte"
    | .endOfData => "unexpected end of data"
  s!"'utf-8' codec can't decode {place}: {reason}"

def SourceFault.message : SourceFault → String
  | notFound path => s!"file not found: {path.render}"
  | isDirectory path =>
    s!"cannot read {path.render}: [Errno 21] Is a directory: {quoted path.render}"
  | notText path fault => s!"cannot read {path.render}: {fault.message}"

/-- The text of a file, if it has one. -/
def Entry.text (path : Path) : Entry → Except SourceFault String
  | missing => .error (.notFound path)
  | directory => .error (.isDirectory path)
  | file bytes => (textOfBytes bytes).mapError (.notText path)

/-- The record of a file that is about to be read: none if there is no such file. -/
def Entry.log (path : Path) : Entry → List LogRecord
  | missing => []
  | _ => [.reading path.render]

/-! ## Breakdowns -/

/-- Why a run ends without any output. -/
inductive Breakdown where
  | inputNotText (fault : Utf8.Fault)
  /-- The file cannot be looked up, since its name is too long. -/
  | nameTooLong (path : Path)
  deriving DecidableEq, Repr

def Breakdown.message : Breakdown → String
  | inputNotText fault => fault.message
  | nameTooLong path => s!"[Errno 36] File name too long: {quoted path.render}"

/-- The breakdown that a fault of a path leads to. -/
def PathFault.breakdown (path : Path) : PathFault → Breakdown
  | nameTooLong => .nameTooLong path

/-! ## Reports -/

/-- The lines about the findings of one stage: none if there are none, else an empty line, their
number, and two lines for each. -/
def findingLines (stage : String) (findings : List Diagnostic) : List String :=
  if findings.isEmpty then []
  else
    ["", s!"{findings.length} {stage} error(s):"]
      ++ findings.flatMap (fun d => [s!"  {d.render}", s!"    hint: {d.problem.suggestion}"])

def Report.lines (report : Report) (source : String) : List String :=
  match report with
  | .tokens =>
    let stream := tokenize source
    stream.tokens.map Token.render
      ++ findingLines "lexical" (stream.errors.map Diagnostic.ofErrorToken)
  | .tree =>
    let analysis := analyze source
    ((analysis.tree.map (fun tree => tree.outlineLines 0)).getD ["(no statements)"])
      ++ findingLines "lexical" analysis.lexicalErrors
      ++ findingLines "syntax" analysis.syntaxErrors
  | .analysis => [(analyze source).toJson.render 0]

/-- The records made for a report on a text. -/
def Report.log (report : Report) (source : String) : List LogRecord :=
  match report with
  | .tokens => [(tokenize source).record source]
  | _ => (analyze source).log

/-- Whether the report on a text tells of errors. The report on tokens knows lexical ones only. -/
def Report.failed (report : Report) (source : String) : Bool :=
  match report with
  | .tokens => !(tokenize source).errors.isEmpty
  | _ => (analyze source).hasErrors

/-! ## Running -/

/-- The lines of the records from a level on. -/
def logLines (level : Nat) (log : List LogRecord) : List String :=
  (log.filter (fun record => level ≤ record.level)).map LogRecord.render

/-- The output of a report on a text, where `before` was logged already. -/
def Report.output (report : Report) (level : Nat) (before : List LogRecord) (source : String) :
    Output :=
  { exit := if report.failed source then 1 else 0
    stdout := unlines (report.lines source)
    stderr := unlines (logLines level (before ++ report.log source)) }

def errorLine (message : String) : String := s!"Error: {message}"

/-- The output of a report on what stands under a path. -/
def Report.outputOfEntry (report : Report) (level : Nat) (path : Path) (entry : Entry) : Output :=
  match entry.text path with
  | .error fault =>
    ⟨1, "", unlines (logLines level (entry.log path) ++ [errorLine fault.message])⟩
  | .ok source => report.output level (entry.log path) source

/-- Runs the program. Standard input that is no text, and a name that no file can have, end it
without any output; a file that is missing or no text is told of. -/
def run (invocation : Invocation) : Except Breakdown Output :=
  let verbose := invocation.arguments.any (· ∈ verboseFlags)
  let level := logLevel verbose invocation.logSetting
  match Command.ofArguments invocation.arguments with
  | .nothing => .ok ⟨1, unlines [usage], ""⟩
  | .help => .ok ⟨0, unlines [usage], ""⟩
  | .version => .ok ⟨0, unlines [s!"pyfront {version}"], ""⟩
  | .health => .ok ⟨0, unlines [(health invocation.clock).render 0], ""⟩
  | .unknown word =>
    .ok ⟨1, unlines [usage], unlines [errorLine s!"unknown command '{word}'"]⟩
  | .incomplete word =>
    .ok ⟨1, "", unlines [errorLine s!"command '{word}' requires a file argument"]⟩
  | .report about .standardInput =>
    (textOfBytes invocation.input).mapError .inputNotText |>.map (about.output level [])
  | .report about (.file path) =>
    (invocation.files path).mapError (PathFault.breakdown path)
      |>.map (about.outputOfEntry level path)

end Assay
