-- The program: it looks at its surroundings, runs the command line on what
-- it finds, and prints the outcome.
import Assay.Clock
import Assay.CommandLine

namespace Assay

/-- All bytes that are left on a stream. -/
partial def readToEnd (stream : IO.FS.Stream) (bytes : ByteArray) : IO ByteArray := do
  let more ← stream.read 65536
  if more.isEmpty then return bytes
  readToEnd stream (bytes ++ more)

/-- What stands under a path on disk. -/
def lookUp (path : Path) : IO (Except PathFault Entry) := do
  try
    let bytes ← IO.FS.readBinFile path.render
    return .ok (.file bytes.toList)
  catch
    | .noFileOrDirectory _ _ _ => return .ok .missing
    | .inappropriateType _ code _ => return .ok (if code = 21 then .directory else .missing)
    | .invalidArgument _ code _ =>
      -- A name with a zero character is refused with 22; other numbers say "too long".
      return if code = 22 then .ok .missing else .error .nameTooLong
    | error => throw error

/-- What the program is started with. Standard input and files are looked at only if the
arguments ask for them. -/
def surroundings (arguments : List String) : IO Invocation := do
  let logSetting ← IO.getEnv "PYFRONT_LOG_LEVEL"
  let clock := renderInstant (← Std.Time.Timestamp.now)
  let invocation : Invocation :=
    { arguments, logSetting, input := [], files := fun _ => .ok .missing, clock }
  match Command.ofArguments arguments with
  | .report _ .standardInput =>
    let bytes ← readToEnd (← IO.getStdin) .empty
    return { invocation with input := bytes.toList }
  | .report _ (.file path) =>
    let found ← lookUp path
    return { invocation with files := fun _ => found }
  | _ => return invocation

end Assay

def main (arguments : List String) : IO UInt32 := do
  match Assay.run (← Assay.surroundings arguments) with
  | .error breakdown =>
    IO.eprintln breakdown.message
    return 1
  | .ok output =>
    IO.print output.stdout
    IO.eprint output.stderr
    return output.exit.toUInt32
