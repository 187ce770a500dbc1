import TeachAsm.Command.Response
/-!
# The command

Reads the file that the arguments name and runs its program. The session is
carried on in pieces, and what each piece adds to the output and to the log is
written before the next one starts, so that the trace of a program that never
stops can be followed.
-/

namespace TeachAsm

namespace Command

/-- The number of rounds in a piece of a run. -/
def pace : Nat := 1024

/-- What is shown of the log, by the name of a level in the environment. -/
def verbosity : IO Verbosity := do
  let name ← IO.getEnv "AQA_ASM_LOG"
  return (name.bind Verbosity.ofName?).getD .standard

/-- What the file at a path holds, if it can be read. -/
def contents (path : Text) : IO (Option ByteArray) := do
  try
    return some (← IO.FS.readBinFile (String.ofList path))
  catch _ =>
    return none

/-- Writes the events that are to be shown. -/
def writeLog (verbosity : Verbosity) (events : List Event) : IO Unit :=
  (events.filter verbosity.shows).forM fun event => IO.eprintln event.text

/-- Writes what a session has added to the output and to the log. -/
def writeSession (verbosity : Verbosity) (s : Session Sink) : IO Unit := do
  let output ← IO.getStdout
  output.write s.trace.bytes
  output.flush
  writeLog verbosity s.log.toList

/-- Ends with the exit code of a response, after telling of its failure. -/
def finish (failure : Option Failure) : IO UInt32 := do
  if let some failure := failure then
    IO.eprintln ("Error: " ++ failure.context ++ "\n\nCaused by:\n    " ++ failure.cause)
  return (Response.ran .empty #[] failure).exitCode.toUInt32

/-- Carries a session on to its end, piece by piece. -/
partial def carryOn (verbosity : Verbosity) (invocation : Invocation) (program : Program)
    (s : Session Sink) : IO UInt32 := do
  let (s, result) := s.runFor program invocation.limit invocation.tracer pace
  writeSession verbosity s
  match result with
  | none => carryOn verbosity invocation program { s with trace := {}, log := #[] }
  | some result =>
    let (events, failure) := invocation.conclude s.execution result
    writeLog verbosity events
    finish failure

/-- Loads and runs the program of an invocation. -/
def run (verbosity : Verbosity) (invocation : Invocation) : IO UInt32 := do
  let loaded := Program.ofFile invocation.path (← contents invocation.path)
  match loaded.result with
  | .error fault =>
    writeLog verbosity loaded.events
    finish (some (.load invocation.path fault))
  | .ok program =>
    carryOn verbosity invocation program (.start program {} loaded.events.toArray)

/-- Answers arguments, and gives the exit code. -/
def answer (arguments : List String) : IO UInt32 := do
  match Request.ofArguments (arguments.map String.toList) with
  | none =>
    IO.eprint helpText
    return Response.misuse.exitCode.toUInt32
  | some .version =>
    IO.print versionText
    return (Response.information versionText).exitCode.toUInt32
  | some .help =>
    IO.print helpText
    return (Response.information helpText).exitCode.toUInt32
  | some (.run invocation) => run (← verbosity) invocation

end Command

end TeachAsm

/-- The command line: arguments in, exit code out. -/
def main (arguments : List String) : IO UInt32 :=
  TeachAsm.Command.answer arguments
