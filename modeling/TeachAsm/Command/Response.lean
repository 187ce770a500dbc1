import TeachAsm.Command.Request
import TeachAsm.Execution.Session
import TeachAsm.Log.Verbosity
/-!
# Answering a request

A request is answered with bytes for the standard output, events for the log,
and a failure or none. `Response.exitCode` is 2 for arguments with a mistake,
1 for a program that cannot be loaded or does not run to its end, and 0
otherwise. The trace goes to the output up to a failure, unless quiet is wished
for; quiet changes nothing else.
-/

namespace TeachAsm

/-- What kept a program from running to its end. -/
inductive Failure where
  | load (path : Text) (fault : Fault)
  | run (path : Text) (fault : Fault)
  deriving DecidableEq, Repr

namespace Failure

/-- What could not be done. -/
def context : Failure → String
  | load path _ => "failed to load `" ++ String.ofList path ++ "`"
  | run path _ => "failed to run `" ++ String.ofList path ++ "`"

/-- Why it could not be done. -/
def cause : Failure → String
  | load _ fault => fault.message
  | run _ fault => fault.message

end Failure

/-- The name and the number of this program. -/
def versionText : String :=
  "aqa-asm 0.1.0\n"

/-- How this program is called. -/
def helpText : String :=
  "\n".intercalate
    ["Run an AQA assembly program, tracing every step",
     "",
     "Usage: aqa-asm [OPTIONS] <PATH>",
     "",
     "Arguments:",
     "  <PATH>  Program source: a JSON memory image, then one instruction per line",
     "",
     "Options:",
     "      --max-steps <N>  Stop with an error after this many steps",
     "  -q, --quiet          Do not print the per-step trace",
     "  -h, --help           Print help",
     "  -V, --version        Print version",
     ""]

/-- What answers a request. -/
inductive Response where
  /-- The arguments are mistaken. -/
  | misuse
  /-- Nothing but a text is asked for. -/
  | information (text : String)
  /-- A program has been loaded and run, or one of these has failed. -/
  | ran (output : ByteArray) (log : Array Event) (failure : Option Failure)

/-- The exit code that goes with a response. -/
def Response.exitCode : Response → Nat
  | misuse => 2
  | information _ => 0
  | ran _ _ none => 0
  | ran _ _ (some _) => 1

namespace Invocation

/-- The tracer that writes to the output. -/
def tracer (invocation : Invocation) : Tracer Sink :=
  if invocation.quiet then .silent else .text

/-- The failure of a run, or the last event of one that has none. -/
def conclude (invocation : Invocation) (e : Execution) :
    Except Fault Outcome → List Event × Option Failure
  | .ok outcome => ([.concluded outcome.state outcome.operations e.machine], none)
  | .error fault => ([], some (.run invocation.path fault))

/-- The answer to an invocation, given what the file at its path holds. There
is none while the program is still running. -/
def respond (invocation : Invocation) (contents : Option ByteArray) : Option Response :=
  let loaded := Program.ofFile invocation.path contents
  match loaded.result with
  | .error fault => some (.ran .empty loaded.events.toArray (some (.load invocation.path fault)))
  | .ok program =>
    let s := Session.start program ({} : Sink) loaded.events.toArray
    let (s, result) := s.run program invocation.limit invocation.tracer
    result.map fun result =>
      let (events, failure) := invocation.conclude s.execution result
      .ran s.trace.bytes (s.log ++ events) failure

end Invocation

/-- The answer to arguments, given what the files hold. -/
def Response.ofArguments (arguments : List Text) (contents : Text → Option ByteArray) :
    Option Response :=
  match Request.ofArguments arguments with
  | none => some misuse
  | some .version => some (information versionText)
  | some .help => some (information helpText)
  | some (.run invocation) => invocation.respond (contents invocation.path)

end TeachAsm
