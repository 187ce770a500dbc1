import TeachAsm.Log.Event
/-!
# Verbosity

How much of a log is shown: the events up to a level, or none at all.
-/

namespace TeachAsm

/-- What is shown of a log. -/
inductive Verbosity where
  | off
  /-- Events of this level and the graver ones. -/
  | upTo (level : Level)
  deriving DecidableEq, Repr

namespace Verbosity

/-- Without a wish, warnings are shown. -/
def standard : Verbosity :=
  upTo .warn

/-- The verbosity with a given name, in letters of either case. -/
def ofName? (name : String) : Option Verbosity :=
  match name.toLower with
  | "off" => some off
  | "error" => some (upTo .error)
  | "warn" => some (upTo .warn)
  | "info" => some (upTo .info)
  | "debug" => some (upTo .debug)
  | "trace" => some (upTo .trace)
  | _ => none

/-- Whether an event is shown. -/
def shows : Verbosity → Event → Bool
  | off, _ => false
  | upTo level, event => event.level.rank ≤ level.rank

end Verbosity

end TeachAsm
