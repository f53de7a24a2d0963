import Playout.Fault
import Playout.Terminal.Options

namespace Playout.Terminal

inductive Failure where
  | option (cause : OptionFault)
  | fault (cause : Fault)
  | input (cause : FileFault)
  | unreachable (address : String) (cause : Fault)
  | alreadyServing (port : Nat)
  | notServing (port : Nat) (cause : FileFault)
  deriving DecidableEq, Repr

namespace Failure

def message : Failure → String
  | option cause => cause.message
  | fault cause => cause.message
  | input cause => cause.message
  | unreachable address _ => "cannot reach " ++ address
  | alreadyServing port => "server is already running on port " ++ toString port
  | notServing port cause =>
    "server failed to start on port " ++ toString port ++ ": " ++ (Fault.file cause).message

def cause? : Failure → Option String
  | fault cause => cause.source?
  | unreachable _ cause => some cause.message
  | _ => none

def summary (f : Failure) : String := String.intercalate ": " (f.message :: f.cause?.toList)

def report (f : Failure) : String :=
  "Error: " ++ f.message ++ "\n" ++ f.cause?.elim "" fun cause =>
    "\nCaused by:\n    " ++ cause ++ "\n"

end Failure

end Playout.Terminal
