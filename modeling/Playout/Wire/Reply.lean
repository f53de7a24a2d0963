import Playout.Console.Script
import Playout.Wire.Line

namespace Playout.Wire

inductive Verdict where
  | ok
  | failed (reason : String)
  deriving DecidableEq, Repr

def errorMark : String := "ERROR: "

def Verdict.line : Verdict → String
  | ok => "OK"
  | failed reason => errorMark ++ reason

structure Reply where
  output : List String
  verdict : Verdict
  leaves : Bool
  deriving DecidableEq, Repr

def Reply.lines (r : Reply) : List String := r.output ++ [r.verdict.line]

def encodeLine (line : String) : List UInt8 := Text.Utf8.encode line ++ lineEnd

def Reply.bytes (r : Reply) : List UInt8 := r.lines.flatMap encodeLine

def askedPort? (signals : List Signal) : Option Nat :=
  signals.reverse.findSome? fun
    | .startServer port => some port
    | .exit => none

def verdictOf (r : Except Fault Unit) (signals : List Signal) : Verdict :=
  match r, askedPort? signals with
  | .error fault, _ => .failed fault.message
  | .ok (), some port =>
    .failed ("server " ++ toString port ++ " is only available from the shell")
  | .ok (), none => .ok

def answer (line : String) (desk : Desk) : Reply × Desk :=
  let (r, desk) := (Console.define line).run desk
  let (output, console) := desk.console.takeOutput
  let (signals, console) := console.takeSignals
  (⟨output, verdictOf r signals, signals.contains .exit⟩, { desk with console })

end Playout.Wire
