import Playout.Settings.Load
import Playout.Terminal.Remote
import Playout.Terminal.Shell

namespace Playout.Terminal

open Wire

structure Invocation where
  arguments : List String := []
  config : Option String := none
  input : List UInt8 := []
  files : Files := {}

structure Outcome where
  code : Nat
  output : String
  errors : String
  deriving DecidableEq, Repr

def Outcome.of (printed : String) : Except Failure Unit → Outcome
  | .ok () => ⟨0, printed, ""⟩
  | .error failure => ⟨1, printed, failure.report⟩

inductive Stage where
  | finished (outcome : Outcome)
  | remote (address : String)
  | shell (printed : String) (s : Shell)

def workingPlayer (settings : PlayerSettings) : Player :=
  let player : Player := { settings, stores := [.ofRate settings.frameRate] }
  player.start.2.controlStart

/-- The local shell before its first line of input: the server is started if that was asked, and the
scripts are run. -/
def openShell {σ : Type} (network : Network σ) (settings : Settings) (files : Files)
    (options : Options) : Stage :=
  let shell := Shell.ofPlayer settings files (workingPlayer settings.player)
  let (r, shell) := match options.server with
    | some port => shell.startServer network port
    | none => (.ok 0, shell)
  match r with
  | .error failure => .finished (.of "" (.error failure))
  | .ok _ =>
    let (printed, shell) := shell.runScripts network (settings.shell.startup ++ options.scripts)
    .shell printed shell

def begin {σ : Type} (network : Network σ) (i : Invocation) : Stage :=
  match Options.ofArguments i.arguments with
  | .error cause => .finished (.of "" (.error (.option cause)))
  | .ok options =>
    if options.help then .finished (.of (usage ++ "\n") (.ok ()))
    else
      match Settings.load i.files (options.config <|> i.config) with
      | .error cause => .finished (.of "" (.error (.fault cause)))
      | .ok settings =>
        match options.connect with
        | some address => .remote address
        | none => openShell network settings i.files options

def run {σ : Type} (network : Network σ) (i : Invocation) : Outcome :=
  match begin network i with
  | .finished outcome => outcome
  | .remote address =>
    let (printed, r) := Remote.run network address none i.input
    .of printed r
  | .shell printed s =>
    let (more, r, _) := s.interact network false i.input
    .of (printed ++ more) r

end Playout.Terminal
