import Playout.Terminal.Failure
import Playout.Wire.Network

namespace Playout.Terminal

open Wire

structure Shell where
  settings : Settings := {}
  desk : Desk
  server : Option Server := none
  done : Bool := false

namespace Shell

def ofPlayer (settings : Settings) (files : Files) (player : Player) : Shell where
  settings := settings
  desk := ⟨{ player, files }, { includeDirs := settings.shell.includeDirs }⟩

/-- Starts the server; one at a time may run. -/
def startServer {σ : Type} (network : Network σ) (port : Nat) (s : Shell) :
    Except Failure Nat × Shell :=
  match s.server with
  | some server => (.error (.alreadyServing server.settings.port), s)
  | none =>
    match Server.bind network { s.settings.server with port } s.settings.shell.includeDirs with
    | .error cause => (.error (.notServing port cause), s)
    | .ok server => (.ok port, { s with server := some server })

def line (text : String) : String := text ++ "\n"

def heed {σ : Type} (network : Network σ) (signal : Signal) (s : Shell) : String × Shell :=
  match signal with
  | .exit => ("", { s with done := true })
  | .startServer port =>
    match s.startServer network port with
    | (.ok port, s) => (line ("Server is started on port " ++ toString port ++ "."), s)
    | (.error failure, s) => (line ("ERROR: " ++ failure.message), s)

def heedAll {σ : Type} (network : Network σ) : List Signal → Shell → String × Shell
  | [], s => ("", s)
  | signal :: signals, s =>
    let (said, s) := s.heed network signal
    let (more, s) := heedAll network signals s
    (said ++ more, s)

def perform {σ : Type} (network : Network σ) (act : Act Unit) (s : Shell) : String × Shell :=
  let (r, desk) := act.run s.desk
  let (output, console) := desk.console.takeOutput
  let (signals, console) := console.takeSignals
  let failed := match r with
    | .error fault => [line ("ERROR: " ++ fault.message)]
    | .ok () => []
  let (said, s) := { s with desk := { desk with console } }.heedAll network signals
  (String.join (output.map line ++ failed) ++ said, s)

def runLine {σ : Type} (network : Network σ) (text : String) (s : Shell) : String × Shell :=
  s.perform network (Console.define text)

def runScript {σ : Type} (network : Network σ) (name : String) (s : Shell) : String × Shell :=
  s.perform network (Console.runScript name)

def runScripts {σ : Type} (network : Network σ) : List String → Shell → String × Shell
  | [], s => ("", s)
  | name :: names, s =>
    if s.done then ("", s)
    else
      let (said, s) := s.runScript network name
      let (more, s) := runScripts network names s
      (said ++ more, s)

/-- Runs the lines of an input until one says to leave. The prompt, if there is one, comes before
each line and before the end. What is printed is gathered behind what was printed before. -/
def interactFrom {σ : Type} (network : Network σ) (prompt : String) (printed : String)
    (input : List UInt8) (s : Shell) : String × Except Failure Unit × Shell :=
  if s.done then (printed, .ok (), s)
  else
    match h : Text.takeLine? input with
    | none => (printed ++ prompt, .ok (), s)
    | some (line, rest) =>
      have := Text.length_takeLine? h
      match Text.lineText line with
      | .error _ => (printed ++ prompt, .error (.input .notUtf8), s)
      | .ok text =>
        let (said, s) := s.runLine network text
        interactFrom network prompt (printed ++ prompt ++ said) rest s
  termination_by input.length

def interact {σ : Type} (network : Network σ) (showPrompt : Bool) (input : List UInt8) (s : Shell) :
    String × Except Failure Unit × Shell :=
  s.interactFrom network (if showPrompt then s.settings.shell.prompt else "") "" input

/-- Lets the server serve a round, and the player go on to what waits. -/
def attend (s : Shell) : Shell :=
  let (studio, server) := match s.server with
    | some server =>
      let (_, studio, server) := server.tick s.desk.studio
      (studio, some server)
    | none => (s.desk.studio, none)
  let (catalog, player) := studio.player.settle studio.catalog
  { s with desk.studio := { studio with catalog, player }, server }

def shutdown (s : Shell) : Shell := { s with server := none }

end Shell

end Playout.Terminal
