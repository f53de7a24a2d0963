import Playout.Files
import Playout.Settings
import Playout.Toml.Parser

namespace Playout

open Toml

namespace Toml.Node

def text? : Node → Option String
  | text s => some s
  | _ => none

def boolean? : Node → Option Bool
  | boolean b => some b
  | _ => none

def below? (limit : Nat) : Node → Option Nat
  | integer n => if 0 ≤ n ∧ n < limit then some n.toNat else none
  | _ => none

def natural? : Node → Option Nat := below? 9223372036854775808

def items? : Node → Option (List Node)
  | array items => some items
  | tables newestFirst => some (newestFirst.reverse.map (table .header))
  | _ => none

def texts? (node : Node) : Option (List String) := node.items?.bind (·.mapM text?)

/-- A field by its name, or by its place where the record is an array. A moment has no fields. -/
def field? {α : Type} (node : Node) (name : String) (place : Nat) (read : Node → Option α)
    (default : α) : Option α :=
  match node with
  | table _ entries => ((entries.lookup name).map read).getD (some default)
  | moment _ => some default
  | node => node.items?.bind fun items => (items[place]?.map read).getD (some default)

end Toml.Node

def ServerSettings.ofNode? (node : Node) : Option ServerSettings := do
  let d : ServerSettings := {}
  return {
    bind := ← node.field? "bind" 0 Node.text? d.bind
    port := ← node.field? "port" 1 (Node.below? Number.portLimit) d.port
    auxEndpoint := ← node.field? "aux_endpoint" 2 Node.boolean? d.auxEndpoint
    pollIntervalMs := ← node.field? "poll_interval_ms" 3 Node.natural? d.pollIntervalMs
    readChunk := ← node.field? "read_chunk" 4 Node.natural? d.readChunk }

def PlayerSettings.ofNode? (node : Node) : Option PlayerSettings := do
  let d : PlayerSettings := {}
  return {
    historyCapacity := ← node.field? "history_capacity" 0 Node.natural? d.historyCapacity
    seekTimeoutMs := ← node.field? "seek_timeout_ms" 1 Node.natural? d.seekTimeoutMs
    idleWaitMs := ← node.field? "idle_wait_ms" 2 Node.natural? d.idleWaitMs
    frameRate := ← node.field? "frame_rate" 3 (Node.below? 4294967296) d.frameRate }

def ShellSettings.ofNode? (node : Node) : Option ShellSettings := do
  let d : ShellSettings := {}
  return {
    prompt := ← node.field? "prompt" 0 Node.text? d.prompt
    includeDirs := ← node.field? "include_dirs" 1 Node.texts? d.includeDirs
    startup := ← node.field? "startup" 2 Node.texts? d.startup }

namespace Settings

def ofNode? (node : Node) : Option Settings := do
  return {
    server := ← node.field? "server" 0 ServerSettings.ofNode? {}
    player := ← node.field? "player" 1 PlayerSettings.ofNode? {}
    shell := ← node.field? "shell" 2 ShellSettings.ofNode? {} }

def ofToml (text : String) : Except Fault Settings :=
  match (parse? text).bind fun root => ofNode? (.table .header root) with
  | some settings => .ok settings
  | none => .error .toml

def load (files : Files) : Option String → Except Fault Settings
  | none => .ok {}
  | some path =>
    match files.readText path with
    | .ok text => ofToml text
    | .error cause => .error (.file cause)

end Settings

end Playout
