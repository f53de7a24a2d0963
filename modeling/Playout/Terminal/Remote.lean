import Playout.Terminal.Failure
import Playout.Wire.Network

namespace Playout.Terminal.Remote

open Wire

/-- Sends lines that are not blank until one is the word to leave. What is printed is gathered
behind what was printed before. -/
def interact {σ : Type} (peer : Peer σ) (prompt : String) (printed : String) (input : List UInt8)
    (client : Client σ) : String × Except Failure Unit × Client σ :=
  match h : Text.takeLine? input with
  | none => (printed ++ prompt, .ok (), client)
  | some (line, rest) =>
    have := Text.length_takeLine? h
    match Text.lineText line with
    | .error _ => (printed ++ prompt, .error (.input .notUtf8), client)
    | .ok command =>
      let word := Text.trim command.toList
      if word = [] then interact peer prompt (printed ++ prompt) rest client
      else
        match client.send peer command with
        | (.error cause, client) => (printed ++ prompt, .error (.fault cause), client)
        | (.ok lines, client) =>
          let printed := printed ++ prompt ++ String.join (lines.map (· ++ "\n"))
          if word = Console.Word.exit.name.toList then (printed, .ok (), client)
          else interact peer prompt printed rest client
  termination_by input.length

def run {σ : Type} (network : Network σ) (address : String) (prompt : Option String)
    (input : List UInt8) : String × Except Failure Unit :=
  match Client.connect network address with
  | .error cause => ("", .error (.unreachable address cause))
  | .ok (peer, client) =>
    let (printed, r, _) := interact peer (prompt.getD "") "" input client
    (printed, r)

end Playout.Terminal.Remote
