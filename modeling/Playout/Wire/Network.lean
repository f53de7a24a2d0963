import Playout.Wire.Address
import Playout.Wire.Client
import Playout.Wire.Server

namespace Playout.Wire

structure Network (σ : Type) where
  refusal? : String → Nat → Option FileFault
  reach : Address → Except String (Peer σ × σ)

def Network.isolated : Network Unit where
  refusal? _ _ := none
  reach _ := .error "Network is unreachable (os error 101)"

def Server.bind {σ : Type} (network : Network σ) (settings : ServerSettings)
    (includeDirs : List String) : Except FileFault Server :=
  match (settings.port :: settings.auxPort?.toList).findSome? (network.refusal? settings.bind) with
  | some cause => .error cause
  | none => .ok { settings, includeDirs }

def Client.connect {σ : Type} (network : Network σ) (address : String) :
    Except Fault (Peer σ × Client σ) :=
  let there := Address.ofText address
  match network.reach there with
  | .ok (peer, state) => .ok (peer, ⟨state, []⟩)
  | .error reason => .error (.connection (.unreachable there.host there.port reason))

end Playout.Wire
