import Playout.Number.Integer
import Playout.Settings
import Playout.Text.Split

namespace Playout.Wire

structure Address where
  host : String
  port : Nat
  deriving DecidableEq, Repr

/-- The port stands behind the last colon. Text without a port there is all host, at the default
port. -/
def Address.ofText (text : String) : Address :=
  match Text.cutLast? ':' text.toList with
  | none => ⟨text, defaultPort⟩
  | some (host, port) =>
    match Number.port? port with
    | some port => ⟨String.ofList host, port⟩
    | none => ⟨text, defaultPort⟩

end Playout.Wire
