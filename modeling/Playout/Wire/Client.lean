import Playout.Text.Input
import Playout.Wire.Connection

namespace Playout.Wire

/-- The other end of a stream: what it writes when it is sent bytes. When it writes no more it has
closed. -/
structure Peer (σ : Type) where
  take : List UInt8 → σ → List UInt8 × σ

structure Client (σ : Type) where
  peer : σ
  unread : List UInt8 := []

namespace Client

/-- A reply ends with the line that says how it went. Failure is part of the reply, success is not.
-/
def readReply (lines : List String) (unread : List UInt8) :
    Except Fault (List String) × List UInt8 :=
  match h : Text.takeLine? unread with
  | none => (.error (.connection .closedByServer), unread)
  | some (line, rest) =>
    have := Text.length_takeLine? h
    match Text.lineText line with
    | .error _ => (.error (.file .notUtf8), rest)
    | .ok text =>
      if text = Verdict.ok.line then (.ok lines.reverse, rest)
      else if text.startsWith "ERROR:" then (.ok (text :: lines).reverse, rest)
      else readReply (text :: lines) rest
  termination_by unread.length

def send {σ : Type} (peer : Peer σ) (command : String) (c : Client σ) :
    Except Fault (List String) × Client σ :=
  if '\r' ∈ command.toList ∨ '\n' ∈ command.toList then (.error (.parse .severalLines), c)
  else
    let (written, state) := peer.take (encodeLine command) c.peer
    let (r, unread) := readReply [] (c.unread ++ written)
    (r, ⟨state, unread⟩)

end Client

def Connection.feed (portions : List (List UInt8)) (studio : Studio) (c : Connection) :
    Studio × Connection :=
  portions.foldl (fun (studio, c) portion => (c.read (.bytes portion) studio).2) (studio, c)

def Connection.peer (chunk : Nat) : Peer (Studio × Connection) where
  take bytes := fun (studio, c) =>
    let (studio, c) := c.feed (portions chunk bytes) studio
    let flush := c.outbox.flushAll
    (flush.sent, studio, { c with outbox := flush.left })

end Playout.Wire
