import Playout.Wire.Outbox

namespace Playout.Wire

inductive Arrival where
  | nothing
  | bytes (portion : List UInt8)
  | ended
  deriving DecidableEq, Repr

inductive ReadStatus where
  | idle
  | progress
  | closed
  deriving DecidableEq, Repr

structure Connection where
  console : Console
  buffer : List UInt8 := []
  outbox : Outbox := {}
  closing : Bool := false

namespace Connection

def longest : Nat := 64 * 1024

def isFinished (c : Connection) : Bool := c.closing && c.outbox.isEmpty

/-- Answers a line. With the client's leave the rest of the buffer is void. -/
def takeLine (line : List UInt8) (studio : Studio) (c : Connection) : Studio × Connection :=
  let (reply, desk) := answer (Text.Utf8.lossy line) ⟨studio, c.console⟩
  (desk.studio,
    { c with
      console := desk.console
      outbox := c.outbox.queueAll reply.lines
      closing := reply.leaves
      buffer := if reply.leaves then [] else c.buffer })

/-- Answers lines in turn, passing over empty ones, until the client leaves. -/
def takeLines : List (List UInt8) → Studio → Connection → Studio × Connection
  | [], studio, c => (studio, c)
  | line :: lines, studio, c =>
    if c.closing then (studio, c)
    else if line = [] then takeLines lines studio c
    else
      let (studio, c) := takeLine line studio c
      takeLines lines studio c

def refuseOverlong (c : Connection) : Connection :=
  if longest < c.buffer.length then
    { c with buffer := [], outbox := c.outbox.queue (Verdict.failed "line too long").line }
  else c

/-- Takes what a read finds. A connection that is closing reads no more. -/
def read (arrival : Arrival) (studio : Studio) (c : Connection) :
    ReadStatus × Studio × Connection :=
  if c.closing then (.idle, studio, c)
  else
    match arrival with
    | .nothing => (.idle, studio, c)
    | .ended => (.closed, studio, c)
    | .bytes portion =>
      let (lines, rest) := extract (c.buffer ++ portion)
      let (studio, c) := takeLines lines studio { c with buffer := rest }
      (.progress, studio, c.refuseOverlong)

end Connection

end Playout.Wire
