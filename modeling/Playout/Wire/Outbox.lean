import Playout.Wire.Reply

namespace Playout.Wire

inductive Offer where
  | takes (count : Nat)
  | wouldBlock
  | interrupted
  | fails (reason : String)
  deriving DecidableEq, Repr

inductive SendFault where
  | nothingTaken
  | failed (reason : String)
  deriving DecidableEq, Repr

structure Outbox where
  bytes : List UInt8 := []
  deriving DecidableEq, Repr

structure Flush where
  sent : List UInt8
  left : Outbox
  result : Except SendFault Bool

namespace Outbox

def isEmpty (box : Outbox) : Bool := box.bytes.isEmpty

def queue (line : String) (box : Outbox) : Outbox := ⟨box.bytes ++ encodeLine line⟩

def queueAll (lines : List String) (box : Outbox) : Outbox :=
  ⟨box.bytes ++ lines.flatMap encodeLine⟩

/-- Offers the bytes again and again until none are left or the socket takes no more. A socket with
no further answer would block. -/
def flushFrom (progress : Bool) (bytes : List UInt8) (answers : List Offer) : Flush :=
  match bytes, answers with
  | [], _ => ⟨[], ⟨[]⟩, .ok progress⟩
  | bytes, [] => ⟨[], ⟨bytes⟩, .ok progress⟩
  | bytes, .takes 0 :: _ => ⟨[], ⟨bytes⟩, .error .nothingTaken⟩
  | bytes, .takes (n + 1) :: answers =>
    let flush := flushFrom true (bytes.drop (n + 1)) answers
    { flush with sent := bytes.take (n + 1) ++ flush.sent }
  | bytes, .wouldBlock :: _ => ⟨[], ⟨bytes⟩, .ok progress⟩
  | bytes, .interrupted :: answers => flushFrom progress bytes answers
  | bytes, .fails reason :: _ => ⟨[], ⟨bytes⟩, .error (.failed reason)⟩

def flush (box : Outbox) (answers : List Offer) : Flush := flushFrom false box.bytes answers

def flushAll (box : Outbox) : Flush := box.flush [.takes box.bytes.length]

end Outbox

end Playout.Wire
