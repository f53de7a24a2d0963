import Playout.Wire.Connection
import Playout.Wire.Request

namespace Playout.Wire

structure Exchange where
  request : List UInt8 := []
  response : Option Outbox := none
  deriving DecidableEq, Repr

namespace Exchange

def longest : Nat := 8 * 1024

def headFrom (seen : List UInt8) : List UInt8 → Option (List UInt8)
  | 13 :: 10 :: 13 :: 10 :: _ => some seen.reverse
  | b :: rest => headFrom (b :: seen) rest
  | [] => none

def head? (request : List UInt8) : Option (List UInt8) := headFrom [] request

def accepted : String := "HTTP/1.0 204 No Content\r\n\r\n"

def refused : String := "HTTP/1.0 400 Bad Request\r\n\r\n"

def respond (response : String) (x : Exchange) : Exchange :=
  { x with response := some ⟨Text.Utf8.encode response⟩ }

/-- Takes what a read finds. After the response nothing is read. -/
def read (arrival : Arrival) (desk : Desk) (x : Exchange) : ReadStatus × Desk × Exchange :=
  if x.response.isSome then (.idle, desk, x)
  else
    match arrival with
    | .nothing => (.idle, desk, x)
    | .ended => (.closed, desk, x)
    | .bytes portion =>
      let x := { x with request := x.request ++ portion }
      match head? x.request with
      | some head =>
        let (r, desk) := Request.handle (Text.Utf8.lossy head) desk
        (.progress, desk, x.respond (if r.isOk then accepted else refused))
      | none =>
        (.progress, desk, if longest < x.request.length then x.respond refused else x)

def flush (x : Exchange) (answers : List Offer) : List UInt8 × Except SendFault Bool × Exchange :=
  match x.response with
  | none => ([], .ok false, x)
  | some box =>
    let flush := box.flush answers
    (flush.sent, flush.result.map fun _ => flush.left.isEmpty,
      { x with response := some flush.left })

def flushAll (x : Exchange) : List UInt8 × Except SendFault Bool × Exchange :=
  x.flush [.takes (x.response.elim 0 fun box => box.bytes.length)]

end Exchange

end Playout.Wire
