import Playout.Settings
import Playout.Wire.Exchange

namespace Playout.Wire

/-- Takes away the entries at the given places, the last place first so that the others stay where
they are. -/
def removeIndices {α : Type} (indices : List Nat) (items : List α) : List α :=
  (indices.eraseDups.mergeSort fun i j => j ≤ i).foldl List.eraseIdx items

def indicesOf {α : Type} (p : α → Bool) (items : List α) : List Nat :=
  (items.zipIdx.filter fun (a, _) => p a).map (·.2)

structure Socket where
  incoming : List UInt8 := []
  ended : Bool := false
  received : List UInt8 := []
  deriving DecidableEq, Repr

def Socket.read (chunk : Nat) (s : Socket) : Arrival × Socket :=
  match s.incoming with
  | [] => (if s.ended then .ended else .nothing, s)
  | bytes => (.bytes (bytes.take chunk), { s with incoming := bytes.drop chunk })

def Socket.receive (bytes : List UInt8) (s : Socket) : Socket :=
  { s with received := s.received ++ bytes }

structure Link (α : Type) where
  client : Nat
  socket : Socket := {}
  state : α

structure Server where
  settings : ServerSettings := {}
  includeDirs : List String := []
  waiting : List (Link Unit) := []
  auxWaiting : List (Link Unit) := []
  connections : List (Link Connection) := []
  exchanges : List (Link Exchange) := []
  /-- All exchanges share it; it is made for the first. -/
  auxConsole : Option Console := none
  released : List (Link Connection) := []
  auxReleased : List (Link Exchange) := []

namespace Server

def freshConsole (s : Server) : Console := { includeDirs := s.includeDirs }

def accept (s : Server) : Bool × Server :=
  let auxWaiting := if s.settings.auxPort?.isSome then s.auxWaiting else []
  (s.waiting ≠ [] || auxWaiting ≠ [],
    { s with
      waiting := []
      auxWaiting := s.auxWaiting.drop auxWaiting.length
      connections := s.connections ++
        s.waiting.map fun l => ⟨l.client, l.socket, { console := s.freshConsole }⟩
      exchanges := s.exchanges ++ auxWaiting.map fun l => ⟨l.client, l.socket, {}⟩ })

def part {α : Type} (indices : List Nat) (links : List α) : List α × List α :=
  (removeIndices indices links, indices.filterMap (links[·]?))

def send (l : Link Connection) : Bool × Link Connection :=
  let flush := l.state.outbox.flushAll
  (flush.sent ≠ [],
    { l with socket := l.socket.receive flush.sent, state.outbox := flush.left })

def sendResponse (l : Link Exchange) : Bool × Link Exchange :=
  let (sent, result, x) := l.state.flushAll
  (result matches .ok true, { l with socket := l.socket.receive sent, state := x })

/-- Sends what is queued, and lets go of clients that have left and of exchanges that are answered.
-/
def write (s : Server) : Bool × Server :=
  let sent := s.connections.map send
  let links := sent.map (·.2)
  let leaving := indicesOf (·.state.isFinished) links
  let (connections, released) := part leaving links
  let answered := s.exchanges.map sendResponse
  let done := indicesOf (·.1) answered
  let (exchanges, auxReleased) := part done (answered.map (·.2))
  (sent.any (·.1) || leaving ≠ [] || done ≠ [],
    { s with
      connections, exchanges
      released := s.released ++ released
      auxReleased := s.auxReleased ++ auxReleased })

def readConnection (chunk : Nat) (studio : Studio) (l : Link Connection) :
    Studio × ReadStatus × Link Connection :=
  if l.state.closing then (studio, .idle, l)
  else
    let (arrival, socket) := l.socket.read chunk
    let (status, studio, state) := l.state.read arrival studio
    (studio, status, { l with socket, state })

def readExchange (chunk : Nat) (desk : Desk) (l : Link Exchange) :
    Desk × ReadStatus × Link Exchange :=
  if l.state.response.isSome then (desk, .idle, l)
  else
    let (arrival, socket) := l.socket.read chunk
    let (status, desk, state) := l.state.read arrival desk
    (desk, status, { l with socket, state })

def readAll {σ α : Type} (read : σ → α → σ × ReadStatus × α) (shared : σ) :
    List α → σ × List (ReadStatus × α)
  | [] => (shared, [])
  | l :: links =>
    let (shared, status, l) := read shared l
    let (shared, results) := readAll read shared links
    (shared, (status, l) :: results)

def readConnections (studio : Studio) (s : Server) : Bool × Studio × Server :=
  let (studio, results) := readAll (readConnection s.settings.chunk) studio s.connections
  let (connections, released) :=
    part (indicesOf (fun r => r.1 = .closed) results) (results.map (·.2))
  (results.any (·.1 ≠ .idle), studio, { s with connections, released := s.released ++ released })

def readExchanges (studio : Studio) (s : Server) : Bool × Studio × Server :=
  if s.exchanges.isEmpty then (false, studio, s)
  else
    let desk := ⟨studio, s.auxConsole.getD s.freshConsole⟩
    let (desk, results) := readAll (readExchange s.settings.chunk) desk s.exchanges
    let (exchanges, released) :=
      part (indicesOf (fun r => r.1 = .closed) results) (results.map (·.2))
    (results.any (·.1 ≠ .idle), desk.studio,
      { s with
        exchanges, auxConsole := some desk.console, auxReleased := s.auxReleased ++ released })

def tick (studio : Studio) (s : Server) : Bool × Studio × Server :=
  let (accepted, s) := s.accept
  let (written, s) := s.write
  let (read, studio, s) := s.readConnections studio
  let (readAux, studio, s) := s.readExchanges studio
  (accepted || written || read || readAux, studio, s)

/-- Rounds, so many at most, until nothing happens. -/
def ticks : Nat → Studio → Server → Studio × Server
  | 0, studio, s => (studio, s)
  | n + 1, studio, s =>
    match s.tick studio with
    | (true, studio, s) => ticks n studio s
    | (false, studio, s) => (studio, s)

def onSocket (client : Nat) (f : Socket → Socket) (s : Server) : Server :=
  let on {α : Type} (l : Link α) : Link α :=
    if l.client = client then { l with socket := f l.socket } else l
  { s with
    waiting := s.waiting.map on
    auxWaiting := s.auxWaiting.map on
    connections := s.connections.map on
    exchanges := s.exchanges.map on }

def connect (client : Nat) (aux : Bool) (s : Server) : Server :=
  if aux then { s with auxWaiting := s.auxWaiting ++ [⟨client, {}, ()⟩] }
  else { s with waiting := s.waiting ++ [⟨client, {}, ()⟩] }

def deliver (client : Nat) (bytes : List UInt8) (s : Server) : Server :=
  s.onSocket client fun socket => { socket with incoming := socket.incoming ++ bytes }

def finish (client : Nat) (s : Server) : Server :=
  s.onSocket client fun socket => { socket with ended := true }

end Server

end Playout.Wire
