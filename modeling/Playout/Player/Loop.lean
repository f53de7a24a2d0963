import Playout.Player.Deck
import Playout.Player.Store
import Playout.Settings

namespace Playout

open Media

inductive Loop where
  | idle
  | waiting
  | playing (h : Handle)
  | ended
  deriving DecidableEq, Repr

structure Player where
  settings : PlayerSettings := {}
  deck : Deck := {}
  stores : List Store := []
  journal : List Store.Call := []
  cancelled : Bool := false
  loop : Loop := .idle
  /-- Every store has answered the last round of `init` with yes and no frame was refused since. -/
  storesReady : Bool := false
  held : Bool := false

namespace Player

def onDeck (f : Deck → Deck) (p : Player) : Player := { p with deck := f p.deck }

/-- Asks every store in turn; the answer of one hides no call from the others. -/
def ask (call : Store → Bool × Store) (entry : Nat → Bool → Store.Call) (p : Player) :
    Bool × Player :=
  let answers := p.stores.map call
  (answers.all (·.1),
    { p with
      stores := answers.map (·.2)
      journal := p.journal ++ answers.mapIdx fun i a => entry i a.1 })

def initStores (p : Player) : Player :=
  let (ok, p) := p.ask Store.init .init
  { p with storesReady := ok }

def deliver (frame : Frame) (p : Player) : Bool × Player :=
  p.ask (Store.push frame) fun i ok => .push i ok frame

def completeStores (p : Player) : Player := (p.ask Store.complete fun i _ => .complete i).2

def setStoreProperty (name value : String) (p : Player) : Bool × Player :=
  match p.stores with
  | [] => (false, p)
  | s :: rest =>
    let (ok, s) := s.set name value
    (ok, { p with stores := s :: rest, journal := p.journal ++ [.set 0 ok name value] })

def isActive (p : Player) : Bool := !p.cancelled

/-- A loop that waits goes on to the next item, or ends if the player was cancelled. -/
def settle (catalog : Catalog) (p : Player) : Catalog × Player :=
  if p.loop ≠ .waiting then (catalog, p)
  else if p.cancelled then (catalog, { p with loop := .ended })
  else if !p.deck.hasWork then (catalog, p)
  else
    match p.deck.promote p.settings.historyCapacity with
    | (none, deck) => (catalog, { p with deck })
    | (some h, deck) =>
      let p := { p with deck, loop := .playing h }
      (catalog.modify h (Item.seek 0), if p.storesReady then p else p.initStores)

/-- Between two frames the loop leaves an item for a request or for good. -/
def betweenFrames (p : Player) : Player :=
  if p.cancelled then { p with loop := .ended }
  else if p.deck.nextPending || p.deck.prevPending then { p with loop := .waiting }
  else p

def playFrame (h : Handle) (catalog : Catalog) (p : Player) : Catalog × Player :=
  match (catalog.get h).fetch? with
  | none => (catalog, { p.completeStores with loop := .waiting })
  | some frame =>
    match p.deliver frame with
    | (false, p) => (catalog, { p with storesReady := false, loop := .waiting })
    | (true, p) =>
      let (item, deck, ended) := p.deck.advance (catalog.get h)
      let p := { p with deck := { deck with observed := some item.position }.wake }
      (catalog.put h item,
        if ended then { p.completeStores with loop := .waiting } else p.betweenFrames)

/-- From one fetch to the next, or to where the loop waits or ends. -/
def step (catalog : Catalog) (p : Player) : Catalog × Player :=
  match p.loop with
  | .playing h =>
    let (catalog, p) := p.playFrame h catalog
    p.settle catalog
  | _ => (catalog, p)

def start (p : Player) : Except Fault Unit × Player :=
  if p.held then (.ok (), p)
  else if p.cancelled then (.error .shutDown, p)
  else (.ok (), { p with loop := .waiting, held := true })

def cancel (p : Player) : Player := { p with cancelled := true, deck := p.deck.wake }

def shutdown (catalog : Catalog) (p : Player) : Catalog × Player :=
  let (catalog, p) := p.cancel.settle catalog
  let (catalog, p) := p.step catalog
  (catalog, { p with held := false })

def controlStart (p : Player) : Player := p.onDeck Deck.controlStart

def controlEnd (p : Player) : Player :=
  let p := p.onDeck Deck.controlEnd
  if p.deck.controllers = 0 then p.cancel else p

def requestSeek (position : Int) (catalog : Catalog) (p : Player) : Player :=
  match p.deck.current with
  | none => p
  | some h => p.onDeck (Deck.seek position (catalog.get h).frames)

def steps : Nat → Catalog → Player → Catalog × Player
  | 0, catalog, p => (catalog, p)
  | n + 1, catalog, p =>
    let (catalog, p) := p.step catalog
    steps n catalog p

/-- A seek that is given so many steps of the loop for its acknowledgement. Without a current item
there is nothing to wait for; a cancelled loop is not waited for. -/
def seek (position : Int) (given : Nat) (catalog : Catalog) (p : Player) :
    Except Fault Unit × Catalog × Player :=
  match p.deck.current with
  | none => (.ok (), catalog, p)
  | some _ =>
    let late := p.cancelled
    let (catalog, p) := (p.requestSeek position catalog).steps given catalog
    let r := if late || p.deck.seekTarget.isSome then .error Fault.seekTimeout else .ok ()
    (r, catalog, p)

end Player

end Playout
