import Playout.Media.Catalog

namespace Playout

open Media

structure Deck where
  current : Option Handle := none
  playlist : List Handle := []
  history : List Handle := []
  speed : Int := 1
  seekTarget : Option Nat := none
  observed : Option Nat := none
  generation : Nat := 0
  wakeups : Nat := 0
  controllers : Nat := 0
  nextPending : Bool := false
  prevPending : Bool := false
  deriving DecidableEq, Repr

namespace Deck

/-- The position seen last, -1 before the first play. -/
def position (d : Deck) : Int := d.observed.elim (-1) fun p => p

def timeline (d : Deck) : List Handle := d.history ++ d.current.toList ++ d.playlist

def bump (d : Deck) : Deck := { d with generation := d.generation + 1 }

def wake (d : Deck) : Deck := { d with wakeups := d.wakeups + 1 }

def set (h : Handle) (d : Deck) : Deck :=
  { d with playlist := [h], speed := 1, nextPending := true }.bump.wake

def add (h : Handle) (d : Deck) : Deck := { d with playlist := d.playlist ++ [h] }.bump.wake

def insert (index : Int) (h : Handle) (d : Deck) : Deck :=
  if 0 ≤ index ∧ index < d.playlist.length then
    { d with playlist := d.playlist.insertIdx index.toNat h }.bump.wake
  else d.add h

/-- Takes an item out: 0 and up count from the start of the playlist, -2 and down from the end of
the history. The current item is -1 and stays. -/
def grab (index : Int) (d : Deck) : Option Handle × Deck :=
  if index = -1 then (d.current, d)
  else if 0 ≤ index then
    match d.playlist[index.toNat]? with
    | some h => (some h, { d with playlist := d.playlist.eraseIdx index.toNat }.bump)
    | none => (none, d)
  else
    let back := (-(index + 2)).toNat
    let i := d.history.length - 1 - back
    match if back < d.history.length then d.history[i]? else none with
    | some h => (some h, { d with history := d.history.eraseIdx i }.bump)
    | none => (none, d)

def next (d : Deck) : Deck :=
  if d.playlist ≠ [] ∧ ¬d.nextPending then { d with nextPending := true }.bump.wake else d

def prev (d : Deck) : Deck :=
  if d.history ≠ [] ∧ ¬d.prevPending then { d with prevPending := true }.bump.wake else d

def setSpeed (speed : Int) (d : Deck) : Deck :=
  (if d.speed = speed then d else { d with speed }.bump).wake

/-- The position in an item of so many frames that a request means; below zero it counts from the
end. -/
def targetOf (position : Int) (frames : Nat) : Nat :=
  min (if 0 ≤ position then position else frames + position).toNat (frames - 1)

def seek (position : Int) (frames : Nat) (d : Deck) : Deck :=
  { d with seekTarget := some (targetOf position frames) }.bump.wake

def controlStart (d : Deck) : Deck := { d with controllers := d.controllers + 1 }

def controlEnd (d : Deck) : Deck := { d with controllers := d.controllers - 1 }.wake

def hasWork (d : Deck) : Bool := d.playlist ≠ [] || d.nextPending || d.prevPending

/-- Takes the current item off: behind the history, or, going back, in front of the playlist with
the newest of the history before it. -/
def retire (d : Deck) : Deck :=
  match d.current with
  | none => d
  | some outgoing =>
    if d.prevPending then
      { d with
        current := none
        playlist := d.history.getLast?.toList ++ outgoing :: d.playlist
        history := d.history.dropLast }
    else { d with current := none, history := d.history ++ [outgoing] }

def evict (capacity : Nat) (d : Deck) : Deck :=
  { d with history := d.history.drop (d.history.length - capacity) }

def answered (d : Deck) : Deck := { d with nextPending := false, prevPending := false }

def promote (capacity : Nat) (d : Deck) : Option Handle × Deck :=
  let d := (d.retire.evict capacity).answered
  match d.playlist with
  | [] => (none, { d with observed := none }.bump.wake)
  | h :: rest =>
    (some h, { d with current := some h, playlist := rest, observed := some 0 }.bump.wake)

/-- One frame on: to the target of a seek, else by the speed, else not at all. The last part says
whether the item ends here. -/
def advance (item : Item) (d : Deck) : Item × Deck × Bool :=
  match d.seekTarget with
  | some target => (item.seek target, { d with seekTarget := none }, false)
  | none =>
    let next := item.position + d.speed
    if d.speed ≠ 0 ∧ 0 ≤ next ∧ next < item.frames then (item.seekBy d.speed, d, false)
    else (item, d, 0 < d.speed && d.playlist ≠ [])

def shown (d : Deck) : String :=
  "Player \x7b generation: " ++ toString d.generation ++ ", playlist: " ++
    toString d.playlist.length ++ ", history: " ++ toString d.history.length ++ ", speed: " ++
    toString d.speed ++ " \x7d"

end Deck

end Playout
