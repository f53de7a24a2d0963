import Playout.Fault
import Playout.Number.Integer
import Playout.Token

namespace Playout.Media

inductive Kind where
  | testPattern
  | colour
  deriving DecidableEq, Repr

abbrev Properties := List (String × String)

namespace Properties

def set (name value : String) : Properties → Properties
  | [] => [(name, value)]
  | (n, v) :: rest =>
    if name < n then (name, value) :: (n, v) :: rest
    else if name = n then (name, value) :: rest
    else (n, v) :: set name value rest

def get? (name : String) (props : Properties) : Option String :=
  (props.find? (·.1 = name)).map (·.2)

end Properties

structure Item where
  uri : String
  kind : Kind
  position : Nat
  frames : Nat
  properties : Properties
  deriving DecidableEq, Repr

structure Frame where
  position : Nat
  source : String
  deriving DecidableEq, Repr

def defaultFrames : Kind → Nat
  | .testPattern => 250
  | .colour => 1

def defaultRate : Nat := 25

namespace Item

def fresh (uri : String) (kind : Kind) : Item :=
  let properties : Properties := Properties.set "frames" (Number.ofInteger (defaultFrames kind))
    (Properties.set "fps" (Number.ofInteger defaultRate) [])
  { uri, kind, position := 0, frames := defaultFrames kind,
    properties := if kind = .colour then properties.set "colour" "black" else properties }

def testPattern (frames : Int) : Item :=
  let item := fresh "test:" .testPattern
  { item with frames := frames.toNat,
              properties := item.properties.set "frames" (Number.ofInteger frames.toNat) }

def last (item : Item) : Nat := item.frames - 1

def fetch? (item : Item) : Option Frame :=
  if item.position < item.frames then some ⟨item.position, item.uri⟩ else none

def seek (target : Int) (item : Item) : Item :=
  { item with position := min target.toNat item.last }

def seekBy (distance : Int) (item : Item) : Item := item.seek (item.position + distance)

/-- The item with one property set; the play position follows the end of a shortened item. -/
def set (name value : String) (item : Item) : Except MediaFault Item :=
  let kept : Item := { item with properties := item.properties.set name value }
  if name = "frames" then
    match Number.integer? value.toList with
    | some (.ofNat n) => .ok { kept with frames := n, position := min item.position (n - 1) }
    | _ => .error (.frameCount value)
  else if name = "fps" then
    match Number.integer? value.toList with
    | some n => if 0 < n then .ok kept else .error (.frameRate value)
    | none => .error (.frameRate value)
  else if name = "colour" ∧ item.kind = .colour then .ok kept
  else if name.toList.head? = some '@' then .ok kept
  else .error (.unknownProperty name)

def assignments (item : Item) : List String :=
  item.properties.map fun (name, value) => name ++ "=" ++ value

def render (item : Item) : String := Token.toLine (item.uri :: item.assignments)

end Item

end Playout.Media
