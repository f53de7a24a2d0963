namespace Playout.Toml

inductive Origin where
  | implied
  | dottedKey
  | header
  | braces
  deriving DecidableEq, Repr

/-- A header may add to every table but one in braces, a dotted key to those without a header. -/
def Origin.isOpen (toDottedKey : Bool) : Origin → Bool
  | braces => false
  | header => !toDottedKey
  | implied | dottedKey => true

inductive Node where
  | text (content : String)
  | integer (n : Int)
  | real (x : Float)
  | boolean (b : Bool)
  | moment (written : String)
  | array (items : List Node)
  | table (origin : Origin) (entries : List (String × Node))
  /-- Tables under one header in double brackets, the newest first. -/
  | tables (newestFirst : List (List (String × Node)))

abbrev Entries := List (String × Node)

namespace Entries

def put (key : String) (node : Node) (entries : Entries) : Entries :=
  if (entries.lookup key).isSome then
    entries.map fun (k, n) => if k = key then (k, node) else (k, n)
  else entries ++ [(key, node)]

/-- Changes the table at the end of a path. Tables on the way that are missing are made; of tables
under one header the newest is meant. -/
def change (byDottedKey : Bool) (f : Origin → Entries → Option Entries) (here : Origin)
    (entries : Entries) : List String → Option Entries
  | [] => f here entries
  | key :: path =>
    match entries.lookup key with
    | none => do
      let made : Origin := if byDottedKey then .dottedKey else .implied
      return entries.put key (.table made (← change byDottedKey f made [] path))
    | some (.table origin inner) =>
      if origin.isOpen byDottedKey then do
        return entries.put key (.table origin (← change byDottedKey f origin inner path))
      else none
    | some (.tables (last :: before)) => do
      return entries.put key (.tables ((← change byDottedKey f .header last path) :: before))
    | some _ => none

def add (path : List String) (key : String) (node : Node) (entries : Entries) : Option Entries :=
  entries.change true
    (fun origin inner =>
      if (origin = .dottedKey ↔ path = []) ∨ (inner.lookup key).isSome then none
      else some (inner.put key node))
    .header path

/-- Begins a table under its header. One that was only implied may still have its header. -/
def openTable (path : List String) (key : String) (entries : Entries) : Option Entries :=
  entries.change false
    (fun _ inner =>
      match inner.lookup key with
      | none => some (inner.put key (.table .header []))
      | some (.table .implied content) => some (inner.put key (.table .header content))
      | some _ => none)
    .header path

def openNext (path : List String) (key : String) (entries : Entries) : Option Entries :=
  entries.change false
    (fun _ inner =>
      match inner.lookup key with
      | none => some (inner.put key (.tables [[]]))
      | some (.tables all) => some (inner.put key (.tables ([] :: all)))
      | some _ => none)
    .header path

end Entries

structure Key where
  path : List String
  last : String
  deriving DecidableEq, Repr

inductive Line where
  | entry (key : Key) (node : Node)
  | table (key : Key)
  | nextTable (key : Key)

structure Document where
  root : Entries := []
  current : List String := []

def Document.take (d : Document) : Line → Option Document
  | .entry key node => do
    let root ← d.root.change false (fun _ inner => inner.add key.path key.last node) .header
      d.current
    return { d with root }
  | .table key => do
    return ⟨← d.root.openTable key.path key.last, key.path ++ [key.last]⟩
  | .nextTable key => do
    return ⟨← d.root.openNext key.path key.last, key.path ++ [key.last]⟩

def rootOf (lines : List Line) : Option Entries :=
  (lines.foldlM Document.take {}).map (·.root)

end Playout.Toml
