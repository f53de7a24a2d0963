import Playout.Media.Uri
import Playout.Number.Real
import Playout.Stack.Value

namespace Playout.Stack

open Media

inductive Word where
  | print
  | take
  | dup
  | drop
  | swap
  | copyBelow
  | clear
  | depth
  | dict
  | add
  | sub
  | mul
  | div
  deriving DecidableEq, Repr

namespace Word

def name : Word → String
  | print => "."
  | take => "dot"
  | dup => "dup"
  | drop => "drop"
  | swap => "swap"
  | copyBelow => "over"
  | clear => "clear"
  | depth => "depth"
  | dict => "dict"
  | add => "+"
  | sub => "-"
  | mul => "*"
  | div => "/"

def all : List Word :=
  [print, take, dup, drop, swap, copyBelow, clear, depth, dict, add, sub, mul, div]

def ofName? (token : String) : Option Word := all.find? (·.name = token)

def dictionary : List String := all.map name

end Word

/-- A machine: its stack with the top first, the value last taken off, the text it has printed and
how its last token went. -/
structure Machine where
  stack : List Value := []
  slot : Option Value := none
  printed : String := ""
  fault : Option MachineFault := none
  deriving Repr

namespace Machine

def result (m : Machine) : String := (m.fault.map MachineFault.message).getD "OK"

def print (text : String) (m : Machine) : Machine :=
  { m with printed := m.printed ++ text ++ if text.toList.getLast? = some '\n' then "" else "\n" }

def place (v : Value) (m : Machine) : Machine := { m with stack := v :: m.stack }

def number (catalog : Catalog) (m : Machine) : Except MachineFault Float × Machine :=
  match m.stack with
  | [] => (.error .underflow, m)
  | v :: rest =>
    let text := v.text catalog
    (((Number.real? text.toList).map Except.ok).getD (.error (.notNumber text)),
      { m with stack := rest })

def calculate (word : Word) (x y : Float) : Except MachineFault Float :=
  match word with
  | .add => .ok (x + y)
  | .sub => .ok (x - y)
  | .mul => .ok (x * y)
  | _ => if y == 0.0 then .error .divisionByZero else .ok (x / y)

def arithmetic (word : Word) (catalog : Catalog) (m : Machine) :
    Except MachineFault Unit × Machine :=
  match m.number catalog with
  | (.error e, m) => (.error e, m)
  | (.ok y, m) =>
    match m.number catalog with
    | (.error e, m) => (.error e, m)
    | (.ok x, m) =>
      match calculate word x y with
      | .error e => (.error e, m)
      | .ok z => (.ok (), m.place (.literal (String.ofList (Number.resultText z))))

def run (word : Word) (catalog : Catalog) (m : Machine) : Except MachineFault Unit × Machine :=
  match word, m.stack with
  | .print, v :: rest =>
    (.ok (), { (m.print (v.text catalog)) with stack := rest, slot := some v })
  | .take, v :: rest => (.ok (), { m with stack := rest, slot := some v })
  | .dup, v :: rest => (.ok (), { m with stack := v :: v :: rest })
  | .drop, _ :: rest => (.ok (), { m with stack := rest })
  | .swap, v :: w :: rest => (.ok (), { m with stack := w :: v :: rest })
  | .copyBelow, v :: w :: rest => (.ok (), { m with stack := w :: v :: w :: rest })
  | .clear, _ => (.ok (), { m with stack := [] })
  | .depth, stack =>
    (.ok (), m.place (.literal (Number.ofInteger stack.length)))
  | .dict, _ => (.ok (), m.print (String.intercalate ", " Word.dictionary))
  | .add, _ | .sub, _ | .mul, _ | .div, _ => m.arithmetic word catalog
  | _, _ => (.error .underflow, m)

def assignment? (token : String) : Option (String × String) :=
  match Text.cut? '=' token.toList with
  | some (c :: name, value) => some (String.ofList (c :: name), String.ofList value)
  | _ => none

def assign (name value : String) (catalog : Catalog) (m : Machine) :
    Except MachineFault Unit × Catalog :=
  match m.stack with
  | .item h :: _ =>
    match (catalog.get h).set name value with
    | .ok item => (.ok (), catalog.put h item)
    | .error e => (.error (.media e), catalog)
  | _ => (.error .noItem, catalog)

def enter (token : String) (catalog : Catalog) (m : Machine) :
    Except MachineFault Unit × Catalog × Machine :=
  if (Number.real? token.toList).isSome then (.ok (), catalog, m.place (.literal token))
  else match assignment? token with
  | some (name, value) =>
    let (r, catalog) := m.assign name value catalog
    (r, catalog, m)
  | none =>
    if Uri.isUri token.toList then
      match Uri.openItem token with
      | .error e => (.error (.media e), catalog, m)
      | .ok item =>
        let (h, catalog) := catalog.add item
        (.ok (), catalog, m.place (.item h))
    else (.ok (), catalog, m.place (.literal token))

def execute (token : String) (catalog : Catalog) (m : Machine) :
    Except MachineFault Unit × Catalog × Machine :=
  match Word.ofName? token with
  | some word =>
    let (r, m) := m.run word catalog
    (r, catalog, m)
  | none => m.enter token catalog

def faultOf : Except MachineFault Unit → Option MachineFault
  | .ok _ => none
  | .error e => some e

def push (token : String) (catalog : Catalog) (m : Machine) : Catalog × Machine :=
  let (r, catalog, m) := m.execute token catalog
  (catalog, { m with fault := faultOf r })

def pushValue (v : Value) (m : Machine) : Machine := { m.place v with fault := none }

def drain (m : Machine) : String × Machine := (m.printed, { m with printed := "" })

def takeSlot (m : Machine) : Option Value × Machine := (m.slot, { m with slot := none })

end Machine

end Playout.Stack
