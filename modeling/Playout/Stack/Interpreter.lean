import Playout.Stack.Machine

namespace Playout.Stack

open Media

structure Interpreter where
  machine : Machine := {}
  popWord : String := "."
  output : List String := []
  deriving Repr

namespace Interpreter

def write (text : String) (i : Interpreter) : Interpreter :=
  { i with output := i.output ++ if text = "" then [""] else Text.linesOf text }

def collect (i : Interpreter) : Interpreter :=
  let (text, machine) := i.machine.drain
  { i with machine, output := i.output ++ Text.linesOf text }

def check (token : String) (i : Interpreter) : Except Fault Unit :=
  match i.machine.fault with
  | none => .ok ()
  | some cause => .error (.command token (.machine cause))

def push (token : String) (catalog : Catalog) (i : Interpreter) :
    Except Fault Unit × Catalog × Interpreter :=
  let (catalog, machine) := i.machine.push token catalog
  let i := { i with machine }.collect
  (i.check token, catalog, i)

def pushValue (v : Value) (catalog : Catalog) (i : Interpreter) :
    Except Fault Unit × Interpreter :=
  let i := { i with machine := i.machine.pushValue v }.collect
  (i.check (v.text catalog), i)

def pop (catalog : Catalog) (i : Interpreter) : Except Fault Value × Catalog × Interpreter :=
  match i.push i.popWord catalog with
  | (.error e, catalog, i) => (.error e, catalog, i)
  | (.ok (), catalog, i) =>
    let (slot, machine) := i.machine.takeSlot
    let result := match slot with
      | some v => Except.ok v
      | none => .error (.command i.popWord .nothingToPop)
    (result, catalog, { i with machine })

def pushAll : List String → Catalog → Interpreter → Except Fault Unit × Catalog × Interpreter
  | [], catalog, i => (.ok (), catalog, i)
  | token :: rest, catalog, i =>
    match i.push token catalog with
    | (.error e, catalog, i) => (.error e, catalog, i)
    | (.ok (), catalog, i) => pushAll rest catalog i

def define (line : String) (catalog : Catalog) (i : Interpreter) :
    Except Fault Unit × Catalog × Interpreter :=
  match Token.ofLine line with
  | .error cause => (.error (.parse cause), catalog, i)
  | .ok tokens => i.pushAll tokens catalog

def takeOutput (i : Interpreter) : List String × Interpreter := (i.output, { i with output := [] })

def shown (i : Interpreter) : String :=
  "Interpreter \x7b pop_word: " ++ Text.Quoted.shown i.popWord ++ ", pending_output: " ++
    toString i.output.length ++ ", .. \x7d"

end Interpreter

end Playout.Stack
