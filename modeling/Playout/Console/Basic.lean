import Playout.Console.Word
import Playout.Files
import Playout.Player.Loop
import Playout.Stack.Interpreter
import Playout.Text.Blank

namespace Playout

open Media Stack

inductive LogLevel where
  | off
  | error
  | warn
  | info
  | debug
  | trace
  deriving DecidableEq, Repr

namespace LogLevel

def ofInt? : Int → Option LogLevel
  | 0 => some off
  | 1 => some error
  | 2 => some warn
  | 3 => some info
  | 4 => some debug
  | 5 => some trace
  | _ => none

def name : LogLevel → String
  | off => "OFF"
  | error => "ERROR"
  | warn => "WARN"
  | info => "INFO"
  | debug => "DEBUG"
  | trace => "TRACE"

end LogLevel

structure Studio where
  catalog : Catalog := {}
  player : Player := {}
  files : Files := {}
  logLevel : LogLevel := .trace

structure Console where
  interpreter : Interpreter := { popWord := "dot" }
  defined : List (String × List String) := []
  pending : Option Pending := none
  signals : List Signal := []
  includeDirs : List String := []
  depth : Nat := 0
  deriving Repr

structure Desk where
  studio : Studio
  console : Console

/-- What is done at a desk; a failure undoes nothing. -/
abbrev Act (α : Type) := ExceptT Fault (StateM Desk) α

namespace Console

inductive Meaning where
  | word (w : Word)
  | tokens (ts : List String)
  deriving DecidableEq, Repr

/-- A defined word comes before a word of the same name. -/
def meaning? (token : String) (c : Console) : Option Meaning :=
  match c.defined.find? (·.1 = token) with
  | some (_, tokens) => some (.tokens tokens)
  | none => (Word.ofName? token).map .word

def register (name : String) (tokens : List String) (c : Console) : Console :=
  { c with defined := (name, tokens) :: c.defined.filter (·.1 ≠ name) }

def vocabulary (c : Console) : List Entry :=
  let own := (Word.all.map Word.entry).filter fun e => !c.defined.any (·.1 = e.name)
  let more := c.defined.map fun (name, _) => ⟨name, "(?)", "macro"⟩
  (own ++ more).mergeSort fun a b => a.name ≤ b.name

def cancelPending (c : Console) : Option Pending × Console :=
  (c.pending, { c with pending := none })

def takeOutput (c : Console) : List String × Console :=
  let (lines, interpreter) := c.interpreter.takeOutput
  (lines, { c with interpreter })

def takeSignals (c : Console) : List Signal × Console := (c.signals, { c with signals := [] })

/-- Where a script is: as named, or in the first of the include directories that has it. -/
def locate? (files : Files) (name : String) (c : Console) : Option String :=
  if files.exists? name then some name
  else if name.startsWith "/" then none
  else (c.includeDirs.map (Files.join · name)).find? files.exists?

def shown (c : Console) : String :=
  "Dispatcher \x7b words: " ++ toString c.vocabulary.length ++ ", arg_state: " ++
    (c.pending.elim "Idle" fun p => "AwaitingArgument(" ++ p.shown ++ ")") ++ ", signals: " ++
    Signal.shownList c.signals ++ ", .. \x7d"

end Console

namespace Act

def run {α : Type} (act : Act α) (desk : Desk) : Except Fault α × Desk := ExceptT.run act desk

def ofRun {α : Type} (f : Desk → Except Fault α × Desk) : Act α := ExceptT.mk f

def console (f : Console → Console) : Act Unit :=
  modify fun desk => { desk with console := f desk.console }

def player (f : Player → Player) : Act Unit :=
  modify fun desk => { desk with studio.player := f desk.studio.player }

def deck (f : Deck → Deck) : Act Unit := player (Player.onDeck f)

def interpreter {α : Type} (f : Catalog → Interpreter → Except Fault α × Catalog × Interpreter) :
    Act α :=
  ofRun fun desk =>
    let (r, catalog, interpreter) := f desk.studio.catalog desk.console.interpreter
    (r, { studio := { desk.studio with catalog }, console := { desk.console with interpreter } })

def pop : Act Value := interpreter Interpreter.pop

def push (v : Value) : Act Unit :=
  interpreter fun catalog i =>
    let (r, i) := i.pushValue v catalog
    (r, catalog, i)

def pushText (text : String) : Act Unit := push (.literal text)

def forward (token : String) : Act Unit := interpreter (Interpreter.push token)

def write (text : String) : Act Unit :=
  console fun c => { c with interpreter := c.interpreter.write text }

def signal (s : Signal) : Act Unit := console fun c => { c with signals := c.signals ++ [s] }

def await (p : Pending) : Act Unit := console fun c => { c with pending := some p }

def catalog : Act Catalog := return (← get).studio.catalog

def fail {α : Type} (token : String) (cause : CommandFault) : Act α := throw (.command token cause)

def popReading {α : Type} (read : List Char → Option α) (word : String)
    (cause : String → CommandFault) : Act α := do
  let v ← pop
  let text := v.text (← catalog)
  match read (Text.trim text.toList) with
  | some a => return a
  | none => fail word (cause text)

def popInteger (word : String) : Act Int := popReading Number.integer? word .notInteger

def popReal (word : String) : Act Float := popReading Number.real? word .notNumber

def popItem (word : String) : Act Handle := do
  match ← pop with
  | .item h => return h
  | .literal text => fail word (.notItem text)

end Act

end Playout
