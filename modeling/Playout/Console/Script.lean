import Playout.Console.Vocabulary

namespace Playout.Console

open Stack

def deepest : Nat := 16

inductive Handling where
  | handled
  | forwarded
  deriving DecidableEq, Repr

/-- One assignment to the first store; a value with "%s" takes what is on top of the stack. A store
without the property changes nothing. -/
def assignStore (given : String) : Act Unit := do
  match Text.cut? '=' given.toList with
  | none => Act.fail Word.store.name (.notAssignment given)
  | some (name, value) =>
    let value ←
      if Text.hasSlot value then do
        let v ← Act.pop
        pure (Text.fill (v.text (← Act.catalog)).toList value)
      else pure value
    Act.player fun p => (p.setStoreProperty (String.ofList name) (String.ofList value)).2

def orIdle {α : Type} (act : Act α) : Act α :=
  Act.ofRun fun desk =>
    match act.run desk with
    | (.error e, desk) => (.error e, { desk with console := { desk.console with pending := none } })
    | done => done

def defineWith (push : String → Act Unit) (line : String) : Act Unit :=
  orIdle do
    match Token.ofLine line with
    | .error cause => throw (.parse cause)
    | .ok tokens => tokens.forM push

def deeper {α : Type} (act : Act α) : Act α :=
  Act.ofRun fun desk =>
    let (r, after) :=
      act.run { desk with console := { desk.console with depth := desk.console.depth + 1 } }
    (r, { after with console := { after.console with depth := after.console.depth - 1 } })

def runScriptWith (push : String → Act Unit) (name : String) : Act Unit := do
  let desk ← get
  match desk.console.locate? desk.studio.files name with
  | none => Act.fail Word.includeScript.name (.notLocated name)
  | some path =>
    if deepest ≤ desk.console.depth then Act.fail Word.includeScript.name .nestedTooDeeply
    else
      match desk.studio.files.readText path with
      | .error cause => throw (.file cause)
      | .ok script => deeper ((Text.linesOf script).forM (defineWith push))

def feed (push : String → Act Unit) (pending : Pending) (token : String) : Act Unit :=
  match pending with
  | .script => runScriptWith push token
  | .assignments given =>
    if token = Word.play.name then given.forM assignStore
    else Act.await (.assignments (given ++ [token]))

def interpretWith (push : String → Act Unit) (token : String) : Act Handling := do
  let (pending, console) := (← get).console.cancelPending
  Act.console fun _ => console
  match pending with
  | some pending =>
    feed push pending token
    return .handled
  | none =>
    match console.meaning? token with
    | some (.word w) =>
      w.run push
      return .handled
    | some (.tokens tokens) =>
      tokens.forM push
      return .handled
    | none =>
      Act.forward token
      return .forwarded

/-- A token at a place where words may lie so many levels inside one another. Where they do not end
there is no answer; the outcome that says so is none that a word has by itself. -/
def interpretAt : Nat → String → Act Handling
  | 0, _ => throw .endless
  | levels + 1, token => interpretWith (fun t => discard (interpretAt levels t)) token

/-- Scripts nest up to their own limit with a word or two inside each, which is far less. -/
def levels : Nat := 10000

def interpret (token : String) : Act Handling := interpretAt levels token

def push (token : String) : Act Unit := discard (interpret token)

def define (line : String) : Act Unit := defineWith push line

def runScript (name : String) : Act Unit := runScriptWith push name

end Playout.Console
