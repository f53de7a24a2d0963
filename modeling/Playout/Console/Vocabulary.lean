import Playout.Console.Basic

namespace Playout.Console

open Media Stack

def helpLines (c : Console) : List String :=
  [String.intercalate ", " Stack.Word.dictionary, "", "Shell extensions:"] ++
    c.vocabulary.map fun e =>
      "  " ++ Text.column 12 e.name ++ " " ++ Text.column 22 e.usage ++ " " ++ e.description

def propsText (item : Item) : String :=
  "\x7b" ++
    String.intercalate "," (item.properties.map fun (name, value) =>
      Text.Quoted.json name ++ ":" ++ Text.Quoted.json value) ++
    "\x7d"

def writeItems (hs : List Handle) : Act Unit := do
  for h in hs do Act.write ((← Act.catalog).get h).render

def statusOf (desk : Desk) : List Int :=
  let deck := desk.studio.player.deck
  match deck.current with
  | some h => [(desk.studio.catalog.get h).frames, deck.position, deck.speed]
  | none => [0, 0, 0]

def seekNow (position : Int) : Act Unit :=
  Act.ofRun fun desk =>
    let (_, catalog, player) := desk.studio.player.seek position 0 desk.studio.catalog
    (.ok (), { desk with studio := { desk.studio with catalog, player } })

def applyReal (word : Word) (f : Float → Float) : Act Unit := do
  Act.pushText (Number.ofReal (f (← Act.popReal word.name)))

def Word.run (push : String → Act Unit) (word : Word) : Act Unit :=
  match word with
  | .play => do
    let v ← Act.pop
    let catalog ← Act.catalog
    match v with
    | .item h =>
      if 0 < (catalog.get h).frames then Act.deck (Deck.set h) else Act.write (v.render catalog)
    | .literal text => if text ≠ "" then Act.write text
  | .add => do
    let h ← Act.popItem word.name
    if 0 < ((← Act.catalog).get h).frames then Act.deck (Deck.add h)
  | .grab => do
    let index ← Act.popInteger word.name
    let (found, deck) := (← get).studio.player.deck.grab index
    Act.deck fun _ => deck
    match found with
    | some h => Act.push (.item h)
    | none => return
  | .insert => do
    let index ← Act.popInteger word.name
    let h ← Act.popItem word.name
    Act.deck (Deck.insert index h)
  | .next => Act.deck Deck.next
  | .prev => Act.deck Deck.prev
  | .seek => do seekNow (← Act.popInteger word.name)
  | .setSpeed => do
    let speed ← Act.popInteger word.name
    Act.deck (Deck.setSpeed speed)
  | .speed => do Act.pushText (Number.ofInteger (← get).studio.player.deck.speed)
  | .position => do Act.pushText (Number.ofInteger (← get).studio.player.deck.position)
  | .status => do
    (statusOf (← get)).forM fun n => Act.pushText (Number.ofInteger n)
    [".", ".", "."].forM push
  | .generation => do Act.pushText (Number.ofInteger (← get).studio.player.deck.generation)
  | .playing => do writeItems (← get).studio.player.deck.current.toList
  | .playlist => do writeItems (← get).studio.player.deck.playlist
  | .previous => do writeItems (← get).studio.player.deck.history
  | .render => do
    let v ← Act.pop
    Act.write (v.render (← Act.catalog))
    Act.push v
  | .props => do
    let h ← Act.popItem word.name
    Act.write (propsText ((← Act.catalog).get h))
    Act.push (.item h)
  | .clone => do
    let h ← Act.popItem word.name
    let item := (← Act.catalog).get h
    Act.push (.item h)
    push item.uri
    item.assignments.forM push
  | .store => Act.await (.assignments [])
  | .includeScript => Act.await .script
  | .help => do (helpLines (← get).console).forM Act.write
  | .logLevel => do
    let n ← Act.popInteger word.name
    match LogLevel.ofInt? n with
    | some level => modify fun desk => { desk with studio.logLevel := level }
    | none => Act.fail word.name (.noLogLevel n)
  | .server => do
    let port ← Act.popInteger word.name
    if 0 < port ∧ port < Number.portLimit then Act.signal (.startServer port.toNat)
    else Act.fail word.name (.invalidPort port)
  | .exit => Act.signal .exit
  | .pow => do
    let y ← Act.popReal word.name
    let x ← Act.popReal word.name
    Act.pushText (Number.ofReal (Float.pow x y))
  | .sin => applyReal word Float.sin
  | .cos => applyReal word Float.cos
  | .tan => applyReal word Float.tan

end Playout.Console
