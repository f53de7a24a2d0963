import Playout.Console.Script

namespace Playout

namespace Act

variable {α β : Type} {R S : Desk → Desk → Prop}

theorem run_bind (act : Act α) (f : α → Act β) (d : Desk) :
    (act >>= f).run d =
      match act.run d with
      | (.ok a, d) => (f a).run d
      | (.error e, d) => (.error e, d) := by
  change ExceptT.run (act >>= f) d = match ExceptT.run act d with
    | (.ok a, d) => ExceptT.run (f a) d
    | (.error e, d) => (.error e, d)
  rw [ExceptT.run_bind]
  simp only [bind, StateT.bind]
  obtain ⟨r, d'⟩ := ExceptT.run act d
  cases r <;> rfl

theorem eq_ok_of_isOk {r : Except Fault Unit} (h : r.isOk = true) : r = .ok () := by
  cases r with
  | error fault => cases h
  | ok => rfl

theorem run_get_bind (f : Desk → Act β) (d : Desk) : (get >>= f).run d = (f d).run d := rfl

/-- At two desks the answer is the same, and the desks it leads to are in the relation. -/
def Agrees (R : Desk → Desk → Prop) (act : Act α) (d e : Desk) : Prop :=
  (act.run d).1 = (act.run e).1 ∧ R (act.run d).2 (act.run e).2

theorem Agrees.bind {act : Act α} {f : α → Act β} {d e : Desk} (h : Agrees R act d e)
    (hf : ∀ a, (act.run d).1 = .ok a → Agrees R (f a) (act.run d).2 (act.run e).2) :
    Agrees R (act >>= f) d e := by
  obtain ⟨hr, hs⟩ := h
  rw [Agrees, run_bind, run_bind]
  generalize act.run d = x at hr hs hf
  generalize act.run e = y at hr hs hf
  obtain ⟨r, d⟩ := x
  obtain ⟨r', e⟩ := y
  dsimp only at hr hs hf
  subst hr
  cases r with
  | error fault => exact ⟨rfl, hs⟩
  | ok a => exact hf a rfl

def Within (P : Desk → Prop) (d e : Desk) : Prop := d = e ∧ P d

/-- Desks in the relation get the same answer and come to desks in it. -/
def Respects (R : Desk → Desk → Prop) (act : Act α) : Prop :=
  ∀ ⦃d e⦄, R d e → Agrees R act d e

namespace Respects

theorem pure (a : α) : Respects R (Pure.pure a : Act α) := fun _ _ h => ⟨rfl, h⟩

theorem fail (token : String) (cause : CommandFault) : Respects R (Act.fail token cause : Act α) :=
  fun _ _ h => ⟨rfl, h⟩

theorem throw (fault : Fault) : Respects R (throw fault : Act α) := fun _ _ h => ⟨rfl, h⟩

theorem bind {act : Act α} {f : α → Act β} (ha : Respects R act) (hf : ∀ a, Respects R (f a)) :
    Respects R (act >>= f) :=
  fun _ _ h => (ha h).bind fun a _ => hf a (ha h).2

theorem map {act : Act α} (ha : Respects R act) (f : α → β) : Respects R (f <$> act) :=
  ha.bind fun a => pure (f a)

theorem look {f : Desk → Act α} (hf : ∀ d, Respects R (f d)) (h : ∀ ⦃d e⦄, R d e → f d = f e) :
    Respects R (get >>= f) := by
  intro d e hd
  have := hf d hd
  rw [Agrees, run_get_bind, run_get_bind]
  rwa [← h hd]

theorem modify {f : Desk → Desk} (h : ∀ ⦃d e⦄, R d e → R (f d) (f e)) :
    Respects R (modify f : Act Unit) := fun _ _ hd => ⟨rfl, h hd⟩

theorem forM_of_mem {f : α → Act Unit} {as : List α} (hf : ∀ a ∈ as, Respects R (f a)) :
    Respects R (as.forM f) := by
  induction as with
  | nil => exact pure ()
  | cons a as ih => exact (hf a (by simp)).bind fun _ => ih fun b hb => hf b (by simp [hb])

theorem forM {f : α → Act Unit} (hf : ∀ a, Respects R (f a)) (as : List α) :
    Respects R (as.forM f) := forM_of_mem fun a _ => hf a

theorem of_keeps {P : Desk → Prop} {act : Act α} (h : ∀ d, P d → P (act.run d).2) :
    Respects (Within P) act := by
  rintro d e ⟨rfl, hd⟩
  exact ⟨rfl, rfl, h d hd⟩

theorem keeps {P : Desk → Prop} {act : Act α} (h : Respects (Within P) act) {d : Desk} (hd : P d) :
    P (act.run d).2 := (h ⟨rfl, hd⟩).2.2

end Respects

end Act

namespace Console

open Act Stack

def idle (c : Console) : Console := { c with pending := none }

theorem run_catalog (d : Desk) : Act.catalog.run d = (.ok d.studio.catalog, d) := rfl

theorem run_seekNow (position : Int) (d : Desk) :
    (seekNow position).run d =
      (.ok (), { d with studio := { d.studio with
        catalog := (d.studio.player.seek position 0 d.studio.catalog).2.1
        player := (d.studio.player.seek position 0 d.studio.catalog).2.2 } }) := rfl

theorem run_orIdle {α : Type} (act : Act α) (d : Desk) :
    (orIdle act).run d =
      match act.run d with
      | (.error e, d) => (.error e, { d with console := d.console.idle })
      | done => done := rfl

theorem writeItems_eq (hs : List Media.Handle) :
    writeItems hs = hs.forM fun handle =>
      Act.catalog >>= fun catalog => Act.write (catalog.get handle).render := by
  induction hs with
  | nil => rfl
  | cons handle hs ih =>
      rw [List.forM_eq_forM] at ih ⊢
      rw [List.forM_cons, ← ih, writeItems, List.forIn_cons]
      simp only [bind_assoc, pure_bind]
      rfl

def dispatch (push : String → Act Unit) (pending : Option Pending) (meaning : Option Meaning)
    (token : String) : Act Handling :=
  match pending with
  | some p => do
    feed push p token
    return .handled
  | none =>
    match meaning with
    | some (.word w) => do
      w.run push
      return .handled
    | some (.tokens tokens) => do
      tokens.forM push
      return .handled
    | none => do
      Act.forward token
      return .forwarded

theorem run_interpretWith (push : String → Act Unit) (token : String) (d : Desk) :
    (interpretWith push token).run d =
      (dispatch push d.console.pending (d.console.meaning? token) token).run
        { d with console := d.console.idle } := rfl

/-- How a token is pushed where words may still lie so many levels inside one another. -/
def pushAt (n : Nat) (token : String) : Act Unit := discard (interpretAt n token)

def pushWithin (token : String) : Act Unit := discard (interpretAt (levels - 1) token)

theorem run_pushAt (n : Nat) (token : String) (d : Desk) :
    (pushAt (n + 1) token).run d =
      match (interpretWith (pushAt n) token).run d with
      | (.ok _, d) => (.ok (), d)
      | (.error e, d) => (.error e, d) := by
  have hr : (pushAt (n + 1) token).run d = Act.run (do
      let _ ← interpretWith (pushAt n) token
      pure ()) d := rfl
  rw [hr, run_bind]
  obtain ⟨_ | _, _⟩ := (interpretWith (pushAt n) token).run d <;> rfl

theorem idle_eq {d : Desk} (h : d.console.pending = none) :
    { d with console := d.console.idle } = d := by
  rw [Console.idle, ← h]

section Push

variable {token : String} {d : Desk}

theorem run_pushAt_forward (n : Nat) (hp : d.console.pending = none)
    (hm : d.console.meaning? token = none) :
    (pushAt (n + 1) token).run d = (Act.forward token).run d := by
  rw [run_pushAt, run_interpretWith, hp, hm, idle_eq hp]
  dsimp only [dispatch]
  rw [run_bind]
  obtain ⟨_ | _, _⟩ := (Act.forward token).run d <;> rfl

theorem run_pushAt_word (n : Nat) {w : Console.Word} (hp : d.console.pending = none)
    (hm : d.console.meaning? token = some (.word w)) :
    (pushAt (n + 1) token).run d = (w.run (pushAt n)).run d := by
  rw [run_pushAt, run_interpretWith, hp, hm, idle_eq hp]
  dsimp only [dispatch]
  rw [run_bind]
  obtain ⟨_ | _, _⟩ := (w.run (pushAt n)).run d <;> rfl

theorem run_pushAt_waiting (n : Nat) {p : Pending} (hp : d.console.pending = some p) :
    (pushAt (n + 1) token).run d =
      (feed (pushAt n) p token).run { d with console := d.console.idle } := by
  rw [run_pushAt, run_interpretWith, hp]
  dsimp only [dispatch]
  rw [run_bind]
  obtain ⟨_ | _, _⟩ := (feed (pushAt n) p token).run { d with console := d.console.idle } <;> rfl

theorem run_push_word {w : Console.Word} (hp : d.console.pending = none)
    (hm : d.console.meaning? token = some (.word w)) :
    (Console.push token).run d = (w.run pushWithin).run d :=
  run_pushAt_word (levels - 1) hp hm

theorem run_push_waiting {p : Pending} (hp : d.console.pending = some p) :
    (Console.push token).run d =
      (feed pushWithin p token).run { d with console := d.console.idle } :=
  run_pushAt_waiting (levels - 1) hp

end Push

namespace Word

def transports : Word → Bool
  | play | add | grab | insert | next | prev | seek | setSpeed => true
  | _ => false

def pushes : Word → Bool
  | clone | status => true
  | _ => false

def awaits : Word → Bool
  | store | includeScript => true
  | _ => false

def signals : Word → Bool
  | exit | server => true
  | _ => false

end Word

/-- What every word needs of a relation. -/
structure Footing (R : Desk → Desk → Prop) : Prop where
  studio : ∀ {d e}, R d e → d.studio = e.studio
  defined : ∀ {d e}, R d e → d.console.defined = e.console.defined
  logLevel : ∀ level,
    Respects R (modify fun d => { d with studio.logLevel := level } : Act Unit)
  write : ∀ text, Respects R (Act.write text)
  push : ∀ v, Respects R (Act.push v)
  pop : Respects R Act.pop

namespace Footing

variable {R : Desk → Desk → Prop} (h : Footing R)

include h

theorem look {α : Type} {f : Desk → Act α} (hf : ∀ d, Respects R (f d))
    (hs : ∀ d e : Desk, d.studio = e.studio → f d = f e) : Respects R (get >>= f) :=
  .look hf fun d e hd => hs d e (h.studio hd)

theorem catalog : Respects R Act.catalog :=
  h.look (fun _ => .pure _) fun _ _ hs => by rw [hs]

theorem pushText (text : String) : Respects R (Act.pushText text) := h.push _

theorem popReading {α : Type} (read : List Char → Option α) (word : String)
    (cause : String → CommandFault) : Respects R (Act.popReading read word cause) := by
  refine h.pop.bind fun v => h.catalog.bind fun catalog => ?_
  dsimp only
  split
  · exact .pure _
  · exact .fail _ _

theorem popInteger (word : String) : Respects R (Act.popInteger word) := h.popReading _ _ _

theorem popReal (word : String) : Respects R (Act.popReal word) := h.popReading _ _ _

theorem popItem (word : String) : Respects R (Act.popItem word) := by
  refine h.pop.bind fun v => ?_
  cases v with
  | item handle => exact .pure _
  | literal text => exact .fail _ _

theorem writeItems (hs : List Media.Handle) : Respects R (Console.writeItems hs) := by
  rw [writeItems_eq]
  exact .forM (fun handle => h.catalog.bind fun catalog => h.write _) hs

theorem word {push : String → Act Unit} {w : Word}
    (hpush : w.pushes = true → ∀ token, Respects R (push token))
    (hplayer : w.transports = true → ∀ f, Respects R (Act.player f))
    (hseek : w.transports = true → ∀ position, Respects R (Console.seekNow position))
    (hawait : w.awaits = true → ∀ p, Respects R (Act.await p))
    (hsignal : w.signals = true → ∀ s, Respects R (Act.signal s)) : Respects R (w.run push) := by
  cases w with
  | play =>
      refine h.pop.bind fun v => h.catalog.bind fun catalog => ?_
      cases v with
      | item handle =>
          dsimp only
          split
          · exact hplayer rfl _
          · exact h.write _
      | literal text =>
          dsimp only
          split
          · exact h.write _
          · exact .pure _
  | add =>
      refine (h.popItem _).bind fun handle => h.catalog.bind fun catalog => ?_
      split
      · exact hplayer rfl _
      · exact .pure _
  | grab =>
      refine (h.popInteger _).bind fun index => h.look (fun d => ?_) fun d e hs => by rw [hs]
      refine (hplayer rfl _).bind fun _ => ?_
      split
      · exact h.push _
      · exact .pure _
  | insert =>
      exact (h.popInteger _).bind fun index => (h.popItem _).bind fun handle => hplayer rfl _
  | next | prev => exact hplayer rfl _
  | seek => exact (h.popInteger _).bind fun position => hseek rfl position
  | setSpeed => exact (h.popInteger _).bind fun speed => hplayer rfl _
  | speed | position | generation =>
      exact h.look (fun _ => h.pushText _) fun d e hs => by rw [hs]
  | status =>
      refine h.look (fun d => ?_) fun d e hs => by rw [statusOf, statusOf, hs]
      exact (Respects.forM (fun n => h.pushText _) _).bind fun _ => .forM (hpush rfl) _
  | playing | playlist | previous =>
      exact h.look (fun _ => h.writeItems _) fun d e hs => by rw [hs]
  | render =>
      exact h.pop.bind fun v => h.catalog.bind fun catalog =>
        (h.write _).bind fun _ => h.push v
  | props =>
      exact (h.popItem _).bind fun handle => h.catalog.bind fun catalog =>
        (h.write _).bind fun _ => h.push _
  | clone =>
      exact (h.popItem _).bind fun handle => h.catalog.bind fun catalog =>
        (h.push _).bind fun _ => (hpush rfl _).bind fun _ => .forM (hpush rfl) _
  | store | includeScript => exact hawait rfl _
  | help =>
      refine .look (fun d => .forM (fun text => h.write text) _) fun d e hd => ?_
      rw [helpLines, helpLines, vocabulary, vocabulary, h.defined hd]
  | logLevel =>
      refine (h.popInteger _).bind fun n => ?_
      split
      · exact h.logLevel _
      · exact .fail _ _
  | server =>
      refine (h.popInteger _).bind fun port => ?_
      split
      · exact hsignal rfl _
      · exact .fail _ _
  | exit => exact hsignal rfl _
  | pow =>
      exact (h.popReal _).bind fun y => (h.popReal _).bind fun x => h.pushText _
  | sin | cos | tan => exact (h.popReal _).bind fun x => h.pushText _

end Footing

variable {ι : Type}

/-- A relation that the basic acts keep and that shows in nothing a console reads of its desk. A
script runs one level further in, where the relation is that of another index. -/
structure Lockstep (R : ι → Desk → Desk → Prop) (inner : ι → ι) : Prop where
  studio : ∀ {i d e}, R i d e → d.studio = e.studio
  defined : ∀ {i d e}, R i d e → d.console.defined = e.console.defined
  pending : ∀ {i d e}, R i d e → d.console.pending = e.console.pending
  includeDirs : ∀ {i d e}, R i d e → d.console.includeDirs = e.console.includeDirs
  depth : ∀ {i d e}, R i d e → d.console.depth = e.console.depth
  place : ∀ {i d e}, R i d e → ∀ studio, R i { d with studio } { e with studio }
  await : ∀ {i d e}, R i d e → ∀ pending,
    R i { d with console := { d.console with pending } } { e with console := { e.console with pending } }
  signal : ∀ i s, Respects (R i) (Act.signal s)
  write : ∀ i text, Respects (R i) (Act.write text)
  forward : ∀ i token, Respects (R i) (Act.forward token)
  push : ∀ i v, Respects (R i) (Act.push v)
  pop : ∀ i, Respects (R i) Act.pop
  enter : ∀ {i d e}, R i d e →
    R (inner i) { d with console := { d.console with depth := d.console.depth + 1 } }
      { e with console := { e.console with depth := e.console.depth + 1 } }
  leave : ∀ {i d e}, R (inner i) d e →
    R i { d with console := { d.console with depth := d.console.depth - 1 } }
      { e with console := { e.console with depth := e.console.depth - 1 } }

namespace Lockstep

variable {R : ι → Desk → Desk → Prop} {inner : ι → ι} (h : Lockstep R inner) (i : ι)

include h

theorem onStudio (f : Studio → Studio) :
    Respects (R i) (modify fun d => { d with studio := f d.studio } : Act Unit) := by
  refine .modify fun d e hd => ?_
  have := h.place hd (f d.studio)
  rwa [← h.studio hd]

theorem footing : Footing (R i) where
  studio := h.studio
  defined := h.defined
  logLevel level := h.onStudio i fun studio => { studio with logLevel := level }
  write := h.write i
  push := h.push i
  pop := h.pop i

theorem player (f : Player → Player) : Respects (R i) (Act.player f) :=
  h.onStudio i fun studio => { studio with player := f studio.player }

theorem awaits (p : Pending) : Respects (R i) (Act.await p) := .modify fun _ _ hd => h.await hd (some p)

theorem seekNow (position : Int) : Respects (R i) (Console.seekNow position) := by
  intro d e hd
  rw [Agrees, run_seekNow, run_seekNow, ← h.studio hd]
  exact ⟨rfl, h.place hd _⟩

theorem word {push : String → Act Unit} (hp : ∀ token, Respects (R i) (push token)) (w : Word) :
    Respects (R i) (w.run push) :=
  (h.footing i).word (fun _ => hp) (fun _ => h.player i) (fun _ => h.seekNow i)
    (fun _ => h.awaits i) fun _ => h.signal i

theorem assignStore (given : String) : Respects (R i) (Console.assignStore given) := by
  rw [Console.assignStore]
  split
  · exact .fail _ _
  · dsimp only
    split
    · exact (h.pop i).bind fun v => (h.footing i).catalog.bind fun catalog =>
        (Respects.pure _).bind fun value => h.player i _
    · exact (Respects.pure _).bind fun value => h.player i _

theorem orIdle {α : Type} {act : Act α} (ha : Respects (R i) act) :
    Respects (R i) (Console.orIdle act) := by
  intro d e hd
  obtain ⟨hr, hs⟩ := ha hd
  rw [Agrees, run_orIdle, run_orIdle]
  generalize act.run d = x at hr hs
  generalize act.run e = y at hr hs
  obtain ⟨r, d⟩ := x
  obtain ⟨r', e⟩ := y
  dsimp only at hr hs
  subst hr
  cases r with
  | error fault => exact ⟨rfl, h.await hs none⟩
  | ok a => exact ⟨rfl, hs⟩

theorem defineWith {push : String → Act Unit} (hp : ∀ token, Respects (R i) (push token))
    (line : String) : Respects (R i) (Console.defineWith push line) := by
  refine h.orIdle i ?_
  split
  · exact .throw _
  · exact .forM hp _

theorem deeper {α : Type} {act : Act α} (ha : Respects (R (inner i)) act) :
    Respects (R i) (Console.deeper act) := by
  intro d e hd
  obtain ⟨hr, hs⟩ := ha (h.enter hd)
  exact ⟨hr, h.leave hs⟩

theorem runScriptWith {push : String → Act Unit} (hp : ∀ i token, Respects (R i) (push token))
    (name : String) : Respects (R i) (Console.runScriptWith push name) := by
  refine .look (fun d => ?_) fun d e hd => ?_
  · split
    · exact .fail _ _
    · split
      · exact .fail _ _
      · split
        · exact .throw _
        · exact h.deeper i (.forM (h.defineWith _ (hp _)) _)
  · rw [locate?, locate?, h.studio hd, h.includeDirs hd, h.depth hd]

theorem feed {push : String → Act Unit} (hp : ∀ i token, Respects (R i) (push token))
    (p : Pending) (token : String) : Respects (R i) (Console.feed push p token) := by
  cases p with
  | script => exact h.runScriptWith i hp token
  | assignments given =>
      rw [Console.feed]
      split
      · exact .forM (h.assignStore i) _
      · exact h.awaits i _

theorem interpretWith {push : String → Act Unit} (hp : ∀ i token, Respects (R i) (push token))
    (token : String) : Respects (R i) (Console.interpretWith push token) := by
  intro d e hd
  rw [Agrees, run_interpretWith, run_interpretWith, ← h.pending hd, meaning?, meaning?,
    ← h.defined hd]
  have hi := h.await hd none
  unfold dispatch
  split
  · exact ((h.feed i hp _ token).bind fun _ => .pure _) hi
  · split
    · exact ((h.word i (hp i) _).bind fun _ => .pure _) hi
    · exact ((Respects.forM (hp i) _).bind fun _ => .pure _) hi
    · exact ((h.forward i token).bind fun _ => .pure _) hi

theorem interpretAt (n : Nat) (token : String) :
    Respects (R i) (Console.interpretAt n token) := by
  induction n generalizing i token with
  | zero => exact .throw _
  | succ n ih => exact h.interpretWith i (fun i token => (ih i token).map _) token

theorem push_token (token : String) : Respects (R i) (Console.push token) :=
  (h.interpretAt i levels token).map _

theorem define (line : String) : Respects (R i) (Console.define line) :=
  h.defineWith i (h.push_token i) line

end Lockstep

/-- An invariant that the basic acts keep, of which neither the studio is a part nor what the console
waits for and how deep its scripts lie. -/
theorem Lockstep.within {P : Desk → Prop}
    (around : ∀ {d : Desk}, P d → ∀ studio pending depth,
      P { studio, console := { d.console with pending, depth } })
    (signal : ∀ s, Respects (Within P) (Act.signal s))
    (write : ∀ text, Respects (Within P) (Act.write text))
    (forward : ∀ token, Respects (Within P) (Act.forward token))
    (push : ∀ v, Respects (Within P) (Act.push v)) (pop : Respects (Within P) Act.pop) :
    Lockstep (fun _ : Unit => Within P) id where
  studio h := by rw [h.1]
  defined h := by rw [h.1]
  pending h := by rw [h.1]
  includeDirs h := by rw [h.1]
  depth h := by rw [h.1]
  place := by
    rintro _ d e ⟨rfl, h⟩ studio
    exact ⟨rfl, around h studio d.console.pending d.console.depth⟩
  await := by
    rintro _ d e ⟨rfl, h⟩ pending
    exact ⟨rfl, around h d.studio pending d.console.depth⟩
  signal _ := signal
  write _ := write
  forward _ := forward
  push _ := push
  pop _ := pop
  enter := by
    rintro _ d e ⟨rfl, h⟩
    exact ⟨rfl, around h d.studio d.console.pending (d.console.depth + 1)⟩
  leave := by
    rintro _ d e ⟨rfl, h⟩
    exact ⟨rfl, around h d.studio d.console.pending (d.console.depth - 1)⟩

end Console

end Playout
