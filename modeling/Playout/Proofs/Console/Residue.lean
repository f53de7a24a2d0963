import Playout.Proofs.Console.Lockstep

namespace Playout

open Media

namespace Stack

/-- Machines that differ in nothing but the value taken off last and how the last token went. -/
structure Machine.Alike (m n : Machine) : Prop where
  stack : m.stack = n.stack
  printed : m.printed = n.printed

namespace Machine.Alike

variable {m n : Machine} (h : m.Alike n) (catalog : Catalog)

include h

theorem number :
    (m.number catalog).1 = (n.number catalog).1 ∧
      (m.number catalog).2.Alike (n.number catalog).2 := by
  obtain ⟨stack, slot, printed, fault⟩ := m
  obtain ⟨stack', slot', printed', fault'⟩ := n
  obtain ⟨rfl, rfl⟩ : stack = stack' ∧ printed = printed' := ⟨h.stack, h.printed⟩
  cases stack with
  | nil => exact ⟨rfl, rfl, rfl⟩
  | cons v stack => exact ⟨rfl, rfl, rfl⟩

theorem place (v : Value) : (m.place v).Alike (n.place v) :=
  ⟨congrArg (v :: ·) h.stack, h.printed⟩

theorem arithmetic (word : Word) :
    (m.arithmetic word catalog).1 = (n.arithmetic word catalog).1 ∧
      (m.arithmetic word catalog).2.Alike (n.arithmetic word catalog).2 := by
  rw [Machine.arithmetic, Machine.arithmetic]
  obtain ⟨hr, hs⟩ := h.number catalog
  generalize m.number catalog = x at hr hs
  generalize n.number catalog = y at hr hs
  obtain ⟨r, m'⟩ := x
  obtain ⟨r', n'⟩ := y
  dsimp only at hr hs
  subst hr
  cases r with
  | error e => exact ⟨rfl, hs⟩
  | ok y =>
      obtain ⟨hr, hs⟩ := hs.number catalog
      dsimp only
      generalize m'.number catalog = x at hr hs
      generalize n'.number catalog = y at hr hs
      obtain ⟨r, m''⟩ := x
      obtain ⟨r', n''⟩ := y
      dsimp only at hr hs
      subst hr
      cases r with
      | error e => exact ⟨rfl, hs⟩
      | ok x =>
          dsimp only
          cases calculate word x y with
          | error e => exact ⟨rfl, hs⟩
          | ok z => exact ⟨rfl, hs.place _⟩

theorem run (word : Word) :
    (m.run word catalog).1 = (n.run word catalog).1 ∧
      (m.run word catalog).2.Alike (n.run word catalog).2 := by
  have ha := h.arithmetic catalog word
  obtain ⟨stack, slot, printed, fault⟩ := m
  obtain ⟨stack', slot', printed', fault'⟩ := n
  obtain ⟨rfl, rfl⟩ : stack = stack' ∧ printed = printed' := ⟨h.stack, h.printed⟩
  cases word with
  | print | take | dup | drop => cases stack <;> exact ⟨rfl, rfl, rfl⟩
  | swap | copyBelow => rcases stack with _ | ⟨v, _ | ⟨w, stack⟩⟩ <;> exact ⟨rfl, rfl, rfl⟩
  | clear | depth | dict => exact ⟨rfl, rfl, rfl⟩
  | add | sub | mul | div => exact ha

theorem assign (name value : String) : m.assign name value catalog = n.assign name value catalog := by
  rw [Machine.assign, Machine.assign, h.stack]

theorem enter (token : String) :
    (m.enter token catalog).1 = (n.enter token catalog).1 ∧
      (m.enter token catalog).2.1 = (n.enter token catalog).2.1 ∧
      (m.enter token catalog).2.2.Alike (n.enter token catalog).2.2 := by
  rw [Machine.enter, Machine.enter]
  split
  · exact ⟨rfl, rfl, h.place _⟩
  · split
    · rw [h.assign]
      exact ⟨rfl, rfl, h⟩
    · split
      · split
        · exact ⟨rfl, rfl, h⟩
        · exact ⟨rfl, rfl, h.place _⟩
      · exact ⟨rfl, rfl, h.place _⟩

theorem execute (token : String) :
    (m.execute token catalog).1 = (n.execute token catalog).1 ∧
      (m.execute token catalog).2.1 = (n.execute token catalog).2.1 ∧
      (m.execute token catalog).2.2.Alike (n.execute token catalog).2.2 := by
  rw [Machine.execute, Machine.execute]
  split
  · obtain ⟨hr, hs⟩ := h.run catalog _
    exact ⟨hr, rfl, hs⟩
  · exact h.enter catalog token

theorem push (token : String) :
    (m.push token catalog).1 = (n.push token catalog).1 ∧
      (m.push token catalog).2.fault = (n.push token catalog).2.fault ∧
      (m.push token catalog).2.Alike (n.push token catalog).2 := by
  obtain ⟨hr, hc, hs⟩ := h.execute catalog token
  exact ⟨hc, congrArg faultOf hr, hs.stack, hs.printed⟩

end Machine.Alike

/-- A token that is neither a word nor an assignment is entered whatever is on the stack. -/
theorem Machine.enter_of_not_assignment {token : String} (ht : assignment? token = none)
    (catalog : Catalog) (m n : Machine) :
    (m.enter token catalog).1 = (n.enter token catalog).1 ∧
      (m.enter token catalog).2.1 = (n.enter token catalog).2.1 ∧
      ((m.enter token catalog).1 = .ok () → ∃ v,
        (m.enter token catalog).2.2.stack.head? = some v ∧
        (n.enter token catalog).2.2.stack.head? = some v) := by
  rw [enter, enter, ht]
  split
  · exact ⟨rfl, rfl, fun _ => ⟨_, rfl, rfl⟩⟩
  · dsimp only
    split
    · split
      · exact ⟨rfl, rfl, fun h => by simp at h⟩
      · exact ⟨rfl, rfl, fun _ => ⟨_, rfl, rfl⟩⟩
    · exact ⟨rfl, rfl, fun _ => ⟨_, rfl, rfl⟩⟩

/-- Nor does it matter for any token that is no word what is below the top. -/
theorem Machine.enter_of_head {m n : Machine} (h : ∃ v, m.stack.head? = some v ∧ n.stack.head? = some v)
    (token : String) (catalog : Catalog) :
    (m.enter token catalog).1 = (n.enter token catalog).1 ∧
      (m.enter token catalog).2.1 = (n.enter token catalog).2.1 ∧
      ∃ v, (m.enter token catalog).2.2.stack.head? = some v ∧
        (n.enter token catalog).2.2.stack.head? = some v := by
  have ha (name value : String) : m.assign name value catalog = n.assign name value catalog := by
    obtain ⟨v, hm, hn⟩ := h
    obtain ⟨stack, hm⟩ := List.head?_eq_some_iff.1 hm
    obtain ⟨stack', hn⟩ := List.head?_eq_some_iff.1 hn
    rw [assign, assign, hm, hn]
    cases v <;> rfl
  rw [enter, enter]
  split
  · exact ⟨rfl, rfl, _, rfl, rfl⟩
  · split
    · rw [ha]
      exact ⟨rfl, rfl, h⟩
    · split
      · split
        · exact ⟨rfl, rfl, h⟩
        · exact ⟨rfl, rfl, _, rfl, rfl⟩
      · exact ⟨rfl, rfl, _, rfl, rfl⟩

structure Interpreter.Alike (i j : Interpreter) : Prop where
  stack : i.machine.stack = j.machine.stack
  printed : i.machine.printed = "" ∧ j.machine.printed = ""
  output : i.output = j.output
  popWord : i.popWord = "dot" ∧ j.popWord = "dot"

theorem linesOf_empty : Text.linesOf "" = [] := by decide

theorem Interpreter.collect_eq_self {i : Interpreter} (h : i.machine.printed = "") :
    i.collect = i := by
  obtain ⟨⟨stack, slot, printed, fault⟩, popWord, output⟩ := i
  obtain rfl : printed = "" := h
  simp [collect, Machine.drain, linesOf_empty]

theorem Interpreter.pop_eq {i : Interpreter} (hw : i.popWord = "dot") (hp : i.machine.printed = "")
    (catalog : Catalog) :
    i.pop catalog =
      match i.machine.stack with
      | [] => (.error (.command "dot" (.machine .underflow)), catalog,
          { i with machine := { i.machine with fault := some .underflow } })
      | v :: stack => (.ok v, catalog, { i with machine := { stack } }) := by
  obtain ⟨⟨stack, slot, printed, fault⟩, popWord, output⟩ := i
  obtain ⟨rfl, rfl⟩ : popWord = "dot" ∧ printed = "" := ⟨hw, hp⟩
  have ht : Word.ofName? "dot" = some .take := by decide
  simp only [pop, push, Machine.push, Machine.execute, ht, collect]
  cases stack <;>
    simp [Machine.run, Machine.faultOf, Machine.drain, Machine.takeSlot, check, linesOf_empty]

theorem Interpreter.settled_pop {i : Interpreter} (hw : i.popWord = "dot")
    (hp : i.machine.printed = "") (catalog : Catalog) :
    (i.pop catalog).2.2.popWord = "dot" ∧ (i.pop catalog).2.2.machine.printed = "" := by
  rw [pop_eq hw hp]
  cases i.machine.stack with
  | nil => exact ⟨hw, hp⟩
  | cons v stack => exact ⟨hw, rfl⟩

namespace Interpreter.Alike

variable {i j : Interpreter} (h : i.Alike j)

include h

theorem machine : i.machine.Alike j.machine := ⟨h.stack, h.printed.1.trans h.printed.2.symm⟩

theorem write (text : String) : (i.write text).Alike (j.write text) where
  stack := h.stack
  printed := h.printed
  output := by rw [Interpreter.write, Interpreter.write, h.output]
  popWord := h.popWord

theorem collect {m n : Machine} (hm : m.Alike n) :
    ({ i with machine := m } : Interpreter).collect.Alike
      ({ j with machine := n } : Interpreter).collect where
  stack := hm.stack
  printed := ⟨rfl, rfl⟩
  output := by simp [Interpreter.collect, Machine.drain, hm.printed, h.output]
  popWord := h.popWord

theorem push (token : String) (catalog : Catalog) :
    (i.push token catalog).1 = (j.push token catalog).1 ∧
      (i.push token catalog).2.1 = (j.push token catalog).2.1 ∧
      (i.push token catalog).2.2.Alike (j.push token catalog).2.2 := by
  obtain ⟨hc, hf, hm⟩ := h.machine.push catalog token
  refine ⟨?_, hc, h.collect hm⟩
  simp only [Interpreter.push, check, Interpreter.collect, Machine.drain, hf]

theorem pushValue (v : Value) (catalog : Catalog) :
    (i.pushValue v catalog).1 = (j.pushValue v catalog).1 ∧
      (i.pushValue v catalog).2.Alike (j.pushValue v catalog).2 := by
  refine ⟨rfl, h.collect ?_⟩
  exact ⟨(h.machine.place v).stack, h.machine.printed⟩

theorem pop (catalog : Catalog) :
    (i.pop catalog).1 = (j.pop catalog).1 ∧ (i.pop catalog).2.1 = (j.pop catalog).2.1 ∧
      (i.pop catalog).2.2.Alike (j.pop catalog).2.2 := by
  rw [pop_eq h.popWord.1 h.printed.1, pop_eq h.popWord.2 h.printed.2, h.stack]
  cases j.machine.stack with
  | nil => exact ⟨rfl, rfl, h.stack, h.printed, h.output, h.popWord⟩
  | cons v stack => exact ⟨rfl, rfl, rfl, ⟨rfl, rfl⟩, h.output, h.popWord⟩

end Interpreter.Alike

end Stack

namespace Console

open Act Stack

/-- The consoles have no words beside those they began with, and nothing but what the last token left
on their machines tells them apart. -/
structure AlikeAt (dirs : List String) (depth : Nat) (d e : Desk) : Prop where
  studio : d.studio = e.studio
  interpreter : d.console.interpreter.Alike e.console.interpreter
  pending : d.console.pending = e.console.pending
  signals : d.console.signals = e.console.signals
  defined : d.console.defined = [] ∧ e.console.defined = []
  includeDirs : d.console.includeDirs = dirs ∧ e.console.includeDirs = dirs
  depth : d.console.depth = depth ∧ e.console.depth = depth

theorem run_interpreter {α : Type}
    (f : Catalog → Interpreter → Except Fault α × Catalog × Interpreter) (d : Desk) :
    (Act.interpreter f).run d =
      ((f d.studio.catalog d.console.interpreter).1,
        { studio := { d.studio with catalog := (f d.studio.catalog d.console.interpreter).2.1 }
          console := { d.console with
            interpreter := (f d.studio.catalog d.console.interpreter).2.2 } }) := rfl

theorem run_pop_eq {d : Desk} (hw : d.console.interpreter.popWord = "dot")
    (hp : d.console.interpreter.machine.printed = "") :
    Act.pop.run d =
      match d.console.interpreter.machine.stack with
      | [] => (.error (.command "dot" (.machine .underflow)),
          { d with console.interpreter.machine.fault := some .underflow })
      | v :: stack => (.ok v, { d with console.interpreter.machine := { stack } }) := by
  rw [Act.pop, run_interpreter, Interpreter.pop_eq hw hp]
  cases d.console.interpreter.machine.stack <;> rfl

theorem respects_interpreter {α : Type} {f : Catalog → Interpreter → Except Fault α × Catalog × Interpreter}
    (hf : ∀ catalog {i j : Interpreter}, i.Alike j → (f catalog i).1 = (f catalog j).1 ∧
      (f catalog i).2.1 = (f catalog j).2.1 ∧ (f catalog i).2.2.Alike (f catalog j).2.2)
    (dirs : List String) (depth : Nat) :
    Respects (AlikeAt dirs depth) (Act.interpreter f) := by
  intro d e h
  obtain ⟨hr, hc, hi⟩ := hf e.studio.catalog h.interpreter
  rw [Agrees, run_interpreter, run_interpreter, h.studio, hc]
  exact ⟨hr, rfl, hi, h.pending, h.signals, h.defined, h.includeDirs, h.depth⟩

theorem lockstep_alike (dirs : List String) : Lockstep (AlikeAt dirs) (· + 1) where
  studio h := h.studio
  defined h := h.defined.1.trans h.defined.2.symm
  pending h := h.pending
  includeDirs h := h.includeDirs.1.trans h.includeDirs.2.symm
  depth h := h.depth.1.trans h.depth.2.symm
  place h _ :=
    ⟨rfl, h.interpreter, h.pending, h.signals, h.defined, h.includeDirs, h.depth⟩
  await h _ :=
    ⟨h.studio, h.interpreter, rfl, h.signals, h.defined, h.includeDirs, h.depth⟩
  signal _ s _ _ h :=
    ⟨rfl, h.studio, h.interpreter, h.pending, congrArg (· ++ [s]) h.signals, h.defined,
      h.includeDirs, h.depth⟩
  write _ text _ _ h :=
    ⟨rfl, h.studio, h.interpreter.write text, h.pending, h.signals, h.defined, h.includeDirs,
      h.depth⟩
  forward depth token :=
    respects_interpreter (fun catalog _ _ h => h.push token catalog) dirs depth
  push depth v :=
    respects_interpreter (fun catalog _ _ h =>
      ⟨(h.pushValue v catalog).1, rfl, (h.pushValue v catalog).2⟩) dirs depth
  pop depth := respects_interpreter (fun catalog _ _ h => h.pop catalog) dirs depth
  enter h :=
    ⟨h.studio, h.interpreter, h.pending, h.signals, h.defined, h.includeDirs,
      congrArg (· + 1) h.depth.1, congrArg (· + 1) h.depth.2⟩
  leave h :=
    ⟨h.studio, h.interpreter, h.pending, h.signals, h.defined, h.includeDirs,
      congrArg (· - 1) h.depth.1, congrArg (· - 1) h.depth.2⟩

/-- Idle consoles in the same studio; what is on their stacks need not be the same. -/
structure Beside (d e : Desk) : Prop where
  studio : d.studio = e.studio
  printed : d.console.interpreter.machine.printed = "" ∧ e.console.interpreter.machine.printed = ""
  popWord : d.console.interpreter.popWord = "dot" ∧ e.console.interpreter.popWord = "dot"
  pending : d.console.pending = none ∧ e.console.pending = none
  signals : d.console.signals = [] ∧ e.console.signals = []
  defined : d.console.defined = [] ∧ e.console.defined = []

def Topped (d e : Desk) : Prop :=
  ∃ v, d.console.interpreter.machine.stack.head? = some v ∧
    e.console.interpreter.machine.stack.head? = some v

structure NoWord (token : String) : Prop where
  console : Console.Word.ofName? token = none
  machine : Stack.Word.ofName? token = none

theorem noWord_of_mem {token : String} {c : Char} (hc : c ∈ token.toList)
    (hn : c = '=' ∨ c = ':') : NoWord token where
  console := by
    rw [Console.Word.ofName?, List.find?_eq_none]
    intro w _ hw
    rw [← of_decide_eq_true hw] at hc
    revert hc
    rcases hn with rfl | rfl <;> cases w <;> decide
  machine := by
    rw [Stack.Word.ofName?, List.find?_eq_none]
    intro w _ hw
    rw [← of_decide_eq_true hw] at hc
    revert hc
    rcases hn with rfl | rfl <;> cases w <;> decide

theorem noWord_of_mem_assignments {token : String} {item : Media.Item}
    (h : token ∈ item.assignments) : NoWord token := by
  obtain ⟨⟨name, value⟩, -, rfl⟩ := List.mem_map.1 h
  have hequals : '=' ∈ (name ++ "=" ++ value).toList := by simp
  exact noWord_of_mem hequals (.inl rfl)

theorem run_forward_noWord {token : String} (ht : Stack.Word.ofName? token = none) (d : Desk) :
    (Act.forward token).run d =
      let i := d.console.interpreter
      let entered := i.machine.enter token d.studio.catalog
      let after : Interpreter :=
        { i with machine := { entered.2.2 with fault := Machine.faultOf entered.1 } }
      (after.collect.check token,
        { studio := { d.studio with catalog := entered.2.1 }
          console := { d.console with interpreter := after.collect } }) := by
  have he : d.console.interpreter.machine.execute token d.studio.catalog =
      d.console.interpreter.machine.enter token d.studio.catalog := by
    rw [Machine.execute, ht]
  dsimp only
  rw [← he]
  rfl

theorem run_pushAt_noWord (n : Nat) {token : String} (ht : NoWord token) {d : Desk}
    (hp : d.console.pending = none) (hd : d.console.defined = []) :
    (pushAt (n + 1) token).run d =
      let i := d.console.interpreter
      let entered := i.machine.enter token d.studio.catalog
      let after : Interpreter :=
        { i with machine := { entered.2.2 with fault := Machine.faultOf entered.1 } }
      (after.collect.check token,
        { studio := { d.studio with catalog := entered.2.1 }
          console := { d.console with interpreter := after.collect } }) := by
  have hm : d.console.meaning? token = none := by simp [meaning?, hd, ht.console]
  rw [run_pushAt_forward n hp hm, run_forward_noWord ht.machine]

theorem run_push_noWord {token : String} (ht : NoWord token) {d : Desk}
    (hp : d.console.pending = none) (hd : d.console.defined = []) :
    (Console.push token).run d =
      let i := d.console.interpreter
      let entered := i.machine.enter token d.studio.catalog
      let after : Interpreter :=
        { i with machine := { entered.2.2 with fault := Machine.faultOf entered.1 } }
      (after.collect.check token,
        { studio := { d.studio with catalog := entered.2.1 }
          console := { d.console with interpreter := after.collect } }) :=
  run_pushAt_noWord (levels - 1) ht hp hd

namespace Beside

theorem respects_deck (f : Deck → Deck) : Respects Beside (Act.deck f) :=
  .modify fun _ _ h => ⟨by rw [h.studio], h.printed, h.popWord, h.pending, h.signals, h.defined⟩

theorem respects_catalog : Respects Beside Act.catalog :=
  .look (fun _ => .pure _) fun _ _ h => by rw [h.studio]

variable {d e : Desk} (h : Beside d e)

include h

theorem push_noWord {token : String} (ht : NoWord token)
    (he : (d.console.interpreter.machine.enter token e.studio.catalog).1 =
      (e.console.interpreter.machine.enter token e.studio.catalog).1 ∧
      (d.console.interpreter.machine.enter token e.studio.catalog).2.1 =
      (e.console.interpreter.machine.enter token e.studio.catalog).2.1) :
    Agrees Beside (Console.push token) d e := by
  rw [Agrees, run_push_noWord ht h.pending.1 h.defined.1, run_push_noWord ht h.pending.2 h.defined.2,
    h.studio]
  obtain ⟨hr, hc⟩ := he
  refine ⟨?_, ?_, ⟨rfl, rfl⟩, h.popWord, h.pending, h.signals, h.defined⟩
  · simp only [Interpreter.check, Interpreter.collect, Machine.drain, hr]
  · dsimp only
    rw [hc]

theorem push_naming {token : String} (ht : NoWord token)
    (ha : Machine.assignment? token = none) :
    Agrees Beside (Console.push token) d e ∧
      (((Console.push token).run d).1 = .ok () →
        Topped ((Console.push token).run d).2 ((Console.push token).run e).2) := by
  obtain ⟨hr, hc, hv⟩ := Machine.enter_of_not_assignment ha e.studio.catalog
    d.console.interpreter.machine e.console.interpreter.machine
  refine ⟨h.push_noWord ht ⟨hr, hc⟩, fun hok => ?_⟩
  rw [run_push_noWord ht h.pending.1 h.defined.1, h.studio] at hok ⊢
  rw [run_push_noWord ht h.pending.2 h.defined.2]
  refine hv ?_
  cases hx : (d.console.interpreter.machine.enter token e.studio.catalog).1 with
  | ok => rfl
  | error cause =>
      simp [Interpreter.check, Interpreter.collect, Machine.drain, Machine.faultOf, hx] at hok

theorem push_topped {token : String} (ht : NoWord token) (hv : Topped d e) :
    Agrees Beside (Console.push token) d e ∧
      Topped ((Console.push token).run d).2 ((Console.push token).run e).2 := by
  obtain ⟨hr, hc, hv⟩ := Machine.enter_of_head hv token e.studio.catalog
  refine ⟨h.push_noWord ht ⟨hr, hc⟩, ?_⟩
  rw [run_push_noWord ht h.pending.1 h.defined.1, run_push_noWord ht h.pending.2 h.defined.2,
    h.studio]
  exact hv

/-- Once a value is taken off, nothing that follows may look at the stack. -/
theorem pop_bind {α : Type} (hv : Topped d e) {f : Value → Act α}
    (hf : ∀ v, Respects Beside (f v)) :
    Agrees Beside (Act.pop >>= f) d e := by
  obtain ⟨v, hd, he⟩ := hv
  obtain ⟨stack, hd⟩ := List.head?_eq_some_iff.1 hd
  obtain ⟨stack', he⟩ := List.head?_eq_some_iff.1 he
  rw [Agrees, run_bind, run_bind, Act.pop, run_interpreter, run_interpreter,
    Interpreter.pop_eq h.popWord.1 h.printed.1, Interpreter.pop_eq h.popWord.2 h.printed.2, hd, he]
  exact hf v ⟨h.studio, ⟨rfl, rfl⟩, h.popWord, h.pending, h.signals, h.defined⟩

theorem push_add (hv : Topped d e) : Agrees Beside (Console.push Console.Word.add.name) d e := by
  have hw : Console.Word.ofName? Console.Word.add.name = some .add := by decide
  have hm (c : Console) (hc : c.defined = []) :
      c.meaning? Console.Word.add.name = some (.word .add) := by simp [meaning?, hc, hw]
  rw [Agrees, run_push_word h.pending.1 (hm _ h.defined.1), run_push_word h.pending.2 (hm _ h.defined.2)]
  have hadd (handle : Handle) : Respects Beside (do
      if 0 < ((← Act.catalog).get handle).frames then Act.deck (Deck.add handle)) := by
    refine respects_catalog.bind fun catalog => ?_
    split
    · exact respects_deck _
    · exact .pure _
  simp only [Word.run, popItem, bind_assoc]
  refine h.pop_bind hv fun v => ?_
  cases v with
  | literal text => exact (Respects.fail _ _).bind hadd
  | item handle => exact hadd handle

theorem push_item {token : String} (ht : NoWord token) (ha : Machine.assignment? token = none)
    {arguments : List String} (hargs : ∀ argument ∈ arguments, NoWord argument) :
    Agrees Beside ((token :: arguments ++ [Console.Word.add.name]).forM Console.push) d e := by
  obtain ⟨hs, htop⟩ := h.push_naming ht ha
  -- The arguments are made to what the first token put on top, or lie on top of it.
  have hr : Respects (fun d e => Beside d e ∧ Topped d e) (arguments.forM Console.push) := by
    refine .forM_of_mem fun argument hm d e ⟨hb, hv⟩ => ?_
    obtain ⟨⟨hr, hb⟩, hv⟩ := hb.push_topped (hargs argument hm) hv
    exact ⟨hr, hb, hv⟩
  rw [List.forM_eq_forM] at hr ⊢
  rw [List.cons_append, List.forM_cons, List.forM_append]
  refine hs.bind fun _ hok => ?_
  obtain ⟨hr, hb, hv⟩ := hr ⟨hs.2, htop hok⟩
  refine Agrees.bind ⟨hr, hb⟩ fun _ _ => ?_
  rw [List.forM_cons, List.forM_nil]
  exact (hb.push_add hv).bind fun _ _ => ⟨rfl, (hb.push_add hv).2⟩

end Beside

end Console

end Playout
