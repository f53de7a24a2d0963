import Mathlib.Data.List.Forall2
import Playout.Proofs.Console.Residue
import Playout.Proofs.Stack.Effect

namespace Playout

open Media

namespace Stack

/-- A handle here and a handle there that go together: one of each, and the same item under both. -/
structure Paired (ρ : Handle → Handle → Prop) (here there : Catalog) : Prop where
  left : ∀ {h k}, ρ h k → h < here.items.size
  right : ∀ {h k}, ρ h k → k < there.items.size
  same : ∀ {h k}, ρ h k → here.get h = there.get k
  once : ∀ {h k h' k'}, ρ h k → ρ h' k' → (h = h' ↔ k = k')

inductive Tie (ρ : Handle → Handle → Prop) : Value → Value → Prop
  | literal (text : String) : Tie ρ (.literal text) (.literal text)
  | item {h k : Handle} (hr : ρ h k) : Tie ρ (.item h) (.item k)

def joined (ρ : Handle → Handle → Prop) (here there : Catalog) (h k : Handle) : Prop :=
  ρ h k ∨ h = here.items.size ∧ k = there.items.size

/-- A token makes at most one new pair, of an item that it names. -/
def Extends (token : String) (ρ : Handle → Handle → Prop) (here : Catalog)
    (ρ' : Handle → Handle → Prop) (here' : Catalog) : Prop :=
  ∀ ⦃h k⦄, ρ' h k → ρ h k ∨ h = here.items.size ∧ (here'.get h).uri = token

section Paired

variable {ρ : Handle → Handle → Prop} {here there : Catalog}

theorem Paired.put (hp : Paired ρ here there) {h k : Handle} (hr : ρ h k) (item : Item) :
    Paired ρ (here.put h item) (there.put k item) where
  left hr' := by simpa [Catalog.put] using hp.left hr'
  right hr' := by simpa [Catalog.put] using hp.right hr'
  same {h' k'} hr' := by
    rw [Catalog.get_put, Catalog.get_put]
    by_cases he : h = h'
    · rw [if_pos ⟨he, hp.left hr⟩, if_pos ⟨(hp.once hr hr').1 he, hp.right hr⟩]
    · rw [if_neg fun hh => he hh.1, if_neg fun hk => he ((hp.once hr hr').2 hk.1)]
      exact hp.same hr'
  once := hp.once

theorem Paired.add (hp : Paired ρ here there) (item : Item) :
    Paired (joined ρ here there) (here.add item).2 (there.add item).2 where
  left := by
    rintro h k (hr | ⟨rfl, -⟩)
    · simpa [Catalog.add] using Nat.lt_succ_of_lt (hp.left hr)
    · simp [Catalog.add]
  right := by
    rintro h k (hr | ⟨-, rfl⟩)
    · simpa [Catalog.add] using Nat.lt_succ_of_lt (hp.right hr)
    · simp [Catalog.add]
  same := by
    rintro h k (hr | ⟨rfl, rfl⟩)
    · rw [Catalog.get_add_of_lt (hp.left hr), Catalog.get_add_of_lt (hp.right hr)]
      exact hp.same hr
    · exact (Catalog.get_add_self here item).trans (Catalog.get_add_self there item).symm
  once := by
    rintro h k h' k' (hr | ⟨rfl, rfl⟩) (hr' | ⟨rfl, rfl⟩)
    · exact hp.once hr hr'
    · simp [Nat.ne_of_lt (hp.left hr), Nat.ne_of_lt (hp.right hr)]
    · simp [Nat.ne_of_gt (hp.left hr'), Nat.ne_of_gt (hp.right hr')]
    · simp

theorem Tie.mono {ρ' : Handle → Handle → Prop} (hρ : ∀ {h k}, ρ h k → ρ' h k) {v w : Value}
    (h : Tie ρ v w) : Tie ρ' v w := by
  cases h with
  | literal text => exact .literal text
  | item hr => exact .item (hρ hr)

theorem Tie.text (hp : Paired ρ here there) {v w : Value} (h : Tie ρ v w) :
    v.text here = w.text there := by
  cases h with
  | literal text => rfl
  | item hr => exact congrArg Item.uri (hp.same hr)

theorem Tie.render (hp : Paired ρ here there) {v w : Value} (h : Tie ρ v w) :
    v.render here = w.render there := by
  cases h with
  | literal text => rfl
  | item hr => exact congrArg Item.render (hp.same hr)

end Paired

structure Machine.Tied (ρ : Handle → Handle → Prop) (m n : Machine) : Prop where
  stack : List.Forall₂ (Tie ρ) m.stack n.stack
  printed : m.printed = n.printed

namespace Machine.Tied

variable {ρ : Handle → Handle → Prop} {here there : Catalog} {m n : Machine} (h : m.Tied ρ n)

include h

theorem mono {ρ' : Handle → Handle → Prop} (hρ : ∀ {h k}, ρ h k → ρ' h k) : m.Tied ρ' n :=
  ⟨h.stack.imp fun _ _ => Tie.mono hρ, h.printed⟩

theorem place {v w : Value} (hv : Tie ρ v w) : (m.place v).Tied ρ (n.place w) :=
  ⟨.cons hv h.stack, h.printed⟩

theorem placeText (text : String) :
    (m.place (.literal text)).Tied ρ (n.place (.literal text)) :=
  h.place (.literal text)

variable (hp : Paired ρ here there)

include hp

theorem number :
    (m.number here).1 = (n.number there).1 ∧ (m.number here).2.Tied ρ (n.number there).2 := by
  obtain ⟨stack, slot, printed, fault⟩ := m
  obtain ⟨stack', slot', printed', fault'⟩ := n
  obtain ⟨hs, hprint⟩ := h
  cases hs with
  | nil => exact ⟨rfl, .nil, hprint⟩
  | cons hv hs =>
      have ht := hv.text hp
      simp only [Machine.number]
      rw [ht]
      exact ⟨rfl, hs, hprint⟩

theorem arithmetic (word : Word) :
    (m.arithmetic word here).1 = (n.arithmetic word there).1 ∧
      (m.arithmetic word here).2.Tied ρ (n.arithmetic word there).2 := by
  rw [Machine.arithmetic, Machine.arithmetic]
  obtain ⟨hr, hs⟩ := h.number hp
  generalize m.number here = x at hr hs
  generalize n.number there = y at hr hs
  obtain ⟨r, m'⟩ := x
  obtain ⟨r', n'⟩ := y
  dsimp only at hr hs
  subst hr
  cases r with
  | error e => exact ⟨rfl, hs⟩
  | ok y =>
      obtain ⟨hr, hs⟩ := hs.number hp
      dsimp only
      generalize m'.number here = x at hr hs
      generalize n'.number there = y at hr hs
      obtain ⟨r, m''⟩ := x
      obtain ⟨r', n''⟩ := y
      dsimp only at hr hs
      subst hr
      cases r with
      | error e => exact ⟨rfl, hs⟩
      | ok x =>
          dsimp only
          cases calculate word x y with
          | error e => exact ⟨rfl, hs⟩
          | ok z => exact ⟨rfl, hs.placeText _⟩

theorem run (word : Word) :
    (m.run word here).1 = (n.run word there).1 ∧
      (m.run word here).2.Tied ρ (n.run word there).2 := by
  have ha := h.arithmetic hp word
  have hdepth := h.stack.length_eq
  obtain ⟨stack, slot, printed, fault⟩ := m
  obtain ⟨stack', slot', printed', fault'⟩ := n
  obtain ⟨hs, hprint⟩ := h
  cases word with
  | print =>
      cases hs with
      | nil => exact ⟨rfl, .nil, hprint⟩
      | cons hv hs =>
          refine ⟨rfl, hs, ?_⟩
          have ht := hv.text hp
          simp only [Machine.run, Machine.print, ht]
          exact congrArg (· ++ _ ++ _) hprint
  | take | drop =>
      cases hs with
      | nil => exact ⟨rfl, .nil, hprint⟩
      | cons hv hs => exact ⟨rfl, hs, hprint⟩
  | dup =>
      cases hs with
      | nil => exact ⟨rfl, .nil, hprint⟩
      | cons hv hs => exact ⟨rfl, .cons hv (.cons hv hs), hprint⟩
  | swap | copyBelow =>
      cases hs with
      | nil => exact ⟨rfl, .nil, hprint⟩
      | cons hv hs =>
          cases hs with
          | nil => exact ⟨rfl, .cons hv .nil, hprint⟩
          | cons hw hs =>
              first
              | exact ⟨rfl, .cons hw (.cons hv hs), hprint⟩
              | exact ⟨rfl, .cons hw (.cons hv (.cons hw hs)), hprint⟩
  | clear => exact ⟨rfl, .nil, hprint⟩
  | depth =>
      refine ⟨rfl, ?_, hprint⟩
      simp only [Machine.run, Machine.place] at hdepth ⊢
      rw [hdepth]
      exact .cons (.literal _) hs
  | dict => exact ⟨rfl, hs, congrArg (· ++ _ ++ _) hprint⟩
  | add | sub | mul | div => exact ha

theorem assign (name value : String) :
    (m.assign name value here).1 = (n.assign name value there).1 ∧
      Paired ρ (m.assign name value here).2 (n.assign name value there).2 := by
  obtain ⟨stack, slot, printed, fault⟩ := m
  obtain ⟨stack', slot', printed', fault'⟩ := n
  obtain ⟨hs, -⟩ := h
  unfold Machine.assign
  cases hs with
  | nil => exact ⟨rfl, hp⟩
  | cons hv hs =>
      cases hv with
      | literal text => exact ⟨rfl, hp⟩
      | @item h k hr =>
          dsimp only
          rw [hp.same hr]
          split
          · exact ⟨rfl, hp.put hr _⟩
          · exact ⟨rfl, hp⟩

theorem enter (token : String) :
    (m.enter token here).1 = (n.enter token there).1 ∧
      ∃ ρ', Extends token ρ here ρ' (m.enter token here).2.1 ∧
        Paired ρ' (m.enter token here).2.1 (n.enter token there).2.1 ∧
        (m.enter token here).2.2.Tied ρ' (n.enter token there).2.2 := by
  have hsame {here' : Catalog} : Extends token ρ here ρ here' := fun _ _ => .inl
  unfold Machine.enter
  split
  · exact ⟨rfl, ρ, hsame, hp, h.placeText token⟩
  · split
    · obtain ⟨hr, hp⟩ := h.assign hp _ _
      exact ⟨hr, ρ, hsame, hp, h⟩
    · split
      · split
        · exact ⟨rfl, ρ, hsame, hp, h⟩
        · rename_i item ho
          refine ⟨rfl, joined ρ here there, ?_, hp.add item, ?_⟩
          · rintro h k (hr | ⟨rfl, -⟩)
            · exact .inl hr
            · refine .inr ⟨rfl, ?_⟩
              rw [← Uri.uri_openItem ho]
              exact congrArg Item.uri (Catalog.get_add_self here item)
          · exact (h.mono .inl).place (.item (.inr ⟨rfl, rfl⟩))
      · exact ⟨rfl, ρ, hsame, hp, h.placeText token⟩

theorem execute (token : String) :
    (m.execute token here).1 = (n.execute token there).1 ∧
      ∃ ρ', Extends token ρ here ρ' (m.execute token here).2.1 ∧
        Paired ρ' (m.execute token here).2.1 (n.execute token there).2.1 ∧
        (m.execute token here).2.2.Tied ρ' (n.execute token there).2.2 := by
  unfold Machine.execute
  split
  · obtain ⟨hr, hs⟩ := h.run hp _
    exact ⟨hr, ρ, fun _ _ => .inl, hp, hs⟩
  · exact h.enter hp token

end Machine.Tied

structure Interpreter.Tied (ρ : Handle → Handle → Prop) (i j : Interpreter) : Prop where
  stack : List.Forall₂ (Tie ρ) i.machine.stack j.machine.stack
  printed : i.machine.printed = "" ∧ j.machine.printed = ""
  output : i.output = j.output
  popWord : i.popWord = "dot" ∧ j.popWord = "dot"

namespace Interpreter.Tied

variable {ρ : Handle → Handle → Prop} {here there : Catalog} {i j : Interpreter} (h : i.Tied ρ j)

include h

theorem machine : i.machine.Tied ρ j.machine := ⟨h.stack, h.printed.1.trans h.printed.2.symm⟩

theorem write (text : String) : (i.write text).Tied ρ (j.write text) where
  stack := h.stack
  printed := h.printed
  output := by rw [Interpreter.write, Interpreter.write, h.output]
  popWord := h.popWord

theorem collect {ρ' : Handle → Handle → Prop} {m n : Machine} (hm : m.Tied ρ' n) :
    ({ i with machine := m } : Interpreter).collect.Tied ρ'
      ({ j with machine := n } : Interpreter).collect where
  stack := hm.stack
  printed := ⟨rfl, rfl⟩
  output := by simp [Interpreter.collect, Machine.drain, hm.printed, h.output]
  popWord := h.popWord

theorem push (hp : Paired ρ here there) (token : String) :
    (i.push token here).1 = (j.push token there).1 ∧
      ∃ ρ', Extends token ρ here ρ' (i.push token here).2.1 ∧
        Paired ρ' (i.push token here).2.1 (j.push token there).2.1 ∧
        (i.push token here).2.2.Tied ρ' (j.push token there).2.2 := by
  obtain ⟨hr, ρ', hx, hp', hm⟩ := h.machine.execute hp token
  refine ⟨?_, ρ', hx, hp', h.collect ⟨hm.stack, hm.printed⟩⟩
  simp only [Interpreter.push, Machine.push, check, Interpreter.collect, Machine.drain, hr]

theorem pushValue {v w : Value} (hv : Tie ρ v w) (here there : Catalog) :
    (i.pushValue v here).2.Tied ρ (j.pushValue w there).2 := by
  have hm := h.machine.place hv
  exact h.collect ⟨hm.stack, hm.printed⟩

end Interpreter.Tied

end Stack

end Playout
