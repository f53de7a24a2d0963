import Playout.Proofs.Console.Making
import Playout.Proofs.Console.Placing
import Playout.Proofs.Player.Event

namespace Playout

open Media Stack

namespace Playback.ItemChange

def about : ItemChange → Option Handle
  | opened _ _ | generated _ => none
  | sought h _ | moved h _ | set h _ _ => some h

variable {catalog : Catalog} {k : Handle}

theorem size_apply (c : ItemChange) (catalog : Catalog) :
    catalog.items.size ≤ (c.apply catalog).items.size := by
  cases c with
  | opened | generated => simp [apply, Catalog.add]
  | sought | moved => simp [apply, Catalog.modify, Catalog.put]
  | set h name value =>
      rw [apply]
      split <;> simp [Catalog.put]

theorem get_apply (hk : k < catalog.items.size) {c : ItemChange} (hc : c.about ≠ some k) :
    (c.apply catalog).get k = catalog.get k := by
  have hne {h : Handle} (hh : some h ≠ some k) : h ≠ k := fun he => hh (congrArg some he)
  cases c with
  | opened | generated => exact Catalog.get_add_of_lt hk _
  | sought | moved => exact Catalog.get_put_of_ne catalog (hne hc) _
  | set h name value =>
      rw [apply]
      split
      · exact Catalog.get_put_of_ne catalog (hne hc) _
      · rfl

theorem get_foldl {changes : List ItemChange} (hk : k < catalog.items.size)
    (hc : ∀ c ∈ changes, c.about ≠ some k) :
    (changes.foldl ItemChange.apply catalog).get k = catalog.get k := by
  induction changes generalizing catalog with
  | nil => rfl
  | cons c changes ih =>
      obtain ⟨hfirst, hc⟩ := List.forall_mem_cons.1 hc
      rw [List.foldl_cons, ih (Nat.lt_of_lt_of_le hk (size_apply c catalog)) hc,
        get_apply hk hfirst]

end Playback.ItemChange

namespace Console

open Act

/-- Between two tokens: nothing is left to be printed, and values are taken off without a word. -/
structure Settled (c : Console) : Prop where
  printed : c.interpreter.machine.printed = ""
  popWord : c.interpreter.popWord = "dot"

theorem lockstep_settled (words : List (String × List String)) :
    Lockstep (fun _ : Unit => Within fun d => d.console.Settled ∧ d.console.defined = words) id := by
  have hpop : Respects (Within fun d => d.console.Settled ∧ d.console.defined = words) Act.pop :=
    .of_keeps fun d ⟨h, hd⟩ => by
      have hkept := Interpreter.settled_pop h.popWord h.printed d.studio.catalog
      exact ⟨⟨hkept.2, hkept.1⟩, hd⟩
  exact .within (fun ⟨h, hd⟩ _ _ _ => ⟨⟨h.printed, h.popWord⟩, hd⟩)
    (fun _ => .of_keeps fun _ ⟨h, hd⟩ => ⟨⟨h.printed, h.popWord⟩, hd⟩)
    (fun _ => .of_keeps fun _ ⟨h, hd⟩ => ⟨⟨h.printed, h.popWord⟩, hd⟩)
    (fun _ => .of_keeps fun _ ⟨h, hd⟩ => ⟨⟨rfl, h.popWord⟩, hd⟩)
    (fun _ => .of_keeps fun _ ⟨h, hd⟩ => ⟨⟨rfl, h.popWord⟩, hd⟩) hpop

theorem settled_of_lines {d : Desk} (h : d.console.Settled) (lines : List String) :
    (lines.foldl (fun d line => ((Console.define line).run d).2) d).console.Settled := by
  induction lines generalizing d with
  | nil => exact h
  | cons line lines ih => exact ih ((lockstep_settled _).define () line ⟨rfl, h, rfl⟩).2.2.1

theorem run_push_value {d : Desk} (h : d.console.interpreter.machine.printed = "") (v : Value) :
    (Act.push v).run d =
      (.ok (), { d with
        console.interpreter.machine := d.console.interpreter.machine.pushValue v }) := by
  have hcollect : ({ d.console.interpreter with
      machine := d.console.interpreter.machine.pushValue v } : Interpreter).collect = _ :=
    Interpreter.collect_eq_self h
  simp only [Act.push, run_interpreter, Interpreter.pushValue, hcollect]
  rfl

section Clone

variable {d : Desk} {k : Handle} {below : List Value} (hc : d.console.Settled)
  (hs : d.console.interpreter.machine.stack = .item k :: below)

include hc hs

theorem run_lead_clone :
    Word.clone.lead.run d =
      (.ok ((d.studio.catalog.get k).uri :: (d.studio.catalog.get k).assignments),
        { d with console.interpreter.machine := { stack := .item k :: below } }) := by
  have hpop : (Act.popItem Word.clone.name).run d =
      (.ok k, { d with console.interpreter.machine := { stack := below } }) := by
    rw [Act.popItem, run_bind, run_pop_eq hc.popWord hc.printed, hs]
    rfl
  rw [Word.lead, run_bind, hpop]
  dsimp only
  rw [run_bind, run_catalog]
  dsimp only
  rw [run_bind, run_push_value rfl]
  rfl

theorem run_pushAt_clone (n : Nat) (hp : d.console.pending = none) (hd : d.console.defined = [])
    (hi : Sound (d.studio.catalog.get k)) :
    (pushAt (n + 2) Word.clone.name).run d =
      (.ok (), Desk.place { d.studio.catalog.get k with position := 0 }
        { d with console.interpreter.machine := { stack := .item k :: below } }) := by
  have hm : d.console.meaning? Word.clone.name = some (.word .clone) := by
    simp [meaning?, hd, ofName?_name]
  rw [run_pushAt_word (n + 1) hp hm, Word.run_eq_lead, run_bind, run_lead_clone hc hs]
  exact run_pushAt_spelled
    (d := { d with console.interpreter.machine := { stack := .item k :: below } }) hp hd n hi

end Clone

/-- Where no word is waited for and none is defined, an item that tokens have built is copied: the
word succeeds and prints nothing, the item stays as it is, and over it comes a new one with the same
URI, frames and properties at its first frame. Whatever is then assigned to one of the two or sought
in it, the other stays as it is. -/
theorem clone_copies {d : Desk} {k : Handle} {below : List Value} (hc : d.console.Settled)
    (hp : d.console.pending = none) (hd : d.console.defined = [])
    (hs : d.console.interpreter.machine.stack = .item k :: below)
    (hk : k < d.studio.catalog.items.size) (hb : Built (d.studio.catalog.get k)) :
    let item := d.studio.catalog.get k
    let made : Item := { item with position := 0 }
    let copy : Handle := d.studio.catalog.items.size
    let catalog := (d.studio.catalog.add made).2
    (Console.push Word.clone.name).run d =
        (.ok (), { d with
          studio.catalog := catalog
          console.interpreter.machine := { stack := .item copy :: .item k :: below } }) ∧
      catalog.get copy = made ∧ (∀ j < copy, catalog.get j = d.studio.catalog.get j) ∧
      ∀ changes : List Playback.ItemChange,
        let later := changes.foldl Playback.ItemChange.apply catalog
        ((∀ c ∈ changes, c.about ≠ some k) → later.get k = item) ∧
          ((∀ c ∈ changes, c.about ≠ some copy) → later.get copy = made) := by
  intro item made copy catalog
  have hcopy : catalog.get copy = made := Catalog.get_add_self _ _
  have hold (j : Handle) (hj : j < copy) : catalog.get j = d.studio.catalog.get j :=
    Catalog.get_add_of_lt hj _
  have hsize : catalog.items.size = copy + 1 := Array.size_push made
  refine ⟨?_, hcopy, hold, fun changes => ⟨fun ha => ?_, fun ha => ?_⟩⟩
  · have hrun := run_pushAt_clone hc hs (levels - 2) hp hd hb.sound
    rw [Desk.place, Interpreter.collect_eq_self rfl] at hrun
    exact hrun
  · have hlt : k < catalog.items.size := hsize ▸ Nat.lt_succ_of_lt hk
    exact (Playback.ItemChange.get_foldl hlt ha).trans (hold k hk)
  · have hlt : copy < catalog.items.size := hsize ▸ Nat.lt_succ_self copy
    exact (Playback.ItemChange.get_foldl hlt ha).trans hcopy

/-- A note that is a word and a colour that is a number are copied as they are; the copy is then
sought and given another note. -/
theorem clone_copies_noted :
    let item : Item :=
      { uri := "colour:red", kind := .colour, position := 2, frames := 3
        properties := [("@note", "dup"), ("colour", "5"), ("fps", "25"), ("frames", "3")] }
    let d : Desk :=
      { studio := { catalog := ⟨#[item]⟩ }
        console := { interpreter :=
          { popWord := "dot", machine := { stack := [.item 0, .literal "5"] } } } }
    let e := ((Console.push Word.clone.name).run d).2
    d.console.Settled ∧ Built (d.studio.catalog.get 0) ∧
      ((Console.push Word.clone.name).run d).1 = .ok () ∧
      e.console.interpreter.machine.stack = [.item 1, .item 0, .literal "5"] ∧
      e.console.interpreter.output = [] ∧ e.studio.catalog.get 0 = item ∧
      e.studio.catalog.get 1 = { item with position := 0 } ∧
      ([.sought 1 2, .set 1 "@note" "over"].foldl Playback.ItemChange.apply
        e.studio.catalog).get 0 = item := by
  intro item d
  have hi : Uri.openItem item.uri = .ok (.fresh item.uri .colour) := by decide +kernel
  have hopened : Built (.fresh item.uri .colour) := .opened (by decide) (by decide) hi
  have hframes : Machine.assignment? "frames=3" = some ("frames", "3") := by decide
  have hnote : Machine.assignment? "@note=dup" = some ("@note", "dup") := by decide
  have hcolour : Machine.assignment? "colour=5" = some ("colour", "5") := by decide
  have hb : Built item :=
    .placed 2 (.assigned (.assigned (.assigned hopened hframes rfl) hnote rfl) hcolour rfl)
  have hc : d.console.Settled := ⟨rfl, rfl⟩
  have hs : d.console.interpreter.machine.stack = .item 0 :: [.literal "5"] := rfl
  obtain ⟨hrun, hcopy, hold, hlater⟩ := clone_copies hc rfl rfl hs (by decide) hb
  rw [hrun]
  exact ⟨hc, hb, rfl, rfl, rfl, hold 0 (by decide), hcopy,
    (hlater [.sought 1 2, .set 1 "@note" "over"]).1 (by decide)⟩

end Console

end Playout
