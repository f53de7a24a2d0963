import Playout.Proofs.Console.Residue
import Playout.Proofs.Number.Reading
import Playout.Proofs.Stack.Built

namespace Playout

open Media Stack

/-- One item more, which is on top; nothing is left to be printed. -/
def Desk.place (item : Item) (d : Desk) : Desk :=
  { studio := { d.studio with catalog := (d.studio.catalog.add item).2 }
    console := { d.console with
      interpreter :=
        { d.console.interpreter with
          machine := { d.console.interpreter.machine.place (.item d.studio.catalog.items.size) with
            fault := none } }.collect } }

namespace Console

open Act

theorem colon_mem_of_isUri {text : List Char} (h : Uri.isUri text = true) : ':' ∈ text := by
  unfold Uri.isUri Uri.scheme? at h
  cases hc : Text.cut? ':' text with
  | none => simp [hc] at h
  | some ab =>
      obtain ⟨a, b⟩ := ab
      rw [((Text.cut?_eq_some_iff _ _ _ _).1 hc).1]
      simp

/-- Nothing that an item made by tokens is spelled with is a word. -/
theorem noWord_of_built {item : Item} (h : Built item) {token : String}
    (ht : token ∈ item.uri :: item.assignments) : NoWord token := by
  rcases List.mem_cons.1 ht with rfl | ht
  · exact noWord_of_mem (colon_mem_of_isUri h.sound.isUri) (.inr rfl)
  · exact noWord_of_mem_assignments ht

variable {d : Desk} (hp : d.console.pending = none) (hd : d.console.defined = [])

include hp hd

theorem run_pushAt_uri (n : Nat) {uri : String} {item : Item}
    (hn : Machine.assignment? uri = none) (hu : Uri.isUri uri.toList = true)
    (hi : Uri.openItem uri = .ok item) :
    (pushAt (n + 1) uri).run d = (.ok (), d.place item) := by
  have hcolon := colon_mem_of_isUri hu
  have he : d.console.interpreter.machine.enter uri d.studio.catalog =
      (.ok (), (d.studio.catalog.add item).2,
        d.console.interpreter.machine.place (.item d.studio.catalog.items.size)) := by
    simp [Machine.enter, Number.real?_eq_none hcolon (.inr rfl), hn, hu, hi, Catalog.add]
  rw [run_pushAt_noWord n (noWord_of_mem hcolon (.inr rfl)) hp hd]
  dsimp only
  rw [he]
  rfl

theorem run_pushAt_assignment (n : Nat) {item changed : Item} {token name value : String}
    (ht : Machine.assignment? token = some (name, value))
    (hs : item.set name value = .ok changed) :
    (pushAt (n + 1) token).run (d.place item) = (.ok (), d.place changed) := by
  have hequals : '=' ∈ token.toList := by
    rw [((Machine.assignment?_eq_some_iff _ _ _).1 ht).1]
    simp
  have htop : (d.place item).console.interpreter.machine.stack =
      .item d.studio.catalog.items.size :: d.console.interpreter.machine.stack := rfl
  have hget : (d.place item).studio.catalog.get d.studio.catalog.items.size = item :=
    Catalog.get_add_self _ _
  have hput : (d.place item).studio.catalog.put d.studio.catalog.items.size changed =
      (d.studio.catalog.add changed).2 := Catalog.put_add _ _ _
  have he : (d.place item).console.interpreter.machine.enter token (d.place item).studio.catalog =
      (.ok (), (d.studio.catalog.add changed).2, (d.place item).console.interpreter.machine) := by
    simp [Machine.enter, Number.real?_eq_none hequals (.inl rfl), ht, Machine.assign, htop, hget, hs,
      hput]
  rw [run_pushAt_noWord n (d := d.place item) (noWord_of_mem hequals (.inl rfl)) hp hd]
  dsimp only
  rw [he, Interpreter.collect_eq_self rfl]
  rfl

theorem run_pushAt_assignments (n : Nat) {item made : Item} {props : Properties}
    (ht : ∀ p ∈ props, Machine.assignment? (p.1 ++ "=" ++ p.2) = some p)
    (hs : item.setAll props = .ok made) :
    ((props.map fun (name, value) => name ++ "=" ++ value).forM (pushAt (n + 1))).run
        (d.place item) =
      (.ok (), d.place made) := by
  induction props generalizing item with
  | nil =>
      cases hs
      rfl
  | cons p props ih =>
      obtain ⟨htp, ht⟩ := List.forall_mem_cons.1 ht
      cases hc : item.set p.1 p.2 with
      | error cause =>
          rw [Item.setAll, List.foldlM_cons, hc] at hs
          cases hs
      | ok changed =>
          rw [Item.setAll_cons hc] at hs
          have hrest := ih ht hs
          rw [List.forM_eq_forM] at hrest ⊢
          rw [List.map_cons, List.forM_cons, run_bind, run_pushAt_assignment hp hd n htp hc]
          exact hrest

/-- What an item is spelled with places the item as it is at its first frame. -/
theorem run_pushAt_spelled (n : Nat) {item : Item} (h : Sound item) :
    ((item.uri :: item.assignments).forM (pushAt (n + 1))).run d =
      (.ok (), d.place { item with position := 0 }) := by
  have hrest := run_pushAt_assignments hp hd n h.assignments h.rebuild
  rw [List.forM_eq_forM] at hrest ⊢
  rw [List.forM_cons, run_bind, run_pushAt_uri hp hd n h.noAssignment h.isUri h.opens]
  exact hrest

end Console

end Playout
