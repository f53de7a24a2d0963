import Playout.Proofs.Console.Lockstep
import Playout.Proofs.Token.Glue

namespace Playout

namespace Text

theorem not_mem_of_mem_pieces {sep : Char} {text p : List Char} (h : p ∈ pieces sep text) :
    sep ∉ p := by
  induction text using pieces_induction sep with
  | piece q hq =>
      rw [pieces_of_not_mem hq, List.mem_singleton] at h
      exact h ▸ hq
  | concat text q hq ih =>
      rw [pieces_append, pieces_of_not_mem hq, List.mem_append, List.mem_singleton] at h
      obtain h | rfl := h
      · exact ih h
      · exact hq

theorem mem_of_mem_dropReturn {c : Char} {line : List Char} (h : c ∈ dropReturn line) :
    c ∈ line := by
  rw [dropReturn] at h
  split at h
  · exact List.dropLast_subset _ h
  · exact h

theorem not_mem_of_mem_linesOf {text line : String} (h : line ∈ linesOf text) :
    '\n' ∉ line.toList := by
  obtain ⟨l, hl, rfl⟩ := List.mem_map.1 h
  rw [String.toList_ofList]
  obtain hl | hl := List.mem_append.1 hl
  · obtain ⟨p, hp, rfl⟩ := List.mem_map.1 hl
    exact fun hn => not_mem_of_mem_pieces (List.dropLast_subset _ hp) (mem_of_mem_dropReturn hn)
  · have hp := Option.mem_toList.1 (List.mem_filter.1 hl).1
    exact not_mem_of_mem_pieces (List.mem_of_getLast? hp)

end Text

namespace Stack.Interpreter

open Media

def Unbroken (i : Interpreter) : Prop := ∀ line ∈ i.output, '\n' ∉ line.toList

variable {i : Interpreter}

theorem Unbroken.write (h : i.Unbroken) (text : String) : (i.write text).Unbroken := by
  intro line hl
  obtain hl | hl := List.mem_append.1 hl
  · exact h line hl
  · split at hl
    · obtain rfl := List.mem_singleton.1 hl
      simp
    · exact Text.not_mem_of_mem_linesOf hl

theorem Unbroken.collect (h : i.Unbroken) : i.collect.Unbroken := by
  intro line hl
  obtain hl | hl := List.mem_append.1 hl
  · exact h line hl
  · exact Text.not_mem_of_mem_linesOf hl

theorem Unbroken.push (h : i.Unbroken) (token : String) (catalog : Catalog) :
    (i.push token catalog).2.2.Unbroken :=
  Unbroken.collect (i := { i with machine := (i.machine.push token catalog).2 }) h

theorem Unbroken.pushValue (h : i.Unbroken) (v : Value) (catalog : Catalog) :
    (i.pushValue v catalog).2.Unbroken :=
  Unbroken.collect (i := { i with machine := i.machine.pushValue v }) h

theorem Unbroken.pop (h : i.Unbroken) (catalog : Catalog) : (i.pop catalog).2.2.Unbroken := by
  have hp := h.push i.popWord catalog
  rw [Interpreter.pop]
  split
  · rename_i he
    rwa [he] at hp
  · rename_i he
    rw [he] at hp
    exact hp

end Stack.Interpreter

namespace Console

open Act Stack

def Unbroken (c : Console) : Prop := c.interpreter.Unbroken

def UnbrokenAt (_ : Unit) (d e : Desk) : Prop := d = e ∧ d.console.Unbroken

theorem respects_unbroken {α : Type} {act : Act α}
    (h : ∀ d, d.console.Unbroken → (act.run d).2.console.Unbroken) :
    Respects (UnbrokenAt ()) act := Respects.of_keeps (P := fun d => d.console.Unbroken) h

theorem lockstep_unbroken : Lockstep UnbrokenAt id where
  studio h := by rw [h.1]
  defined h := by rw [h.1]
  pending h := by rw [h.1]
  includeDirs h := by rw [h.1]
  depth h := by rw [h.1]
  place := by
    rintro _ d e ⟨rfl, h⟩ studio
    exact ⟨rfl, h⟩
  await := by
    rintro _ d e ⟨rfl, h⟩ pending
    exact ⟨rfl, h⟩
  signal _ _ := respects_unbroken fun _ h => h
  write _ text := respects_unbroken fun _ h => h.write text
  forward _ token := respects_unbroken fun d h => h.push token d.studio.catalog
  push _ v := respects_unbroken fun d h => h.pushValue v d.studio.catalog
  pop _ := respects_unbroken fun d h => h.pop d.studio.catalog
  enter := by
    rintro _ d e ⟨rfl, h⟩
    exact ⟨rfl, h⟩
  leave := by
    rintro _ d e ⟨rfl, h⟩
    exact ⟨rfl, h⟩

theorem Unbroken.define {d : Desk} (h : d.console.Unbroken) (line : String) :
    ((Console.define line).run d).2.console.Unbroken :=
  (lockstep_unbroken.define () line ⟨rfl, h⟩).2.2

end Console

end Playout
