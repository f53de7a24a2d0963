import Mathlib.Data.List.Basic
import Mathlib.Logic.Function.Iterate
import Playout.Proofs.Player.Journal

namespace Playout.Programme

open Media

/-- How many frames an item shows at a speed, from its start on: its length by the speed, rounded
up. -/
def count (speed : Nat) (item : Item) : Nat := (item.frames + speed - 1) / speed

def frame (speed : Nat) (item : Item) (i : Nat) : Frame := ⟨i * speed, item.uri⟩

def shown (speed : Nat) (item : Item) : List Frame :=
  (List.range (count speed item)).map (frame speed item)

def lastFrame (speed : Nat) (item : Item) : Frame := frame speed item (count speed item - 1)

/-- What the store of a number is told. The last item does not end. -/
def programme (j speed : Nat) : List Item → List Store.Call
  | [] => []
  | [item] => (shown speed item).map (.push j true)
  | item :: next :: items =>
    (shown speed item).map (.push j true) ++ .complete j :: programme j speed (next :: items)

def lead (speed : Nat) : List Item → Nat
  | [] | [_] => 0
  | item :: next :: items => count speed item + lead speed (next :: items)

theorem lt_count_iff {speed : Nat} (hs : 1 ≤ speed) (item : Item) (i : Nat) :
    i < count speed item ↔ i * speed < item.frames := by
  rw [count, Nat.lt_iff_add_one_le, Nat.le_div_iff_mul_le hs, Nat.add_mul]
  omega

example : shown 2 (.testPattern 5) = [⟨0, "test:"⟩, ⟨2, "test:"⟩, ⟨4, "test:"⟩] := rfl

theorem drop_shown {speed i : Nat} {item : Item} (hi : i < count speed item) :
    (shown speed item).drop i = frame speed item i :: (shown speed item).drop (i + 1) := by
  have hl : i < (shown speed item).length := by simpa [shown] using hi
  rw [List.drop_eq_getElem_cons hl]
  simp [shown]

theorem drop_programme {j speed i : Nat} {item : Item} (hi : i < count speed item)
    (items : List Item) :
    (programme j speed (item :: items)).drop i =
      .push j true (frame speed item i) :: (programme j speed (item :: items)).drop (i + 1) := by
  have hl : i < ((shown speed item).map (Store.Call.push j true)).length := by
    simpa [shown] using hi
  cases items with
  | nil => simp only [programme, ← List.map_drop, drop_shown hi, List.map_cons]
  | cons next items =>
      rw [programme, List.drop_append_of_le_length (Nat.le_of_lt hl),
        List.drop_append_of_le_length hl, ← List.map_drop, drop_shown hi]
      simp only [List.map_drop, List.map_cons, List.cons_append]

theorem drop_programme_end (j speed : Nat) (item next : Item) (items : List Item) :
    (programme j speed (item :: next :: items)).drop (count speed item) =
      .complete j :: programme j speed (next :: items) := by
  rw [programme, List.drop_left' (by simp [shown])]

theorem drop_programme_last (j speed : Nat) (item : Item) :
    (programme j speed [item]).drop (count speed item) = [] := by
  simp [programme, shown]

/-- The item that is shown, how many of its frames came before, and the items that follow. -/
structure Cursor where
  item : Handle
  index : Nat
  rest : List Handle

namespace Cursor

variable (items : Handle → Item) (speed : Nat)

def queue (c : Cursor) : List Handle := c.item :: c.rest

def atLast (c : Cursor) : Bool := count speed (items c.item) ≤ c.index + 1

def ends (c : Cursor) : Bool := c.atLast items speed && c.rest ≠ []

def next (c : Cursor) : Cursor :=
  if c.atLast items speed then
    match c.rest with
    | [] => c
    | h :: rest => ⟨h, 0, rest⟩
  else { c with index := c.index + 1 }

def calls (j : Nat) (c : Cursor) : List Store.Call :=
  .push j true (frame speed (items c.item) c.index) ::
    if c.ends items speed then [.complete j] else []

def told (j : Nat) : Nat → Cursor → List Store.Call
  | 0, _ => []
  | n + 1, c => c.calls items speed j ++ told j n (c.next items speed)

def ended : Nat → Cursor → List Handle
  | 0, _ => []
  | n + 1, c => (if c.ends items speed then [c.item] else []) ++ ended n (c.next items speed)

/-- Every item of the queue shows a frame, the first one the frame the cursor is at. -/
structure Inside (c : Cursor) : Prop where
  index : c.index < count speed (items c.item)
  rest : ∀ h ∈ c.rest, 0 < count speed (items h)

variable {items speed}

theorem Inside.next {c : Cursor} (h : c.Inside items speed) : (c.next items speed).Inside items speed := by
  obtain ⟨item, index, rest⟩ := c
  unfold Cursor.next
  split
  · cases rest with
    | nil => exact h
    | cons g rest => exact ⟨h.rest g (by simp), fun k hk => h.rest k (by simp [hk])⟩
  · rename_i hl
    exact ⟨by simpa [atLast] using hl, h.rest⟩

theorem next_of_ends {c : Cursor} (he : c.ends items speed = true) :
    ∃ h rest, c.rest = h :: rest ∧ c.next items speed = ⟨h, 0, rest⟩ := by
  obtain ⟨item, index, rest⟩ := c
  simp only [ends, Bool.and_eq_true, decide_eq_true_eq] at he
  obtain ⟨h, rest, rfl⟩ := List.exists_cons_of_ne_nil he.2
  exact ⟨h, rest, rfl, by simp [next, he.1]⟩

theorem next_of_not_ends {c : Cursor} (he : c.ends items speed = false) :
    c.next items speed = { c with index := if c.atLast items speed then c.index else c.index + 1 } := by
  obtain ⟨item, index, rest⟩ := c
  cases hl : Cursor.atLast items speed ⟨item, index, rest⟩ with
  | false => simp [next, hl]
  | true =>
      obtain rfl : rest = [] := by simpa [ends, hl] using he
      simp [next, hl]

theorem countP_told (j n : Nat) (c : Cursor) :
    (c.told items speed j n).countP Store.Call.isPush = n := by
  induction n generalizing c with
  | zero => rfl
  | succ n ih =>
      rw [told, List.countP_append, ih, calls]
      split <;> simp [List.countP_cons, Store.Call.isPush, Nat.add_comm]

theorem count_told (j n : Nat) (c : Cursor) :
    (c.told items speed j n).count (.complete j) = (c.ended items speed n).length := by
  induction n generalizing c with
  | zero => rfl
  | succ n ih =>
      rw [told, ended, List.count_append, List.length_append, ih, calls]
      split <;> simp

theorem ended_append_queue (n : Nat) (c : Cursor) :
    c.ended items speed n ++ ((Cursor.next items speed)^[n] c).queue = c.queue := by
  induction n generalizing c with
  | zero => rfl
  | succ n ih =>
      rw [ended, Function.iterate_succ_apply, List.append_assoc, ih]
      obtain ⟨item, index, rest⟩ := c
      cases hl : Cursor.atLast items speed ⟨item, index, rest⟩ with
      | false => simp [ends, next, hl, queue]
      | true => cases rest <;> simp [ends, next, hl, queue]

def final (c : Cursor) : Handle := c.rest.getLastD c.item

theorem final_next (c : Cursor) : (c.next items speed).final = c.final := by
  obtain ⟨item, index, rest⟩ := c
  unfold next
  split
  · cases rest with
    | nil => rfl
    | cons g rest => simp [final, List.getLastD_eq_getLast?, List.getLast?_cons]
  · rfl

theorem Inside.index_eq {c : Cursor} (h : c.Inside items speed) (hl : c.atLast items speed = true) :
    c.index + 1 = count speed (items c.item) := by
  have hi := h.index
  simp only [atLast, decide_eq_true_eq] at hl
  omega

/-- What a store is told follows the programme, and then repeats the last frame. -/
theorem told_prefix (j n : Nat) {c : Cursor} (h : c.Inside items speed) :
    ∃ m, c.told items speed j n <+: (programme j speed (c.queue.map items)).drop c.index ++
      List.replicate m (.push j true (lastFrame speed (items c.final))) := by
  induction n generalizing c with
  | zero => exact ⟨0, List.nil_prefix⟩
  | succ n ih =>
      obtain ⟨m, hm⟩ := ih h.next
      rw [final_next] at hm
      obtain ⟨item, index, rest⟩ := c
      have hd := drop_programme (j := j) h.index (rest.map items)
      simp only [told, calls, queue, List.map_cons, hd]
      cases hl : Cursor.atLast items speed ⟨item, index, rest⟩ with
      | false =>
          refine ⟨m, ?_⟩
          simpa [ends, hl, Cursor.next, queue] using hm
      | true =>
          have hi := h.index_eq hl
          simp only at hi
          cases rest with
          | nil =>
              have hf : frame speed (items item) index = lastFrame speed (items item) := by
                rw [lastFrame, ← hi, Nat.add_sub_cancel]
              refine ⟨m + 1, ?_⟩
              simp only [Cursor.next, hl, queue, List.map_cons, hd, if_true] at hm
              simpa [ends, hl, hi, drop_programme_last, Cursor.next, final, hf,
                List.replicate_succ] using hm
          | cons g rest =>
              refine ⟨m, ?_⟩
              simpa [ends, hl, hi, drop_programme_end, Cursor.next, queue] using hm

theorem rest_iterate (n : Nat) {c : Cursor} (h : c.Inside items speed) :
    ((Cursor.next items speed)^[n] c).rest = [] ↔ lead speed (c.queue.map items) ≤ n + c.index := by
  induction n generalizing c with
  | zero =>
      obtain ⟨item, index, rest⟩ := c
      have hi := h.index
      cases rest with
      | nil => simp [queue, lead]
      | cons g rest => simp [queue, lead] at hi ⊢; omega
  | succ n ih =>
      rw [Function.iterate_succ_apply, ih h.next]
      obtain ⟨item, index, rest⟩ := c
      cases hl : Cursor.atLast items speed ⟨item, index, rest⟩ with
      | false => simp [Cursor.next, hl, queue]; omega
      | true =>
          have hi := h.index_eq hl
          simp only at hi
          cases rest with
          | nil => simp [Cursor.next, hl, queue, lead]
          | cons g rest => simp [Cursor.next, hl, queue, lead]; omega

end Cursor

end Playout.Programme
