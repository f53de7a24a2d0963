import Mathlib.Data.List.InsertIdx
import Playout.Player.Deck
import Playout.Proofs.Number.Checked

namespace Playout

open Media

inductive Slot where
  | past (h : Handle)
  | present (h : Option Handle)
  | ahead (h : Handle)
  deriving DecidableEq, Repr

def Slot.content : Slot → Option Handle
  | past h | ahead h => some h
  | present h => h

namespace Deck

variable {d : Deck} {index : Int}

def slots (d : Deck) : List Slot :=
  d.history.map .past ++ .present d.current :: d.playlist.map .ahead

def takeAhead (i : Nat) (d : Deck) : Option Handle × Deck :=
  (d.playlist[i]?,
    if i < d.playlist.length then { d with playlist := d.playlist.eraseIdx i }.bump else d)

def takePast (i : Nat) (d : Deck) : Option Handle × Deck :=
  (d.history[i]?,
    if i < d.history.length then { d with history := d.history.eraseIdx i }.bump else d)

/-- An item taken out with indexes computed in 64 bits, and places in the history that are not
counted below zero; none if a result on the way does not fit. -/
def grabChecked (index : Int) (d : Deck) : Option (Option Handle × Deck) :=
  if index = -1 then some (d.current, d)
  else if 0 ≤ index then some (d.takeAhead index.toNat)
  else do
    let shifted ← Number.checked (index + 2)
    match ← Number.checked (-shifted) with
    | .negSucc _ => return (none, d)
    | .ofNat back =>
      if back < d.history.length then
        let newest ← Number.checkedSub d.history.length 1
        let i ← Number.checkedSub newest back
        return d.takePast i
      else return (none, d)

theorem grab_ahead (i : Nat) (d : Deck) : d.grab i = d.takeAhead i := by
  rw [grab, if_neg (by omega), if_pos (Int.natCast_nonneg i), Int.toNat_natCast, takeAhead]
  by_cases hi : i < d.playlist.length
  · simp only [List.getElem?_eq_getElem hi, if_pos hi]
  · simp only [List.getElem?_eq_none (Nat.le_of_not_lt hi), if_neg hi]

theorem grab_past {i : Nat} (hi : i < d.history.length) :
    d.grab (i - (d.history.length + 1)) = d.takePast i := by
  have hback : (-((i : Int) - (d.history.length + 1) + 2)).toNat = d.history.length - 1 - i := by omega
  have hplace : d.history.length - 1 - (d.history.length - 1 - i) = i := by omega
  rw [grab, if_neg (by omega), if_neg (by omega)]
  simp only [hback, hplace, takePast, if_pos hi, List.getElem?_eq_getElem hi,
    if_pos (show d.history.length - 1 - i < d.history.length by omega)]

theorem grab_before (hi : index < -(d.history.length + 1 : Int)) : d.grab index = (none, d) := by
  rw [grab, if_neg (by omega), if_neg (by omega)]
  simp only [if_neg (show ¬(-(index + 2)).toNat < d.history.length by omega)]

/-- An index names an entry of the playlist, the current item, an entry of the history, or a place
before all of them. -/
theorem index_cases (index : Int) (d : Deck) :
    (∃ i : Nat, index = i) ∨ index = -1 ∨
      (∃ i : Nat, i < d.history.length ∧ index = i - (d.history.length + 1)) ∨
      index < -(d.history.length + 1 : Int) := by
  by_cases hi : 0 ≤ index
  · exact .inl ⟨index.toNat, by omega⟩
  · by_cases hp : -(d.history.length + 1 : Int) ≤ index
    · by_cases hn : index = -1
      · exact .inr (.inl hn)
      · exact .inr (.inr (.inl ⟨(index + (d.history.length + 1)).toNat, by omega, by omega⟩))
    · exact .inr (.inr (.inr (by omega)))

/-- Below -1 nothing leaves the range, not even at the least index. -/
theorem grabChecked_below (hi : Number.Fits index) (hn : index < -1) (d : Deck) :
    d.grabChecked index =
      some (if (-(index + 2)).toNat < d.history.length then
        d.takePast (d.history.length - 1 - (-(index + 2)).toNat) else (none, d)) := by
  rw [Number.fits_iff] at hi
  have hshift : Number.checked (index + 2) = some (index + 2) :=
    Number.checked_of_fits ((Number.fits_iff _).2 (by omega))
  have hback : Number.checked (-(index + 2)) = some (.ofNat (-(index + 2)).toNat) := by
    rw [Number.checked_of_fits ((Number.fits_iff _).2 (by omega)), Int.ofNat_eq_natCast,
      Int.toNat_of_nonneg (by omega)]
  rw [grabChecked, if_neg (by omega), if_neg (by omega)]
  simp only [hshift, hback, Option.bind_eq_bind, Option.bind_some, Option.pure_def]
  split
  · rw [Number.checkedSub_of_le (by omega), Option.bind_some,
      Number.checkedSub_of_le (by omega), Option.bind_some]
  · rfl

theorem grabChecked_eq (hi : Number.Fits index) (d : Deck) :
    d.grabChecked index = some (d.grab index) := by
  rcases index_cases index d with ⟨i, rfl⟩ | rfl | ⟨i, hl, rfl⟩ | hb
  · rw [grab_ahead, grabChecked, if_neg (by omega), if_pos (Int.natCast_nonneg i),
      Int.toNat_natCast]
  · rfl
  · rw [grabChecked_below hi (by omega), grab_past hl, if_pos (by omega)]
    have hplace : d.history.length - 1 - (-((i : Int) - (d.history.length + 1) + 2)).toNat = i := by
      omega
    rw [hplace]
  · rw [grabChecked_below hi (by omega), grab_before hb, if_neg (by omega)]

theorem getElem?_slots_past {i : Nat} (hi : i < d.history.length) :
    d.slots[i]? = d.history[i]?.map .past := by
  rw [slots, List.getElem?_append_left (by simpa using hi), List.getElem?_map]

theorem getElem?_slots_present (d : Deck) :
    d.slots[d.history.length]? = some (.present d.current) := by
  simp [slots]

theorem getElem?_slots_ahead (i : Nat) (d : Deck) :
    d.slots[d.history.length + 1 + i]? = d.playlist[i]?.map .ahead := by
  have hi : d.history.length + 1 + i - d.history.length = i + 1 := by omega
  rw [slots, List.getElem?_append_right (by simp; omega), List.length_map, hi,
    List.getElem?_cons_succ, List.getElem?_map]

theorem eraseIdx_slots_past {i : Nat} (hi : i < d.history.length) :
    d.slots.eraseIdx i = ({ d with history := d.history.eraseIdx i } : Deck).slots := by
  rw [slots, List.eraseIdx_append_of_lt_length (by simpa using hi), List.eraseIdx_map]
  rfl

theorem eraseIdx_slots_ahead (i : Nat) (d : Deck) :
    d.slots.eraseIdx (d.history.length + 1 + i) =
      ({ d with playlist := d.playlist.eraseIdx i } : Deck).slots := by
  have hi : d.history.length + 1 + i - d.history.length = i + 1 := by omega
  rw [slots, List.eraseIdx_append_of_length_le (by simp; omega), List.length_map, hi,
    List.eraseIdx_cons_succ, List.eraseIdx_map]
  rfl

/-- The slot that an index names, if there is one: the current item has index -1. -/
def slotAt (index : Int) (d : Deck) : Option Slot :=
  if 0 ≤ d.history.length + 1 + index then d.slots[(d.history.length + 1 + index).toNat]? else none

theorem slotAt_ahead (i : Nat) (d : Deck) : d.slotAt i = d.playlist[i]?.map .ahead := by
  have hi : (d.history.length + 1 + (i : Int)).toNat = d.history.length + 1 + i := by omega
  rw [slotAt, if_pos (by omega), hi, getElem?_slots_ahead]

theorem slotAt_present (d : Deck) : d.slotAt (-1) = some (.present d.current) := by
  have hi : (d.history.length + 1 + (-1 : Int)).toNat = d.history.length := by omega
  rw [slotAt, if_pos (by omega), hi, getElem?_slots_present]

theorem slotAt_past {i : Nat} (hi : i < d.history.length) :
    d.slotAt (i - (d.history.length + 1)) = d.history[i]?.map .past := by
  have hp : (d.history.length + 1 + ((i : Int) - (d.history.length + 1))).toNat = i := by omega
  rw [slotAt, if_pos (by omega), hp, getElem?_slots_past hi]

theorem slotAt_before (hi : index < -(d.history.length + 1 : Int)) : d.slotAt index = none :=
  if_neg (by omega)

theorem fst_grab (index : Int) (d : Deck) : (d.grab index).1 = (d.slotAt index).bind Slot.content := by
  rcases index_cases index d with ⟨i, rfl⟩ | rfl | ⟨i, hl, rfl⟩ | hb
  · rw [grab_ahead, slotAt_ahead, takeAhead]
    cases d.playlist[i]? <;> rfl
  · rw [slotAt_present]
    rfl
  · rw [grab_past hl, slotAt_past hl, takePast]
    cases d.history[i]? <;> rfl
  · rw [grab_before hb, slotAt_before hb]
    rfl

/-- But for the current item, a slot that holds something goes, and only it. -/
theorem slots_grab (hn : index ≠ -1) (hg : (d.grab index).1 ≠ none) :
    (d.grab index).2.slots = d.slots.eraseIdx (d.history.length + 1 + index).toNat ∧
      ∃ history playlist, (d.grab index).2 = { d with history, playlist }.bump := by
  rcases index_cases index d with ⟨i, rfl⟩ | rfl | ⟨i, hl, rfl⟩ | hb
  · have hp : (d.history.length + 1 + (i : Int)).toNat = d.history.length + 1 + i := by omega
    rw [grab_ahead, takeAhead] at hg ⊢
    have hi : i < d.playlist.length := by simpa using hg
    rw [hp, eraseIdx_slots_ahead, if_pos hi]
    exact ⟨rfl, _, _, rfl⟩
  · exact absurd rfl hn
  · have hp : (d.history.length + 1 + ((i : Int) - (d.history.length + 1))).toNat = i := by omega
    rw [grab_past hl, takePast, if_pos hl, hp, eraseIdx_slots_past hl]
    exact ⟨rfl, _, _, rfl⟩
  · rw [grab_before hb] at hg
    exact absurd rfl hg

theorem snd_grab_of_none (hg : (d.grab index).1 = none) : (d.grab index).2 = d := by
  rcases index_cases index d with ⟨i, rfl⟩ | rfl | ⟨i, hl, rfl⟩ | hb
  · rw [grab_ahead, takeAhead] at hg ⊢
    exact if_neg (Nat.not_lt.2 (List.getElem?_eq_none_iff.1 hg))
  · rfl
  · rw [grab_past hl, takePast] at hg
    exact absurd hl (Nat.not_lt.2 (List.getElem?_eq_none_iff.1 hg))
  · rw [grab_before hb]

theorem insert_inside (h : Handle) {i : Nat} (hi : i < d.playlist.length) :
    d.insert i h = { d with playlist := d.playlist.insertIdx i h }.bump.wake := by
  rw [insert, if_pos ⟨Int.natCast_nonneg i, Int.ofNat_lt.2 hi⟩, Int.toNat_natCast]

theorem grab_insert (h : Handle) {i : Nat} (hi : i < d.playlist.length) :
    (d.insert i h).grab i = (some h, d.bump.wake.bump) := by
  have hlt : i < (d.playlist.insertIdx i h).length := by
    rw [List.length_insertIdx_of_le_length (Nat.le_of_lt hi)]
    omega
  rw [grab_ahead, insert_inside h hi, takeAhead]
  simp only [bump, wake, hlt, if_true, List.getElem?_eq_getElem hlt, List.getElem_insertIdx_self,
    List.eraseIdx_insertIdx_self]

/-- Items are taken out and put in along one line of slots, and no index leaves the range on the way.
What an index takes out is what its slot holds. If it holds something, and is not that of the current
item, the slot goes and the others stay in their order; else nothing changes. An item that is put in
before the end of the playlist has the index at which it was put; any other is put last. -/
theorem grab_insert_slots (index : Int) (d : Deck) :
    (Number.Fits index → d.grabChecked index = some (d.grab index)) ∧
      (d.grab index).1 = (d.slotAt index).bind Slot.content ∧
      (if index ≠ -1 ∧ (d.grab index).1 ≠ none then
        (d.grab index).2.slots = d.slots.eraseIdx (d.history.length + 1 + index).toNat ∧
          ∃ history playlist, (d.grab index).2 = { d with history, playlist }.bump
      else (d.grab index).2 = d) ∧
      ∀ h, if 0 ≤ index ∧ index < d.playlist.length then
        (d.insert index h).grab index = (some h, d.bump.wake.bump)
      else d.insert index h = { d with playlist := d.playlist ++ [h] }.bump.wake := by
  refine ⟨fun hi => grabChecked_eq hi d, fst_grab index d, ?_, fun h => ?_⟩
  · split
    · rename_i hg
      exact slots_grab hg.1 hg.2
    · rename_i hg
      by_cases hn : index = -1
      · subst hn
        rfl
      · exact snd_grab_of_none (by simpa [hn] using hg)
  · split
    · rename_i hi
      obtain ⟨i, rfl⟩ := Int.eq_ofNat_of_zero_le hi.1
      exact grab_insert h (Int.ofNat_lt.1 hi.2)
    · rename_i hi
      rw [insert, if_neg hi, add]

/-- The least index is before all slots; the oldest of two entries of the history has index -3. -/
theorem grab_insert_slots_least :
    let d : Deck := { current := some 4, history := [1, 2], playlist := [3] }
    Number.Fits Number.least64 ∧ d.grabChecked Number.least64 = some (none, d) ∧
      Number.Fits (-3) ∧ d.grabChecked (-3) = some (some 1, { d with history := [2] }.bump) ∧
      (d.grab (-3)).2.slots = [.past 2, .present (some 4), .ahead 3] := by
  intro d
  have hleast : Number.Fits Number.least64 := by decide
  have holdest : Number.Fits (-3) := by decide
  obtain ⟨hnone, -⟩ := grab_insert_slots Number.least64 d
  obtain ⟨hfirst, -, htaken, -⟩ := grab_insert_slots (-3) d
  rw [if_pos (by decide)] at htaken
  exact ⟨hleast, hnone hleast, holdest, hfirst holdest, htaken.1⟩

end Deck

end Playout
