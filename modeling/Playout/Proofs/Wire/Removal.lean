import Mathlib.Data.List.Destutter
import Mathlib.Data.List.Sort
import Playout.Wire.Server

namespace Playout.Wire

variable {α : Type}

def withoutFrom (start : Nat) (places : List Nat) (items : List α) : List α :=
  ((items.zipIdx start).filter fun (_, i) => i ∉ places).map (·.1)

def without (places : List Nat) (items : List α) : List α := withoutFrom 0 places items

theorem withoutFrom_cons (start : Nat) (places : List Nat) (a : α) (items : List α) :
    withoutFrom start places (a :: items) =
      (if start ∈ places then [] else [a]) ++ withoutFrom (start + 1) places items := by
  by_cases h : start ∈ places <;> simp [withoutFrom, List.zipIdx_cons, h]

theorem withoutFrom_append (start : Nat) (places : List Nat) (items more : List α) :
    withoutFrom start places (items ++ more) =
      withoutFrom start places items ++ withoutFrom (start + items.length) places more := by
  simp [withoutFrom, List.zipIdx_append]

theorem withoutFrom_map {β : Type} (f : α → β) (start : Nat) (places : List Nat) (items : List α) :
    withoutFrom start places (items.map f) = (withoutFrom start places items).map f := by
  induction items generalizing start with
  | nil => rfl
  | cons a items ih =>
      rw [List.map_cons, withoutFrom_cons, withoutFrom_cons, ih, List.map_append]
      split <;> rfl

theorem withoutFrom_of_lt {start : Nat} {places : List Nat} (h : ∀ i ∈ places, i < start)
    (items : List α) : withoutFrom start places items = items := by
  induction items generalizing start with
  | nil => rfl
  | cons a items ih =>
      have hs : start ∉ places := fun hs => Nat.lt_irrefl _ (h start hs)
      rw [withoutFrom_cons, if_neg hs, ih fun i hi => Nat.lt_succ_of_lt (h i hi)]
      rfl

theorem withoutFrom_cons_of_le {start j : Nat} {items : List α} (h : start + items.length ≤ j)
    (places : List Nat) : withoutFrom start (j :: places) items = withoutFrom start places items := by
  induction items generalizing start with
  | nil => rfl
  | cons a items ih =>
      rw [List.length_cons] at h
      have hs : start ≠ j := by omega
      rw [withoutFrom_cons, withoutFrom_cons, ih (by omega)]
      simp only [List.mem_cons, hs, false_or]

theorem without_eraseIdx {j : Nat} {places : List Nat} (h : ∀ i ∈ places, i < j) (items : List α) :
    without places (items.eraseIdx j) = without (j :: places) items := by
  by_cases hj : j < items.length
  · have hlen : (items.take j).length = j := List.length_take_of_le hj.le
    have hfront := @withoutFrom_cons_of_le _ 0 j (items.take j) (by rw [hlen, Nat.zero_add]) places
    have hdone : ∀ i ∈ j :: places, i < j + 1 :=
      List.forall_mem_cons.2 ⟨Nat.lt_succ_self j, fun i hi => Nat.lt_succ_of_lt (h i hi)⟩
    have hsplit : items = items.take j ++ items[j] :: items.drop (j + 1) := by simp
    calc without places (items.eraseIdx j)
        = withoutFrom 0 places (items.take j) ++ items.drop (j + 1) := by
          rw [List.eraseIdx_eq_take_drop_succ, without, withoutFrom_append, hlen, Nat.zero_add,
            withoutFrom_of_lt h]
      _ = withoutFrom 0 (j :: places) (items.take j ++ items[j] :: items.drop (j + 1)) := by
          rw [withoutFrom_append, hlen, Nat.zero_add, withoutFrom_cons, hfront,
            if_pos (List.mem_cons_self ..), withoutFrom_of_lt hdone, List.nil_append]
      _ = without (j :: places) items := by rw [← hsplit, without]
  · rw [List.eraseIdx_of_length_le (Nat.le_of_not_lt hj), without, without,
      withoutFrom_cons_of_le (by omega)]

theorem foldl_eraseIdx {places : List Nat} (h : places.Pairwise fun i j => j < i) (items : List α) :
    places.foldl List.eraseIdx items = without places items := by
  induction places generalizing items with
  | nil => exact (withoutFrom_of_lt (by simp) items).symm
  | cons j places ih =>
      obtain ⟨hj, h⟩ := List.pairwise_cons.1 h
      rw [List.foldl_cons, ih h, without_eraseIdx hj]

theorem nodup_eraseDups (places : List Nat) : places.eraseDups.Nodup := by
  induction hn : places.length using Nat.strong_induction_on generalizing places with
  | _ n ih =>
      cases places with
      | nil => simp
      | cons i places =>
          have hlt : (places.filter fun j => !j == i).length < n :=
            Nat.lt_of_le_of_lt (List.length_filter_le _ _) (by simp [← hn])
          rw [List.eraseDups_cons, List.nodup_cons]
          exact ⟨by simp, ih _ hlt _ rfl⟩

def lastFirst (places : List Nat) : List Nat := places.eraseDups.mergeSort fun i j => j ≤ i

theorem mem_lastFirst (places : List Nat) (i : Nat) : i ∈ lastFirst places ↔ i ∈ places := by
  rw [lastFirst, (List.mergeSort_perm _ _).mem_iff, List.mem_eraseDups]

theorem pairwise_lastFirst (places : List Nat) : (lastFirst places).Pairwise fun i j => j < i := by
  have hle : (lastFirst places).Pairwise fun i j => decide (j ≤ i) = true :=
    List.pairwise_mergeSort (by simp; omega) (by simp; omega) places.eraseDups
  have hnodup : (lastFirst places).Nodup :=
    (List.mergeSort_perm _ _).nodup_iff.2 (nodup_eraseDups places)
  exact (hle.and hnodup).imp fun h => Nat.lt_of_le_of_ne (of_decide_eq_true h.1) (Ne.symm h.2)

/-- It does not matter in which order the places are given, or how often. -/
theorem removeIndices_eq_without (places : List Nat) (items : List α) :
    removeIndices places items = without places items := by
  rw [removeIndices, ← lastFirst, foldl_eraseIdx (pairwise_lastFirst places)]
  simp only [without, withoutFrom, mem_lastFirst]

def takeAway? (items : List α) (i : Nat) : Option (List α) :=
  if i < items.length then some (items.eraseIdx i) else none

/-- Removal with a look at the length at each turn: the places are sorted, equal neighbours are made
one, and the last is the first to go. None if a place is behind the end when its turn comes. -/
def removeChecked (places : List Nat) (items : List α) : Option (List α) :=
  (places.mergeSort.destutter (· ≠ ·)).reverse.foldlM takeAway? items

theorem reverse_destutter_mergeSort (places : List Nat) :
    (places.mergeSort.destutter (· ≠ ·)).reverse = lastFirst places := by
  have hle : places.mergeSort.Pairwise (· ≤ ·) := List.pairwise_mergeSort' (· ≤ ·) places
  rw [hle.destutter_eq_dedup]
  have hlt : places.mergeSort.dedup.Pairwise (· < ·) :=
    ((hle.sublist (List.dedup_sublist _)).and (List.nodup_dedup _)).imp fun h =>
      Nat.lt_of_le_of_ne h.1 h.2
  refine List.Pairwise.eq_of_mem_iff (List.pairwise_reverse.2 hlt) (pairwise_lastFirst places) ?_
  intro i
  rw [List.mem_reverse, List.mem_dedup, List.mem_mergeSort, mem_lastFirst]

theorem foldlM_takeAway? {places : List Nat} (h : places.Pairwise fun i j => j < i) {items : List α}
    (hl : ∀ i ∈ places, i < items.length) :
    places.foldlM takeAway? items = some (places.foldl List.eraseIdx items) := by
  induction places generalizing items with
  | nil => rfl
  | cons j places ih =>
      obtain ⟨hj, h⟩ := List.pairwise_cons.1 h
      have hlen : j < items.length := hl j (List.mem_cons_self ..)
      have hrest : ∀ i ∈ places, i < (items.eraseIdx j).length := by
        intro i hi
        have hij := hj i hi
        rw [List.length_eraseIdx_of_lt hlen]
        omega
      rw [List.foldlM_cons, takeAway?, if_pos hlen, List.foldl_cons, ← ih h hrest]
      rfl

theorem lt_length_of_foldlM {places : List Nat} {items rest : List α}
    (h : places.foldlM takeAway? items = some rest) : ∀ i ∈ places, i < items.length := by
  induction places generalizing items with
  | nil => simp
  | cons j places ih =>
      rw [List.foldlM_cons] at h
      obtain ⟨left, hleft, h⟩ := Option.bind_eq_some_iff.1 h
      obtain ⟨hj, hleft⟩ := Option.ite_none_right_eq_some.1 hleft
      obtain rfl := Option.some.inj hleft
      refine List.forall_mem_cons.2 ⟨hj, fun i hi => ?_⟩
      exact (ih h i hi).trans_le (List.length_eraseIdx_le ..)

theorem removeChecked_eq (places : List Nat) (items : List α) :
    removeChecked places items =
      if ∀ i ∈ places, i < items.length then some (removeIndices places items) else none := by
  rw [removeChecked, reverse_destutter_mergeSort]
  split_ifs with hl
  · exact foldlM_takeAway? (pairwise_lastFirst places) fun i hi =>
      hl i ((mem_lastFirst places i).1 hi)
  · refine Option.eq_none_iff_forall_ne_some.2 fun rest hr => hl fun i hi => ?_
    exact lt_length_of_foldlM hr i ((mem_lastFirst places i).2 hi)

example : removeChecked [3, 0, 3, 1] ['a', 'b', 'c', 'd', 'e'] = some ['c', 'e'] := by cbv

/-- In whatever order the places are given, and however often: the removal goes through if all of
them are inside the list, and otherwise not, and it leaves the entries that were at none of the
places, in order. -/
theorem removal_exact (places : List Nat) (items : List α) :
    removeChecked places items =
        (if ∀ i ∈ places, i < items.length then some (removeIndices places items) else none) ∧
      removeIndices places items = without places items :=
  ⟨removeChecked_eq places items, removeIndices_eq_without places items⟩

theorem mem_indicesOf (p : α → Bool) (items : List α) (i : Nat) :
    i ∈ indicesOf p items ↔ ∃ a, items[i]? = some a ∧ p a = true := by
  simp [indicesOf, List.mem_zipIdx_iff_getElem?]

theorem without_indicesOf (p : α → Bool) (items : List α) :
    without (indicesOf p items) items = items.filter fun a => !p a := by
  have hf : (items.zipIdx.filter fun (_, i) => i ∉ indicesOf p items) =
      items.zipIdx.filter ((fun a => !p a) ∘ Prod.fst) := by
    refine List.filter_congr ?_
    rintro ⟨a, i⟩ hm
    have ha : items[i]? = some a := List.mem_zipIdx_iff_getElem?.1 hm
    simp [mem_indicesOf, ha]
  rw [without, withoutFrom, hf, ← List.filter_map, List.zipIdx_map_fst]

theorem filterMap_indicesOf (p : α → Bool) (items : List α) :
    (indicesOf p items).filterMap (items[·]?) = items.filter p := by
  have hg : ((items.zipIdx.filter (p ∘ Prod.fst)).filterMap fun (_, i) => items[i]?) =
      (items.zipIdx.filter (p ∘ Prod.fst)).filterMap (some ∘ Prod.fst) := by
    refine List.filterMap_congr ?_
    rintro ⟨a, i⟩ hm
    exact List.mem_zipIdx_iff_getElem?.1 (List.mem_filter.1 hm).1
  rw [indicesOf, List.filterMap_map]
  refine hg.trans ?_
  rw [List.filterMap_eq_map, ← List.filter_map, List.zipIdx_map_fst]

namespace Server

/-- To take away what has a property keeps the rest in order. -/
theorem part_indicesOf (p : α → Bool) (items : List α) :
    part (indicesOf p items) items = (items.filter fun a => !p a, items.filter p) := by
  rw [part, removeIndices_eq_without, without_indicesOf, filterMap_indicesOf]

theorem part_map {β : Type} (f : α → β) (places : List Nat) (items : List α) :
    part places (items.map f) = ((part places items).1.map f, (part places items).2.map f) := by
  simp only [part, removeIndices_eq_without, without, withoutFrom_map, List.getElem?_map,
    List.map_filterMap]

end Server

end Playout.Wire
