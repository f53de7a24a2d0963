import Playout.Media.Item

namespace Playout.Media.Properties

def Sorted (props : Properties) : Prop := props.Pairwise fun p q => p.1 < q.1

theorem get?_nil (n : String) : get? n [] = none := rfl

theorem get?_cons (n name value : String) (props : Properties) :
    get? n ((name, value) :: props) = if n = name then some value else get? n props := by
  by_cases h : n = name
  · simp [get?, h]
  · simp [get?, Ne.symm h, h]

theorem get?_set (n name value : String) (props : Properties) :
    get? n (props.set name value) = if n = name then some value else get? n props := by
  induction props with
  | nil => rw [set, get?_cons]
  | cons p props ih =>
      obtain ⟨m, v⟩ := p
      rw [set]
      split
      · rw [get?_cons]
      · split
        · rename_i hm
          simp only [get?_cons, hm]
          split <;> rfl
        · rename_i hm
          rw [get?_cons, get?_cons, ih]
          by_cases hn : n = name
          · simp [hn, hm]
          · simp [hn]

theorem mem_of_mem_set {p : String × String} {name value : String} {props : Properties}
    (h : p ∈ props.set name value) : p = (name, value) ∨ p ∈ props := by
  induction props with
  | nil => exact .inl (List.mem_singleton.1 h)
  | cons q props ih =>
      rw [set] at h
      split at h
      · exact List.mem_cons.1 h
      · split at h
        · exact (List.mem_cons.1 h).imp id (List.mem_cons_of_mem _)
        · rcases List.mem_cons.1 h with rfl | h
          · exact .inr (List.mem_cons_self ..)
          · exact (ih h).imp id (List.mem_cons_of_mem _)

theorem Sorted.set {props : Properties} (h : props.Sorted) (name value : String) :
    Sorted (props.set name value) := by
  induction props with
  | nil => exact List.pairwise_singleton _ _
  | cons q props ih =>
      obtain ⟨m, v⟩ := q
      have hq := List.pairwise_cons.1 h
      rw [Properties.set]
      split
      · rename_i hlt
        refine List.pairwise_cons.2 ⟨fun p hp => ?_, h⟩
        rcases List.mem_cons.1 hp with rfl | hp
        · exact hlt
        · exact String.lt_trans hlt (hq.1 p hp)
      · rename_i hle
        split
        · rename_i heq
          exact List.pairwise_cons.2 ⟨fun p hp => heq ▸ hq.1 p hp, hq.2⟩
        · rename_i hne
          refine List.pairwise_cons.2 ⟨fun p hp => ?_, ih hq.2⟩
          rcases mem_of_mem_set hp with rfl | hp
          · exact String.not_le.1 fun hm => hne (String.le_antisymm hm (String.not_lt.1 hle))
          · exact hq.1 p hp

theorem Sorted.get?_eq_some_iff {props : Properties} (h : props.Sorted) (n v : String) :
    get? n props = some v ↔ (n, v) ∈ props := by
  induction props with
  | nil => simp [get?_nil]
  | cons p props ih =>
      obtain ⟨m, w⟩ := p
      obtain ⟨hp, h⟩ := List.pairwise_cons.1 h
      rw [get?_cons, List.mem_cons, Prod.mk.injEq]
      split
      · rename_i hn
        have hnot : (n, v) ∉ props := fun hm => String.lt_irrefl n (hn ▸ hp _ hm)
        rw [Option.some.injEq, eq_comm (a := w), and_iff_right hn, or_iff_left hnot]
      · rename_i hn
        rw [ih h]
        simp [hn]

theorem Sorted.nodup {props : Properties} (h : props.Sorted) : props.Nodup := by
  refine List.Pairwise.imp ?_ h
  rintro p _ hlt rfl
  exact String.lt_irrefl p.1 hlt

theorem Sorted.ext {props other : Properties} (h : props.Sorted) (ho : other.Sorted)
    (hget : ∀ n, get? n props = get? n other) : props = other := by
  have hperm : props.Perm other := by
    refine (List.perm_ext_iff_of_nodup h.nodup ho.nodup).2 fun p => ?_
    rw [← h.get?_eq_some_iff, hget, ho.get?_eq_some_iff]
  exact hperm.eq_of_pairwise (fun p q _ _ hpq hqp => absurd hqp (String.lt_asymm hpq)) h ho

def setAll (more props : Properties) : Properties :=
  more.foldl (fun props p => props.set p.1 p.2) props

theorem Sorted.setAll {props : Properties} (h : props.Sorted) (more : Properties) :
    Sorted (more.setAll props) := by
  induction more generalizing props with
  | nil => exact h
  | cons p more ih => exact ih (h.set p.1 p.2)

theorem Sorted.get?_setAll {more : Properties} (h : more.Sorted) (props : Properties) (n : String) :
    get? n (more.setAll props) = (get? n more).or (get? n props) := by
  induction more generalizing props with
  | nil => rfl
  | cons p more ih =>
      obtain ⟨name, value⟩ := p
      obtain ⟨hp, (h : Sorted more)⟩ := List.pairwise_cons.1 h
      have hstep : Properties.setAll ((name, value) :: more) props =
          Properties.setAll more (props.set name value) := rfl
      rw [hstep, ih h, get?_set, get?_cons]
      split
      · rename_i hn
        have hnone : get? n more = none := by
          rw [Option.eq_none_iff_forall_ne_some]
          intro v hv
          exact String.lt_irrefl n (hn ▸ hp _ ((h.get?_eq_some_iff n v).1 hv))
        rw [hnone]
        rfl
      · rfl

theorem setAll_eq_self {more props : Properties} (h : more.Sorted) (hp : props.Sorted)
    (hn : ∀ n, (get? n props).isSome → (get? n more).isSome) : more.setAll props = more := by
  refine (hp.setAll more).ext h fun n => ?_
  rw [h.get?_setAll]
  cases hm : get? n more with
  | some v => rfl
  | none =>
      have hnone := mt (hn n)
      simpa [hm] using hnone

end Playout.Media.Properties
