import Mathlib.Data.List.Basic
import Playout.Proofs.Player.Event

namespace Playout

open Media (Frame)

namespace Store

def Accepts : Store → Prop
  | .scripted script _ pushes => ∀ n, pushes ≤ n → script.onPush n = true
  | _ => True

theorem Accepts.push {s : Store} (h : s.Accepts) (frame : Frame) :
    (s.push frame).1 = true ∧ (s.push frame).2.Accepts := by
  cases s with
  | null | clock => exact ⟨rfl, trivial⟩
  | scripted script inits pushes => exact ⟨h pushes (Nat.le_refl _), fun n hn => h n (by omega)⟩

theorem Accepts.init {s : Store} (h : s.Accepts) : s.init.2.Accepts := by
  cases s <;> exact h

theorem Accepts.complete {s : Store} (h : s.Accepts) : s.complete.2.Accepts := by
  cases s <;> exact h

def Call.isPlay : Call → Bool
  | push _ _ _ | complete _ => true
  | init _ _ | set _ _ _ _ => false

def Call.isPush : Call → Bool
  | push _ _ _ => true
  | _ => false

/-- What the loop asks of all stores in a round. -/
inductive Demand where
  | init
  | push (frame : Frame)
  | complete
  deriving DecidableEq, Repr

def Demand.answer : Demand → Store → Bool × Store
  | init => Store.init
  | push frame => Store.push frame
  | complete => Store.complete

def Demand.entry : Demand → Nat → Bool → Call
  | init => .init
  | push frame => fun i ok => .push i ok frame
  | complete => fun i _ => .complete i

def Call.demand? : Call → Option Demand
  | init _ _ => some .init
  | push _ _ frame => some (.push frame)
  | complete _ => some .complete
  | set _ _ _ _ => none

@[simp]
theorem Demand.store_entry (demand : Demand) (i : Nat) (ok : Bool) :
    (demand.entry i ok).store = i := by
  cases demand <;> rfl

@[simp]
theorem Demand.demand?_entry (demand : Demand) (i : Nat) (ok : Bool) :
    (demand.entry i ok).demand? = some demand := by
  cases demand <;> rfl

theorem filter_round {α : Type} (answers : List α) (j k : Nat) (call : Nat → α → Call)
    (hc : ∀ i a, (call i a).store = i) :
    ((answers.mapIdx fun i => call (i + k)).filter fun c => c.store = j) =
      if k ≤ j then (answers[j - k]?).toList.map (call j) else [] := by
  induction answers generalizing k with
  | nil => simp
  | cons a answers ih =>
      have hi : (fun i => call (i + 1 + k)) = fun i => call (i + (k + 1)) := by
        funext i
        rw [Nat.add_right_comm, Nat.add_assoc]
      rw [List.mapIdx_cons, List.filter_cons, Nat.zero_add, hi, ih (k + 1)]
      obtain hk | rfl | hk := Nat.lt_trichotomy k j
      · have hj : j - k = j - (k + 1) + 1 := by omega
        simp [hc, hj, Nat.ne_of_lt hk, Nat.le_of_lt hk, Nat.succ_le_of_lt hk]
      · rw [if_neg (Nat.not_succ_le_self k)]
        simp [hc]
      · simp [hc, Nat.ne_of_gt hk, Nat.not_le_of_gt hk, Nat.not_le_of_gt (Nat.lt_succ_of_lt hk)]

end Store

namespace Player

def log (j : Nat) (p : Player) : List Store.Call :=
  (p.journal.filter fun c => c.store = j).filter Store.Call.isPlay

theorem filter_ask (call : Store → Bool × Store) {entry : Nat → Bool → Store.Call}
    (he : ∀ i ok, (entry i ok).store = i) (j : Nat) (p : Player) :
    ((p.ask call entry).2.journal.filter fun c => c.store = j) =
      (p.journal.filter fun c => c.store = j) ++
        (p.stores[j]?).toList.map fun s => entry j (call s).1 := by
  have hr := Store.filter_round (p.stores.map call) j 0 (fun i a => entry i a.1) fun i a => he i a.1
  simp only [Nat.add_zero, Nat.zero_le, if_true, Nat.sub_zero] at hr
  rw [ask, List.filter_append, hr, List.getElem?_map]
  cases p.stores[j]? <;> rfl

theorem log_ask (call : Store → Bool × Store) {entry : Nat → Bool → Store.Call}
    (he : ∀ i ok, (entry i ok).store = i) (j : Nat) (p : Player) :
    (p.ask call entry).2.log j =
      p.log j ++ ((p.stores[j]?).toList.map fun s => entry j (call s).1).filter Store.Call.isPlay := by
  rw [log, filter_ask call he, List.filter_append, ← log]

def AllAccept (p : Player) : Prop := ∀ s ∈ p.stores, s.Accepts

theorem AllAccept.ask {p : Player} (h : p.AllAccept) {call : Store → Bool × Store}
    (entry : Nat → Bool → Store.Call) (hc : ∀ s : Store, s.Accepts → (call s).2.Accepts) :
    (p.ask call entry).2.AllAccept := by
  intro s hs
  simp only [Player.ask, List.map_map, List.mem_map, Function.comp_apply] at hs
  obtain ⟨t, ht, rfl⟩ := hs
  exact hc t (h t ht)

theorem AllAccept.deliver {p : Player} (h : p.AllAccept) (frame : Frame) :
    (p.deliver frame).2.AllAccept :=
  h.ask _ fun _ hs => (hs.push frame).2

theorem AllAccept.completeStores {p : Player} (h : p.AllAccept) : p.completeStores.AllAccept :=
  h.ask _ fun _ hs => hs.complete

theorem AllAccept.initStores {p : Player} (h : p.AllAccept) : p.initStores.AllAccept :=
  h.ask .init fun _ hs => hs.init

theorem length_ask (call : Store → Bool × Store) (entry : Nat → Bool → Store.Call) (p : Player) :
    (p.ask call entry).2.stores.length = p.stores.length := by
  simp [ask]

@[simp]
theorem length_deliver (frame : Frame) (p : Player) :
    (p.deliver frame).2.stores.length = p.stores.length := length_ask _ _ _

@[simp]
theorem length_completeStores (p : Player) :
    p.completeStores.stores.length = p.stores.length := length_ask _ _ _

@[simp]
theorem length_initStores (p : Player) : p.initStores.stores.length = p.stores.length :=
  length_ask _ .init _

theorem deliver_accepted {p : Player} (h : p.AllAccept) (frame : Frame) :
    (p.deliver frame).1 = true := by
  simp only [deliver, ask, List.all_map, List.all_eq_true, Function.comp_apply]
  exact fun s hs => ((h s hs).push frame).1

theorem log_deliver {p : Player} (h : p.AllAccept) (frame : Frame) {j : Nat}
    (hj : j < p.stores.length) :
    (p.deliver frame).2.log j = p.log j ++ [.push j true frame] := by
  have ha := ((h p.stores[j] (List.getElem_mem hj)).push frame).1
  rw [deliver, log_ask _ fun _ _ => rfl]
  simp [hj, ha, Store.Call.isPlay]

theorem log_completeStores (p : Player) {j : Nat} (hj : j < p.stores.length) :
    p.completeStores.log j = p.log j ++ [.complete j] := by
  rw [completeStores, log_ask _ fun _ _ => rfl]
  simp [hj, Store.Call.isPlay]

theorem log_initStores (j : Nat) (p : Player) : p.initStores.log j = p.log j := by
  have hl := @log_ask Store.init .init (fun _ _ => rfl) j p
  have hn : ((p.stores[j]?).toList.map fun s => Store.Call.init j s.init.1).filter
      Store.Call.isPlay = [] := by
    cases p.stores[j]? <;> rfl
  rw [hn, List.append_nil] at hl
  exact hl

def answers (demand : Store.Demand) (p : Player) : List Bool :=
  p.stores.map fun s => (demand.answer s).1

def round (demand : Store.Demand) (p : Player) : Player := (p.ask demand.answer demand.entry).2

/-- The calls in which the store of a number was asked for something, with its answers. -/
def calls (j : Nat) (p : Player) : List Store.Call :=
  (p.journal.filter fun c => c.store = j).filter fun c => c.demand?.isSome

theorem ask_demand (demand : Store.Demand) (p : Player) :
    p.ask demand.answer demand.entry = ((p.answers demand).all id, p.round demand) := by
  rw [round, answers, List.all_map]
  simp only [ask, List.all_map]
  rfl

theorem deliver_eq (frame : Frame) (p : Player) :
    p.deliver frame = ((p.answers (.push frame)).all id, p.round (.push frame)) :=
  ask_demand (.push frame) p

theorem initStores_eq (p : Player) :
    p.initStores = { p.round .init with storesReady := (p.answers .init).all id } := by
  have h := ask_demand .init p
  simp only [initStores]
  exact congrArg (fun r : Bool × Player => ({ r.2 with storesReady := r.1 } : Player)) h

@[simp]
theorem length_answers (demand : Store.Demand) (p : Player) :
    (p.answers demand).length = p.stores.length := List.length_map _

theorem length_round (demand : Store.Demand) (p : Player) :
    (p.round demand).stores.length = p.stores.length := length_ask _ _ p

theorem calls_round (demand : Store.Demand) (j : Nat) (p : Player) :
    (p.round demand).calls j =
      p.calls j ++ ((p.answers demand)[j]?.map (demand.entry j)).toList := by
  rw [calls, round, filter_ask _ demand.store_entry, List.filter_append, ← calls, answers,
    List.getElem?_map]
  cases p.stores[j]? <;> simp

theorem AllAccept.readied {p : Player} (h : p.AllAccept) : p.readied.AllAccept := by
  unfold Player.readied
  split
  · exact h
  · exact h.initStores

@[simp]
theorem length_readied (p : Player) : p.readied.stores.length = p.stores.length :=
  readied_congr (fun p => p.stores.length) (length_initStores p)

@[simp]
theorem log_readied (j : Nat) (p : Player) : p.readied.log j = p.log j :=
  readied_congr (log j) (log_initStores j p)

end Player

end Playout
