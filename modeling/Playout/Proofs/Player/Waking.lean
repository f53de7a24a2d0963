import Playout.Proofs.Player.Generation

namespace Playout

namespace Deck

@[simp]
theorem wakeups_grab (index : Int) (d : Deck) : (d.grab index).2.wakeups = d.wakeups := by
  by_cases hi : index = -1
  · rw [grab, if_pos hi]
  · rcases grab_cases hi d with hg | ⟨_, _, _, -, -, hg⟩ | ⟨_, _, _, -, -, hg⟩ <;> rw [hg] <;> rfl

end Deck

namespace Playback

def Raises (s : Playback) (e : Event) : Prop :=
  (e.apply s).deck.generation ≠ s.deck.generation

def wakes (s : Playback) (e : Event) : Bool := s.deck.wakeups < (e.apply s).deck.wakeups

variable {s : Playback} {e : Event}

theorem wakes_of_grabs (s : Playback) (hg : e.grabs = true) : s.wakes e = false := by
  obtain ⟨index, rfl⟩ := eq_grab_of_grabs hg
  simp [wakes, deck, Event.apply, Request.apply, onPlayer, Player.onDeck]

theorem wakes_iff_of_raises (hr : s.Raises e) : s.wakes e = true ↔ e.grabs = false := by
  constructor
  · intro hw
    by_contra hg
    rw [wakes_of_grabs s (eq_true_of_ne_false hg)] at hw
    cases hw
  · intro hg
    rcases told_apply s hg with ⟨-, hw⟩ | hs
    · exact decide_eq_true (hw ▸ Nat.lt_succ_self _)
    · exact absurd hs.generation hr

end Playback

/-- A client that may wait for the generation to differ from one that it has seen. -/
inductive Watcher where
  | away (told : Option Nat)
  | awake (seen : Nat)
  | asleep (seen : Nat)
  deriving DecidableEq, Repr

namespace Watcher

def wait (seen : Nat) : Watcher → Watcher
  | away _ => awake seen
  | w => w

def wake : Watcher → Watcher
  | asleep seen => awake seen
  | w => w

def look (p : Player) : Watcher → Watcher
  | awake seen =>
    if p.deck.generation = seen ∧ p.cancelled = false then asleep seen
    else away (some p.deck.generation)
  | w => w

def expire (p : Player) : Watcher → Watcher
  | awake _ | asleep _ => away (some p.deck.generation)
  | w => w

theorem wait_eq_asleep {seen n : Nat} {w : Watcher} : w.wait n = asleep seen ↔ w = asleep seen := by
  cases w <;> simp [wait]

theorem wake_ne_asleep (seen : Nat) (w : Watcher) : w.wake ≠ asleep seen := by
  cases w <;> simp [wake]

theorem expire_ne_asleep (p : Player) (seen : Nat) (w : Watcher) : w.expire p ≠ asleep seen := by
  cases w <;> simp [expire]

theorem look_eq_asleep {p : Player} {seen : Nat} {w : Watcher} (h : w.look p = asleep seen) :
    w = asleep seen ∨ seen = p.deck.generation := by
  cases w with
  | away told => exact .inl h
  | asleep n => exact .inl h
  | awake n =>
      simp only [look] at h
      split at h
      · rename_i hn
        cases h
        exact .inr hn.1.symm
      · cases h

end Watcher

structure Watched where
  playback : Playback
  watchers : Nat → Watcher := fun _ => .away none

namespace Watched

open Playback

/-- What can happen at one moment: the lock is held for one event, or by one client. A client may
also wake for no reason, or run out of time. -/
inductive Act where
  | event (e : Event)
  | wait (client seen : Nat)
  | look (client : Nat)
  | stir (client : Nat)
  | expire (client : Nat)

abbrev generation (x : Watched) : Nat := x.playback.deck.generation

def Act.apply (s : Playback) : Act → Playback
  | event e => e.apply s
  | _ => s

def Act.reaches (s : Playback) (i : Nat) : Act → Bool
  | event e => s.wakes e
  | wait client _ | look client | stir client | expire client => client = i

def Act.touch (s : Playback) : Act → Watcher → Watcher
  | event _ | stir _ => Watcher.wake
  | wait _ seen => Watcher.wait seen
  | look _ => Watcher.look s.player
  | expire _ => Watcher.expire s.player

def after (x : Watched) (act : Act) : Watched where
  playback := act.apply x.playback
  watchers i :=
    if act.reaches x.playback i then act.touch x.playback (x.watchers i) else x.watchers i

def run (x : Watched) (acts : List Act) : Watched := acts.foldl after x

theorem run_append (x : Watched) (acts more : List Act) :
    x.run (acts ++ more) = (x.run acts).run more :=
  List.foldl_append

/-- Nobody sleeps over a change. -/
def Attentive (x : Watched) : Prop :=
  ∀ i seen, x.watchers i = .asleep seen → seen = x.generation

/-- An item is taken out, and a client sleeps on. -/
def Overlooks (x : Watched) : Act → Prop
  | .event e => e.grabs = true ∧ x.playback.Raises e ∧ ∃ i seen, x.watchers i = .asleep seen
  | _ => False

variable {x : Watched} {act : Act} {i seen : Nat}

/-- Nobody falls asleep but over the generation that is there. -/
theorem touch_eq_asleep {s : Playback} {w : Watcher} (h : act.touch s w = .asleep seen) :
    w = .asleep seen ∨ seen = s.deck.generation := by
  cases act with
  | event | stir => exact absurd h (Watcher.wake_ne_asleep _ _)
  | wait => exact .inl (Watcher.wait_eq_asleep.1 h)
  | look => exact Watcher.look_eq_asleep h
  | expire => exact absurd h (Watcher.expire_ne_asleep _ _ _)

theorem asleep_of_after (h : (x.after act).watchers i = .asleep seen) :
    x.watchers i = .asleep seen ∨ seen = x.generation := by
  simp only [after] at h
  split at h
  · exact touch_eq_asleep h
  · exact .inl h

theorem watchers_woken {e : Event} (hw : x.playback.wakes e = true) (i : Nat) :
    (x.after (.event e)).watchers i = (x.watchers i).wake := if_pos hw

theorem watchers_unheard {e : Event} (hw : x.playback.wakes e = false) (i : Nat) :
    (x.after (.event e)).watchers i = x.watchers i := if_neg (ne_true_of_eq_false hw)

theorem attentive_of_same (ha : x.Attentive) (hg : (x.after act).generation = x.generation) :
    (x.after act).Attentive := by
  intro i seen h
  rw [hg]
  rcases asleep_of_after h with h | he
  · exact ha i seen h
  · exact he

/-- Where nobody sleeps over a change, somebody does next if and only if an item is taken out. -/
theorem attentive_after_iff (ha : x.Attentive) : (x.after act).Attentive ↔ ¬x.Overlooks act := by
  cases act with
  | wait | look | stir | expire => exact iff_of_true (attentive_of_same ha rfl) id
  | event e =>
      by_cases hr : x.playback.Raises e
      · cases hg : e.grabs with
        | false =>
            have hw := (wakes_iff_of_raises hr).2 hg
            refine iff_of_true (fun i seen h => ?_) fun ho => ?_
            · rw [watchers_woken hw] at h
              exact absurd h (Watcher.wake_ne_asleep _ _)
            · rw [ho.1] at hg
              cases hg
        | true =>
            have hw := wakes_of_grabs x.playback hg
            constructor
            · rintro hn ⟨-, -, i, seen, h⟩
              have hi : (x.after (.event e)).watchers i = .asleep seen := by
                rw [watchers_unheard hw, h]
              exact hr ((hn i seen hi).symm.trans (ha i seen h))
            · intro ho i seen h
              rw [watchers_unheard hw] at h
              exact absurd ⟨hg, hr, i, seen, h⟩ ho
      · exact iff_of_true (attentive_of_same ha (not_not.1 hr)) fun ho => hr ho.2.1

theorem generation_le_after (x : Watched) (act : Act) : x.generation ≤ (x.after act).generation := by
  cases act with
  | event e => exact (counted_apply x.playback e).since.le
  | _ => exact Nat.le_refl _

/-- Who was told of a change does not fall asleep again over what there was before. -/
theorem stays_up (hs : seen < x.generation) (hi : x.watchers i ≠ .asleep seen) (more : List Act) :
    seen < (x.run more).generation ∧ (x.run more).watchers i ≠ .asleep seen := by
  induction more generalizing x with
  | nil => exact ⟨hs, hi⟩
  | cons act more ih =>
      refine ih (Nat.lt_of_lt_of_le hs (generation_le_after x act)) fun h => ?_
      rcases asleep_of_after h with h | he
      · exact hi h
      · omega

section Run

variable (s : Playback) (acts : List Act)

def moment (i : Nat) : Watched := run { playback := s } (acts.take i)

theorem moment_succ {i : Nat} {act : Act} (h : acts[i]? = some act) :
    moment s acts (i + 1) = (moment s acts i).after act := by
  rw [moment, List.take_add_one, h, run_append]
  rfl

theorem moment_of_end {i : Nat} (h : acts[i]? = none) : moment s acts (i + 1) = moment s acts i := by
  rw [moment, moment, List.take_add_one, h]
  simp

theorem attentive_iff :
    (∀ i, (moment s acts i).Attentive) ↔
      ∀ i act, acts[i]? = some act → ¬(moment s acts i).Overlooks act := by
  constructor
  · intro ha i act h
    have hn := ha (i + 1)
    rw [moment_succ s acts h] at hn
    exact (attentive_after_iff (ha i)).1 hn
  · intro ho i
    induction i with
    | zero =>
        intro i seen h
        cases h
    | succ i ih =>
        cases h : acts[i]? with
        | none => rwa [moment_of_end s acts h]
        | some act =>
            rw [moment_succ s acts h]
            exact (attentive_after_iff ih).2 (ho i act h)

/-- Whatever clients and loop do, and in any order: an event that counts one up wakes the waiting
exactly if it takes no item out. A client that sleeps is then awake, and is not asleep again
before it was told; or else it sleeps on. So nobody ever sleeps over a change if and only if no
item is taken out while somebody sleeps. -/
theorem change_wakes_iff :
    (∀ i e, (moment s acts i).playback.Raises e →
      ((moment s acts i).playback.wakes e = true ↔ e.grabs = false)) ∧
    (∀ i e client seen, (moment s acts i).playback.Raises e → seen = (moment s acts i).generation →
      (moment s acts i).watchers client = .asleep seen →
      let next := (moment s acts i).after (.event e)
      (e.grabs = true → next.watchers client = .asleep seen) ∧
      (e.grabs = false → next.watchers client = .awake seen ∧
        ∀ more, seen < (next.run more).generation ∧ (next.run more).watchers client ≠ .asleep seen)) ∧
    ((∀ i, (moment s acts i).Attentive) ↔
      ∀ i act, acts[i]? = some act → ¬(moment s acts i).Overlooks act) := by
  refine ⟨fun i e hr => wakes_iff_of_raises hr, ?_, attentive_iff s acts⟩
  rintro i e client seen hr rfl h next
  constructor
  · intro hg
    exact (watchers_unheard (wakes_of_grabs _ hg) client).trans h
  · intro hg
    have hw : next.watchers client = .awake (moment s acts i).generation := by
      rw [watchers_woken ((wakes_iff_of_raises hr).2 hg), h]
      rfl
    have hlt : (moment s acts i).generation < next.generation :=
      Nat.lt_of_le_of_ne (generation_le_after _ _) (Ne.symm hr)
    exact ⟨hw, stays_up hlt (by rw [hw]; nofun)⟩

end Run

def sleeper : List Act := [.event (.request (.add 0)), .wait 0 1, .look 0]

def single : Playback := { catalog := ⟨#[.testPattern 3]⟩ }

theorem change_wakes_iff_next :
    let x := moment single sleeper 3
    let e : Event := .request .next
    x.playback.Raises e ∧ x.watchers 0 = .asleep x.generation ∧ e.grabs = false ∧
      (x.after (.event e)).watchers 0 = .awake x.generation := by
  intro x e
  have hr : x.playback.Raises e := show (2 : Nat) ≠ 1 by decide
  exact ⟨hr, rfl, rfl,
    (((change_wakes_iff single sleeper).2.1 3 e 0 1 hr rfl rfl).2 rfl).1⟩

/-- A client sleeps on while an item is taken out, until its time is up. -/
theorem asleep_over_grab :
    let x := moment single sleeper 3
    let e : Event := .request (.grab 0)
    let next := x.after (.event e)
    x.watchers 0 = .asleep 1 ∧ x.generation = 1 ∧ next.generation = 2 ∧
      x.playback.wakes e = false ∧ next.watchers 0 = .asleep 1 ∧
      (next.after (.expire 0)).watchers 0 = .away (some 2) :=
  ⟨rfl, rfl, rfl, rfl, rfl, rfl⟩

end Watched

end Playout
