import Mathlib.Data.List.Perm.Subperm
import Playout.Proofs.Player.Event
import Playout.Proofs.Player.Slots

namespace Playout

open Media

/-- At one place of a list some entries give way to others. -/
def Spliced (place : Nat) (gone come old new : List Handle) : Prop :=
  ∃ front back, front.length = place ∧ old = front ++ gone ++ back ∧ new = front ++ come ++ back

theorem Spliced.same {old new : List Handle} (h : new = old) : Spliced 0 [] [] old new :=
  ⟨[], old, rfl, rfl, h⟩

/-- Of two timelines of a run, what was taken and brought between them, and that the rest stayed in
its order. -/
structure Conserved (taken brought old new : List Handle) : Prop where
  balance : (old ++ brought).Perm (new ++ taken)
  order : ∃ kept, kept.Sublist old ∧ kept.Sublist new ∧
    old.Subperm (kept ++ taken) ∧ new.Subperm (kept ++ brought)

theorem Conserved.refl (l : List Handle) : Conserved [] [] l l :=
  ⟨.refl _, l, .refl _, .refl _, by simp [List.Subperm.refl], by simp [List.Subperm.refl]⟩

/-- Of what stayed so far, the part outside the place of a splice stays on. -/
theorem Conserved.splice {taken brought old mid new gone come : List Handle} {place : Nat}
    (h : Conserved taken brought old mid) (hs : Spliced place gone come mid new) :
    Conserved (taken ++ gone) (brought ++ come) old new := by
  obtain ⟨front, back, -, rfl, rfl⟩ := hs
  obtain ⟨kept, hold, hmid, hlost, hnew⟩ := h.order
  constructor
  · rw [List.perm_iff_count]
    intro x
    have hx := h.balance.count_eq x
    simp only [List.count_append] at hx ⊢
    omega
  · obtain ⟨ab, b, rfl, hab, hb⟩ := List.sublist_append_iff.1 hmid
    obtain ⟨a, r, rfl, ha, hr⟩ := List.sublist_append_iff.1 hab
    have hless : (a ++ b).Sublist (a ++ r ++ b) := (List.sublist_append_left a r).append (.refl b)
    refine ⟨a ++ b, hless.trans hold, ?_, ?_, ?_⟩
    · exact (ha.trans (List.sublist_append_left front come)).append hb
    · rw [List.subperm_ext_iff]
      intro x _
      have hx := hlost.count_le x
      have hg := hr.count_le x
      simp only [List.count_append] at hx ⊢
      omega
    · rw [List.subperm_ext_iff]
      intro x _
      have hx := hnew.count_le x
      have hg := hr.count_le x
      simp only [List.count_append] at hx ⊢
      omega

namespace Deck

def fixed (d : Deck) : List Handle := d.history ++ d.current.toList

theorem timeline_eq_fixed (d : Deck) : d.timeline = d.fixed ++ d.playlist := rfl

/-- The entries that a promotion finds beyond the capacity, the oldest ones, once the item that was
played has joined the history or gone back from it. -/
def surplus (capacity : Nat) (d : Deck) : List Handle :=
  d.retire.history.take (d.retire.history.length - capacity)

@[simp]
theorem timeline_bump (d : Deck) : d.bump.timeline = d.timeline := rfl

@[simp]
theorem timeline_wake (d : Deck) : d.wake.timeline = d.timeline := rfl

theorem spliced_set (h : Handle) (d : Deck) :
    Spliced d.fixed.length d.playlist [h] d.timeline (d.set h).timeline :=
  ⟨d.fixed, [], rfl, by simp [timeline_eq_fixed], by simp [timeline_eq_fixed, fixed, set, bump, wake]⟩

theorem timeline_add (h : Handle) (d : Deck) : (d.add h).timeline = d.timeline ++ [h] := by
  simp [add, timeline, bump, wake]

theorem spliced_add (h : Handle) (d : Deck) :
    Spliced d.timeline.length [] [h] d.timeline (d.add h).timeline :=
  ⟨d.timeline, [], rfl, by simp, by simp [timeline_add]⟩

theorem timeline_next (d : Deck) : d.next.timeline = d.timeline := by
  unfold next
  split <;> rfl

theorem timeline_prev (d : Deck) : d.prev.timeline = d.timeline := by
  unfold prev
  split <;> rfl

theorem timeline_setSpeed (speed : Int) (d : Deck) : (d.setSpeed speed).timeline = d.timeline := by
  unfold setSpeed
  split <;> rfl

theorem current_retire (d : Deck) : d.retire.current = none := by
  rw [retire_eq]

/-- The item that was played goes behind the history or, with the newest of the history, in front of
the playlist: two ways of writing one timeline. -/
theorem timeline_retire (d : Deck) : d.retire.timeline = d.timeline := by
  unfold retire
  split
  · rfl
  · rename_i outgoing hc
    split
    · have hh : d.history.dropLast ++ d.history.getLast?.toList = d.history := by
        cases hl : d.history.getLast? with
        | none => simp_all
        | some h => simpa using List.dropLast_append_getLast? h hl
      simp only [timeline, hc, Option.toList_none, Option.toList_some, List.append_nil]
      rw [← List.append_assoc, hh, List.append_assoc, List.singleton_append]
    · simp [timeline, hc]

/-- A promotion drops the surplus and keeps the rest of the timeline. -/
theorem timeline_promote (capacity : Nat) (d : Deck) :
    d.timeline = d.surplus capacity ++ (d.promote capacity).2.timeline := by
  have hp : (d.promote capacity).2.timeline = (d.retire.evict capacity).timeline := by
    have hc : (d.retire.evict capacity).current = none := current_retire d
    simp only [promote]
    split <;> rename_i hl <;> simp_all [timeline, answered, bump, wake]
  rw [hp, ← timeline_retire]
  simp only [timeline, evict, surplus, ← List.append_assoc, List.take_append_drop]

theorem insertIdx_between (front back : List Handle) (h : Handle) :
    (front ++ back).insertIdx front.length h = front ++ h :: back := by
  induction front with
  | nil => simp
  | cons x front ih => simp [ih]

theorem spliced_insert (index : Int) (h : Handle) (d : Deck) :
    Spliced
      (d.fixed.length +
        if 0 ≤ index ∧ index < d.playlist.length then index.toNat else d.playlist.length)
      [] [h] d.timeline (d.insert index h).timeline := by
  unfold insert
  split
  · rename_i hi
    have hl : (d.playlist.take index.toNat).length = index.toNat := by
      rw [List.length_take]; omega
    have hb := insertIdx_between (d.playlist.take index.toNat) (d.playlist.drop index.toNat) h
    rw [List.take_append_drop, hl] at hb
    refine ⟨d.fixed ++ d.playlist.take index.toNat, d.playlist.drop index.toNat, ?_, ?_, ?_⟩
    · rw [List.length_append, hl]
    · simp [timeline_eq_fixed]
    · simp [timeline_eq_fixed, fixed, bump, wake, hb]
  · refine ⟨d.timeline, [], ?_, by simp, by simp [timeline_add]⟩
    simp [timeline_eq_fixed]

theorem split_at {l : List Handle} {i : Nat} {h : Handle} (hi : l[i]? = some h) :
    ∃ front back, front.length = i ∧ l = front ++ h :: back ∧ l.eraseIdx i = front ++ back := by
  obtain ⟨hl, rfl⟩ := List.getElem?_eq_some_iff.1 hi
  refine ⟨l.take i, l.drop (i + 1), ?_, ?_, List.eraseIdx_eq_take_drop_succ l i⟩
  · rw [List.length_take]; omega
  · rw [List.getElem_cons_drop, List.take_append_drop]

/-- An index other than that of the current item takes an entry of the playlist or of the history,
or nothing. -/
theorem grab_cases {index : Int} (hi : index ≠ -1) (d : Deck) :
    d.grab index = (none, d) ∨
      (∃ front h back, (front.length : Int) = index ∧ d.playlist = front ++ h :: back ∧
        d.grab index = (some h, { d with playlist := front ++ back }.bump)) ∨
      ∃ front h back, -(back.length + 2 : Int) = index ∧ d.history = front ++ h :: back ∧
        d.grab index = (some h, { d with history := front ++ back }.bump) := by
  rcases index_cases index d with ⟨i, rfl⟩ | rfl | ⟨i, hlt, rfl⟩ | hb
  · rw [grab_ahead, takeAhead]
    cases hg : d.playlist[i]? with
    | none => exact .inl (by rw [if_neg (Nat.not_lt.2 (List.getElem?_eq_none_iff.1 hg))])
    | some h =>
        obtain ⟨hlt, -⟩ := List.getElem?_eq_some_iff.1 hg
        obtain ⟨front, back, hf, hl, he⟩ := split_at hg
        exact .inr (.inl ⟨front, h, back, by omega, hl, by rw [if_pos hlt, he]⟩)
  · exact absurd rfl hi
  · have hg := List.getElem?_eq_getElem hlt
    obtain ⟨front, back, hf, hl, he⟩ := split_at hg
    have hs := congrArg List.length hl
    rw [List.length_append, List.length_cons] at hs
    rw [grab_past hlt, takePast, if_pos hlt, hg, he]
    exact .inr (.inr ⟨front, d.history[i], back, by omega, hl, rfl⟩)
  · exact .inl (grab_before hb)

def slot (index : Int) (d : Deck) : Nat :=
  (if 0 ≤ index then d.fixed.length + index else d.history.length + 1 + index).toNat

theorem spliced_grab {index : Int} (hi : index ≠ -1) (d : Deck) :
    Spliced (if (d.grab index).1.isSome then d.slot index else 0)
      (d.grab index).1.toList [] d.timeline (d.grab index).2.timeline := by
  obtain hg | ⟨front, h, back, hf, hl, hg⟩ | ⟨front, h, back, hb, hl, hg⟩ := grab_cases hi d
  · rw [hg]
    exact .same rfl
  · rw [hg]
    refine ⟨d.fixed ++ front, back, ?_, ?_, ?_⟩
    · simp only [Option.isSome_some, if_true, slot, List.length_append]
      rw [if_pos (by omega)]
      omega
    · simp [timeline_eq_fixed, hl]
    · simp [timeline_eq_fixed, fixed, bump]
  · rw [hg]
    refine ⟨front, back ++ d.current.toList ++ d.playlist, ?_, ?_, ?_⟩
    · simp only [Option.isSome_some, if_true, slot, hl, List.length_append, List.length_cons]
      rw [if_neg (by omega)]
      omega
    · simp [timeline, hl]
    · simp [timeline, bump]

end Deck

namespace Playback

abbrev timeline (s : Playback) : List Handle := s.deck.timeline

/-- What an event takes out: the playlist that is replaced, the item that is grabbed, the surplus of
a promotion. -/
def gone (s : Playback) : Event → List Handle
  | .request (.set _) => s.deck.playlist
  | .request (.grab index) => if index = -1 then [] else (s.deck.grab index).1.toList
  | .move .promotion => if s.player.promotes then s.deck.surplus s.capacity else []
  | _ => []

def come : Event → List Handle
  | .request (.set h) | .request (.add h) | .request (.insert _ h) => [h]
  | _ => []

def place (s : Playback) : Event → Nat
  | .request (.set _) => s.deck.fixed.length
  | .request (.add _) => s.timeline.length
  | .request (.insert index _) =>
    s.deck.fixed.length +
      if 0 ≤ index ∧ index < s.deck.playlist.length then index.toNat else s.deck.playlist.length
  | .request (.grab index) =>
    if index ≠ -1 ∧ (s.deck.grab index).1.isSome then s.deck.slot index else 0
  | _ => 0

theorem timeline_frame (h : Handle) (catalog : Catalog) (p : Player) :
    (p.playFrame h catalog).2.deck.timeline = p.deck.timeline := by
  obtain ⟨_, _, _, _, _, _, _, he, -⟩ := p.playFrame_eq h catalog
  rw [he]
  rfl

theorem timeline_shutdown (catalog : Catalog) (p : Player) :
    (p.shutdown catalog).2.deck.timeline = p.deck.timeline := by
  obtain hd | ⟨h, -, hd⟩ := p.deck_shutdown catalog
  · rw [hd]
    rfl
  · rw [hd]
    exact timeline_frame h catalog p.cancel

theorem spliced_request (s : Playback) (r : Request) :
    Spliced (s.place (.request r)) (s.gone (.request r)) (come (.request r)) s.timeline
      (r.apply s).timeline := by
  cases hr : r.meansDeck with
  | false =>
      obtain ⟨wakeups, controllers, he⟩ := deck_aside hr
      cases r with
      | start | cancel | controlStart | controlEnd | setStore =>
          refine .same ?_
          rw [timeline, he]
          rfl
      | _ => cases hr
  | true =>
      cases r with
      | set h => exact Deck.spliced_set h s.deck
      | add h => exact Deck.spliced_add h s.deck
      | insert index h => exact Deck.spliced_insert index h s.deck
      | grab index =>
          by_cases hi : index = -1
          · subst hi
            exact .same rfl
          · simp only [place, gone, hi, if_false, ne_eq, not_false_eq_true, true_and]
            exact Deck.spliced_grab hi s.deck
      | shutdown => exact .same (timeline_shutdown _ _)
      | next => exact .same (Deck.timeline_next _)
      | prev => exact .same (Deck.timeline_prev _)
      | setSpeed speed => exact .same (Deck.timeline_setSpeed _ _)
      | seek position =>
          refine .same ?_
          rw [timeline, deck_seek]
          cases s.deck.current <;> rfl
      | start | cancel | controlStart | controlEnd | setStore => cases hr

theorem spliced_move (s : Playback) (m : Move) :
    Spliced (s.place (.move m)) (s.gone (.move m)) (come (.move m)) s.timeline
      (m.apply s).timeline := by
  cases m with
  | frame =>
      refine .same ?_
      simp only [Move.apply]
      split
      · exact timeline_frame _ _ _
      · rfl
  | look =>
      refine .same ?_
      simp only [Move.apply]
      split
      · exact congrArg Deck.timeline (Player.deck_betweenFrames _)
      · rfl
  | promotion =>
      have hd := s.player.deck_settle s.catalog
      simp only [timeline, Move.apply, onLoop, place, gone, come, deck, hd]
      split
      · exact ⟨[], _, rfl, Deck.timeline_promote _ _, rfl⟩
      · exact .same rfl

theorem spliced_apply (s : Playback) (e : Event) :
    Spliced (s.place e) (s.gone e) (come e) s.timeline (e.apply s).timeline := by
  cases e with
  | request r => exact spliced_request s r
  | change c => exact .same rfl
  | move m => exact spliced_move s m

def taken (s : Playback) : List Event → List Handle
  | [] => []
  | e :: es => s.gone e ++ taken (e.apply s) es

def brought (es : List Event) : List Handle := es.flatMap come

theorem conserved_run (es : List Event) {s : Playback} {before after old : List Handle}
    (h : Conserved before after old s.timeline) :
    Conserved (before ++ s.taken es) (after ++ brought es) old (s.run es).timeline := by
  induction es generalizing s before after with
  | nil => simpa [taken, brought] using h
  | cons e es ih =>
      have hs := ih (h.splice (spliced_apply s e))
      simpa only [taken, brought, run_cons, List.flatMap_cons, List.append_assoc] using hs

/-- From any state, whatever happened since: every event acts at its one place, and over the whole
run the timeline balances and keeps its order. -/
theorem timeline_conserved (s : Playback) (es : List Event) :
    (∀ e, Spliced ((s.run es).place e) ((s.run es).gone e) (come e) (s.run es).timeline
      (e.apply (s.run es)).timeline) ∧
    Conserved (s.taken es) (brought es) s.timeline (s.run es).timeline :=
  ⟨spliced_apply _, by simpa using conserved_run es (.refl s.timeline)⟩

end Playback

end Playout
