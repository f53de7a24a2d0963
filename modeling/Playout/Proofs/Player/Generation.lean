import Playout.Proofs.Player.Reachable
import Playout.Proofs.Player.Timeline

namespace Playout

open Media

namespace Deck

/-- What the generation speaks for: the timeline by its parts, the speed and the open requests. -/
structure Face where
  current : Option Handle
  playlist : List Handle
  history : List Handle
  speed : Int
  nextPending : Bool
  prevPending : Bool
  deriving DecidableEq, Repr

def face (d : Deck) : Face :=
  ⟨d.current, d.playlist, d.history, d.speed, d.nextPending, d.prevPending⟩

structure Silent (d d' : Deck) : Prop where
  generation : d'.generation = d.generation
  face : d'.face = d.face

def Counted (d d' : Deck) : Prop := d'.generation = d.generation + 1 ∨ Silent d d'

def Told (d d' : Deck) : Prop :=
  (d'.generation = d.generation + 1 ∧ d'.wakeups = d.wakeups + 1) ∨ Silent d d'

/-- One was counted for a change, or nothing was changed. -/
def Exact (d d' : Deck) : Prop :=
  (d'.generation = d.generation + 1 ∧ d'.face ≠ d.face) ∨ Silent d d'

/-- The generation goes up, and where it does not nothing has changed. -/
structure Since (d d' : Deck) : Prop where
  le : d.generation ≤ d'.generation
  face : d'.generation = d.generation → d'.face = d.face

variable {d d' d'' : Deck}

theorem Silent.refl (d : Deck) : Silent d d := ⟨rfl, rfl⟩

theorem Silent.wake (h : Silent d d') : Silent d d'.wake := ⟨h.generation, h.face⟩

theorem Told.counted (h : Told d d') : Counted d d' := h.imp_left And.left

theorem Exact.counted (h : Exact d d') : Counted d d' := by
  rcases h with ⟨hg, -⟩ | h
  · exact .inl hg
  · exact .inr h

theorem Exact.iff (h : Exact d d') : d'.generation = d.generation ↔ d'.face = d.face := by
  rcases h with ⟨hg, hf⟩ | h
  · constructor
    · intro he
      omega
    · intro he
      exact absurd he hf
  · exact ⟨fun _ => h.face, fun _ => h.generation⟩

theorem Counted.le_succ (h : Counted d d') : d'.generation ≤ d.generation + 1 := by
  rcases h with h | h
  · exact Nat.le_of_eq h
  · exact Nat.le_succ_of_le (Nat.le_of_eq h.generation)

theorem Counted.since (h : Counted d d') : Since d d' := by
  rcases h with h | h
  · exact ⟨by omega, fun he => by omega⟩
  · exact ⟨Nat.le_of_eq h.generation.symm, fun _ => h.face⟩

theorem Since.refl (d : Deck) : Since d d := ⟨Nat.le_refl _, fun _ => rfl⟩

theorem Since.trans (h : Since d d') (k : Since d' d'') : Since d d'' where
  le := Nat.le_trans h.le k.le
  face := by
    intro he
    have hl := h.le
    have kl := k.le
    exact (k.face (by omega)).trans (h.face (by omega))

theorem told_insert (index : Int) (h : Handle) (d : Deck) : Told d (d.insert index h) := by
  unfold insert
  split <;> exact .inl ⟨rfl, rfl⟩

theorem told_next (d : Deck) : Told d d.next := by
  unfold next
  split
  · exact .inl ⟨rfl, rfl⟩
  · exact .inr (.refl d)

theorem told_prev (d : Deck) : Told d d.prev := by
  unfold prev
  split
  · exact .inl ⟨rfl, rfl⟩
  · exact .inr (.refl d)

theorem told_setSpeed (speed : Int) (d : Deck) : Told d (d.setSpeed speed) := by
  unfold setSpeed
  split
  · exact .inr (Silent.refl d).wake
  · exact .inl ⟨rfl, rfl⟩

theorem exact_grab (index : Int) (d : Deck) : Exact d (d.grab index).2 := by
  by_cases hi : index = -1
  · subst hi
    exact .inr (.refl d)
  · rcases grab_cases hi d with hg | ⟨front, h, back, -, hl, hg⟩ | ⟨front, h, back, -, hl, hg⟩
    · rw [hg]
      exact .inr (.refl d)
    · rw [hg]
      refine .inl ⟨rfl, fun he => ?_⟩
      have hp : front ++ back = d.playlist := congrArg Face.playlist he
      simpa [hl] using congrArg List.length hp
    · rw [hg]
      refine .inl ⟨rfl, fun he => ?_⟩
      have hp : front ++ back = d.history := congrArg Face.history he
      simpa [hl] using congrArg List.length hp

theorem exact_next (d : Deck) : Exact d d.next := by
  unfold next
  split
  · rename_i hd
    refine .inl ⟨rfl, fun he => hd.2 ?_⟩
    exact (congrArg Face.nextPending he).symm
  · exact .inr (.refl d)

theorem exact_prev (d : Deck) : Exact d d.prev := by
  unfold prev
  split
  · rename_i hd
    refine .inl ⟨rfl, fun he => hd.2 ?_⟩
    exact (congrArg Face.prevPending he).symm
  · exact .inr (.refl d)

theorem exact_setSpeed (speed : Int) (d : Deck) : Exact d (d.setSpeed speed) := by
  unfold setSpeed
  split
  · exact .inr (Silent.refl d).wake
  · rename_i hs
    refine .inl ⟨rfl, fun he => hs ?_⟩
    exact (congrArg Face.speed he).symm

theorem told_promote (capacity : Nat) (d : Deck) : Told d (d.promote capacity).2 := by
  rw [promote_eq]
  exact .inl ⟨rfl, rfl⟩

end Deck

namespace Playback

open Deck

variable {s : Playback}

theorem silent_frame (h : Handle) (catalog : Catalog) (p : Player) :
    Silent p.deck (p.playFrame h catalog).2.deck := by
  obtain ⟨_, _, _, _, _, _, _, he, -⟩ := p.playFrame_eq h catalog
  rw [he]
  exact ⟨rfl, rfl⟩

theorem silent_shutdown (catalog : Catalog) (p : Player) :
    Silent p.deck (p.shutdown catalog).2.deck := by
  rcases p.deck_shutdown catalog with hd | ⟨h, -, hd⟩
  · rw [hd]
    exact ⟨rfl, rfl⟩
  · rw [hd]
    have hs := silent_frame h catalog p.cancel
    exact ⟨hs.generation, hs.face⟩

def Event.grabs : Event → Bool
  | request (.grab _) => true
  | _ => false

theorem told_request (s : Playback) {r : Request} (hg : (Event.request r).grabs = false) :
    Told s.deck (r.apply s).deck := by
  cases hr : r.meansDeck with
  | false =>
      obtain ⟨wakeups, controllers, he⟩ := deck_aside hr
      rw [he]
      exact .inr ⟨rfl, rfl⟩
  | true =>
      cases r with
      | set h | add h => exact .inl ⟨rfl, rfl⟩
      | insert index h => exact told_insert index h s.deck
      | grab index => cases hg
      | next => exact told_next s.deck
      | prev => exact told_prev s.deck
      | setSpeed speed => exact told_setSpeed speed s.deck
      | seek position =>
          rw [deck_seek]
          cases s.deck.current with
          | none => exact .inr (.refl _)
          | some h => exact .inl ⟨rfl, rfl⟩
      | shutdown => exact .inr (silent_shutdown _ _)
      | start | cancel | controlStart | controlEnd | setStore => cases hr

theorem told_apply (s : Playback) {e : Event} (hg : e.grabs = false) :
    Told s.deck (e.apply s).deck := by
  cases e with
  | request r => exact told_request s hg
  | change c => exact .inr (.refl _)
  | move m =>
      cases hm : s.promotes (.move m) with
      | true =>
          obtain ⟨he, hp⟩ := eq_promotion hm
          cases he
          rw [Event.apply, deck_promotion hp]
          exact told_promote s.capacity s.deck
      | false =>
          obtain ⟨_, _, _, _, _, _, _, _, he, -⟩ := apply_quiet hm
          rw [Event.apply, he]
          exact .inr ⟨rfl, rfl⟩

theorem eq_grab_of_grabs {e : Event} (hg : e.grabs = true) : ∃ index, e = .request (.grab index) := by
  cases e with
  | request r =>
      cases r with
      | grab index => exact ⟨index, rfl⟩
      | _ => cases hg
  | _ => cases hg

theorem counted_apply (s : Playback) (e : Event) : Counted s.deck (e.apply s).deck := by
  cases hg : e.grabs with
  | false => exact (told_apply s hg).counted
  | true =>
      obtain ⟨index, rfl⟩ := eq_grab_of_grabs hg
      exact (exact_grab index s.deck).counted

theorem since_run (s : Playback) (es : List Event) : Since s.deck (s.run es).deck := by
  induction es generalizing s with
  | nil => exact .refl s.deck
  | cons e es ih => exact (counted_apply s e).since.trans (ih (e.apply s))

theorem since_take (s : Playback) (es : List Event) {i j : Nat} (hij : i ≤ j) :
    Since (s.run (es.take i)).deck (s.run (es.take j)).deck := by
  have hj : es.take j = es.take i ++ (es.take j).drop i := by
    have hi := List.take_append_drop i (es.take j)
    rw [List.take_take, Nat.min_eq_left hij] at hi
    exact hi.symm
  rw [hj, run_append]
  exact since_run _ _

/-- Over any run: the generation never goes down, no event counts more than one, and two moments with
one generation show the same. A request to go on, to go back, for a speed or for an item counts
exactly when it changes something, and a seek with nothing to seek in does not count. -/
theorem generation_faithful (s : Playback) (es : List Event) :
    let t (i : Nat) : Playback := s.run (es.take i)
    (∀ i j, i ≤ j → (t i).deck.generation ≤ (t j).deck.generation) ∧
      (∀ i j, (t i).deck.generation = (t j).deck.generation → (t i).deck.face = (t j).deck.face) ∧
      ∀ i,
        (∀ e, (Event.apply (t i) e).deck.generation ≤ (t i).deck.generation + 1) ∧
        (∀ speed index, ∀ r ∈ [Request.next, .prev, .setSpeed speed, .grab index],
          ((Request.apply (t i) r).deck.generation = (t i).deck.generation ↔
            (Request.apply (t i) r).deck.face = (t i).deck.face)) ∧
        ∀ position, (t i).deck.current = none →
          (Request.apply (t i) (.seek position)).deck.generation = (t i).deck.generation := by
  intro t
  refine ⟨fun i j hij => (since_take s es hij).le, fun i j he => ?_, fun i => ⟨?_, ?_, ?_⟩⟩
  · rcases Nat.le_total i j with hij | hij
    · exact ((since_take s es hij).face he.symm).symm
    · exact (since_take s es hij).face he
  · intro e
    exact (counted_apply (t i) e).le_succ
  · intro speed index r hr
    have hx : Exact (t i).deck (r.apply (t i)).deck := by
      simp only [List.mem_cons, List.not_mem_nil, or_false] at hr
      rcases hr with rfl | rfl | rfl | rfl
      · exact exact_next _
      · exact exact_prev _
      · exact exact_setSpeed speed _
      · exact exact_grab index _
    exact hx.iff
  · intro position hn
    rw [deck_seek, hn]
    rfl

theorem generation_faithful_repeated :
    let s : Playback := ⟨⟨#[.testPattern 3]⟩, {}⟩
    let es : List Event := [.request (.add 0), .request .next, .request .next, .request .prev,
      .request (.setSpeed 1), .request (.grab (-1)), .request (.grab 7)]
    (s.run (es.take 2)).deck.generation = (s.run (es.take 7)).deck.generation ∧
      (s.run (es.take 2)).deck.face = (s.run (es.take 7)).deck.face := by
  intro s es
  have hg : (s.run (es.take 2)).deck.generation = (s.run (es.take 7)).deck.generation := rfl
  exact ⟨hg, (generation_faithful s es).2.1 2 7 hg⟩

end Playback

end Playout
