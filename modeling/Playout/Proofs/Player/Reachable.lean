import Playout.Proofs.Player.Event

namespace Playout

open Media

theorem length_newest (capacity : Nat) (l : List Handle) :
    (newest capacity l).length ≤ capacity := by
  rw [newest, List.length_drop]
  omega

theorem newest_of_length_le {capacity : Nat} {l : List Handle} (h : l.length ≤ capacity) :
    newest capacity l = l := by
  rw [newest, Nat.sub_eq_zero_of_le h, List.drop_zero]

namespace Deck

/-- What is played, where it is seen and where it is sent stay, and the history loses an entry at
most. -/
structure Aside (d d' : Deck) : Prop where
  current : d'.current = d.current
  observed : d'.observed = d.observed
  target : d'.seekTarget = d.seekTarget
  history : d'.history.length ≤ d.history.length

theorem Aside.refl (d : Deck) : Aside d d := ⟨rfl, rfl, rfl, Nat.le_refl _⟩

theorem aside_insert (index : Int) (h : Handle) (d : Deck) : Aside d (d.insert index h) := by
  unfold insert
  split <;> exact ⟨rfl, rfl, rfl, Nat.le_refl _⟩

theorem aside_grab (index : Int) (d : Deck) : Aside d (d.grab index).2 := by
  unfold grab
  split
  · exact .refl d
  · split
    · split
      · exact ⟨rfl, rfl, rfl, Nat.le_refl _⟩
      · exact .refl d
    · dsimp only
      split
      · exact ⟨rfl, rfl, rfl, List.length_eraseIdx_le _ _⟩
      · exact .refl d

theorem aside_next (d : Deck) : Aside d d.next := by
  unfold next
  split <;> exact ⟨rfl, rfl, rfl, Nat.le_refl _⟩

theorem aside_prev (d : Deck) : Aside d d.prev := by
  unfold prev
  split <;> exact ⟨rfl, rfl, rfl, Nat.le_refl _⟩

theorem aside_setSpeed (speed : Int) (d : Deck) : Aside d (d.setSpeed speed) := by
  unfold setSpeed
  split <;> exact ⟨rfl, rfl, rfl, Nat.le_refl _⟩

end Deck

namespace Player

theorem Leads.playing {p : Player} {loop : Loop} {h : Handle} (hl : p.Leads loop)
    (hp : loop = .playing h) : p.loop = .playing h := by
  subst hp
  rcases hl with hl | hl | ⟨hl, -⟩
  · exact hl.symm
  · cases hl
  · cases hl

@[simp]
theorem settings_settle (catalog : Catalog) (p : Player) :
    (p.settle catalog).2.settings = p.settings := by
  cases hp : p.promotes with
  | false =>
      obtain ⟨loop, he, -⟩ := settle_quiet hp catalog
      rw [he]
  | true =>
      rw [settle_of_promotes hp]
      split
      · rfl
      · exact settings_readied _

end Player

namespace Playback

inductive Reachable : Playback → Prop
  | new (catalog : Catalog) (settings : PlayerSettings) (stores : List Store) :
      Reachable ⟨catalog, { settings, stores }⟩
  | event {s : Playback} (h : Reachable s) (e : Event) : Reachable (e.apply s)

theorem Reachable.run {s : Playback} (h : Reachable s) (es : List Event) : Reachable (s.run es) := by
  induction es generalizing s with
  | nil => exact h
  | cons e es ih => exact ih (h.event e)

def promotes (s : Playback) : Event → Bool
  | .move .promotion => s.player.promotes
  | _ => false

theorem eq_promotion {s : Playback} {e : Event} (h : s.promotes e = true) :
    e = .move .promotion ∧ s.player.promotes = true := by
  unfold promotes at h
  split at h
  · exact ⟨rfl, h⟩
  · cases h

theorem apply_quiet {s : Playback} {m : Move} (hm : s.promotes (.move m) = false) :
    ∃ catalog seekTarget observed wakeups stores journal storesReady loop,
      m.apply s =
          ⟨catalog,
            { s.player with
              deck := { s.deck with seekTarget, observed, wakeups }
              stores, journal, storesReady, loop }⟩ ∧
        s.player.Leads loop := by
  cases m with
  | frame =>
      cases hl : s.player.loop with
      | playing h =>
          obtain ⟨_, _, _, _, _, _, loop, he, hlead, -⟩ := s.player.playFrame_eq h s.catalog
          simp only [Move.apply, hl, onLoop, he]
          exact ⟨_, _, _, _, _, _, _, loop, rfl, hlead⟩
      | idle | waiting | ended =>
          simp only [Move.apply, hl]
          exact ⟨_, _, _, _, _, _, _, s.player.loop, rfl, .inl rfl⟩
  | look =>
      cases hl : s.player.loop with
      | playing h =>
          obtain ⟨loop, he, hlead, -⟩ := s.player.betweenFrames_eq
          simp only [Move.apply, hl, onPlayer, he]
          exact ⟨_, _, _, _, _, _, _, loop, rfl, hlead⟩
      | idle | waiting | ended =>
          simp only [Move.apply, hl]
          exact ⟨_, _, _, _, _, _, _, s.player.loop, rfl, .inl rfl⟩
  | promotion =>
      obtain ⟨loop, he, hlead⟩ := Player.settle_quiet hm s.catalog
      simp only [Move.apply, onLoop, he]
      exact ⟨_, _, _, _, _, _, _, loop, rfl, hlead⟩

/-- What stays while nothing is promoted. -/
structure Kept (s t : Playback) : Prop where
  settings : t.player.settings = s.player.settings
  current : t.deck.current = s.deck.current
  history : t.deck.history.length ≤ s.deck.history.length
  loop : ∀ h, t.player.loop = .playing h → s.player.loop = .playing h
  cancelled : s.player.cancelled = true → t.player.cancelled = true

theorem Kept.refl (s : Playback) : Kept s s := ⟨rfl, rfl, Nat.le_refl _, fun _ => id, id⟩

theorem Kept.trans {s t u : Playback} (h : Kept s t) (k : Kept t u) : Kept s u where
  settings := k.settings.trans h.settings
  current := k.current.trans h.current
  history := Nat.le_trans k.history h.history
  loop := fun i hi => h.loop i (k.loop i hi)
  cancelled := fun hc => k.cancelled (h.cancelled hc)

theorem kept_onDeck {s : Playback} {f : Deck → Deck} (h : Deck.Aside s.deck (f s.deck)) :
    Kept s (s.onPlayer (Player.onDeck f)) :=
  ⟨rfl, h.current, h.history, fun _ => id, id⟩

theorem kept_cancel (s : Playback) : Kept s (s.onPlayer Player.cancel) :=
  ⟨rfl, rfl, Nat.le_refl _, fun _ => id, fun _ => rfl⟩

theorem kept_move {s : Playback} {m : Move} (hm : s.promotes (.move m) = false) :
    Kept s (m.apply s) := by
  obtain ⟨_, _, _, _, _, _, _, loop, he, hlead⟩ := apply_quiet hm
  rw [he]
  exact ⟨rfl, rfl, Nat.le_refl _, fun _ => hlead.playing, id⟩

theorem kept_request (s : Playback) (r : Request) : Kept s (r.apply s) := by
  cases r with
  | start =>
      simp only [Request.apply, onPlayer, Player.start]
      split
      · exact .refl s
      · split
        · exact .refl s
        · exact ⟨rfl, rfl, Nat.le_refl _, fun _ hp => Loop.noConfusion hp, id⟩
  | shutdown =>
      simp only [Request.apply, onLoop]
      by_cases hl : ∃ h, s.player.loop = .playing h
      · obtain ⟨h, hl⟩ := hl
        obtain ⟨_, _, _, _, _, _, loop, he, -⟩ := s.player.cancel.playFrame_eq h s.catalog
        rw [Player.shutdown_of_playing hl, he]
        exact ⟨rfl, rfl, Nat.le_refl _, fun _ hp => Loop.noConfusion hp, fun _ => rfl⟩
      · obtain ⟨loop, he, hn⟩ := Player.shutdown_of_not_playing (not_exists.1 hl) s.catalog
        rw [he]
        exact ⟨rfl, rfl, Nat.le_refl _, fun h hp => absurd hp (hn h), fun _ => rfl⟩
  | cancel => exact kept_cancel s
  | controlStart => exact kept_onDeck ⟨rfl, rfl, rfl, Nat.le_refl _⟩
  | controlEnd =>
      have h : Kept s (s.onPlayer (Player.onDeck Deck.controlEnd)) :=
        kept_onDeck ⟨rfl, rfl, rfl, Nat.le_refl _⟩
      simp only [Request.apply, onPlayer, Player.controlEnd]
      split
      · exact h.trans (kept_cancel _)
      · exact h
  | set h | add h => exact kept_onDeck ⟨rfl, rfl, rfl, Nat.le_refl _⟩
  | insert index h => exact kept_onDeck (Deck.aside_insert index h _)
  | grab index => exact kept_onDeck (Deck.aside_grab index _)
  | next => exact kept_onDeck (Deck.aside_next _)
  | prev => exact kept_onDeck (Deck.aside_prev _)
  | setSpeed speed => exact kept_onDeck (Deck.aside_setSpeed speed _)
  | seek position =>
      simp only [Request.apply, onPlayer, Player.requestSeek]
      split <;> exact ⟨rfl, rfl, Nat.le_refl _, fun _ => id, id⟩
  | setStore name value =>
      simp only [Request.apply, onPlayer, Player.setStoreProperty]
      split <;> exact ⟨rfl, rfl, Nat.le_refl _, fun _ => id, id⟩

theorem kept_apply {s : Playback} {e : Event} (he : s.promotes e = false) :
    Kept s (e.apply s) := by
  cases e with
  | request r => exact kept_request s r
  | change c => exact ⟨rfl, rfl, Nat.le_refl _, fun _ => id, id⟩
  | move m => exact kept_move he

theorem deck_promotion {s : Playback} (hp : s.player.promotes = true) :
    (Move.promotion.apply s).deck = (s.deck.promote s.capacity).2 := by
  have hd := s.player.deck_settle s.catalog
  rwa [hp, if_pos rfl] at hd

theorem capacity_promotion (s : Playback) : (Move.promotion.apply s).capacity = s.capacity :=
  congrArg PlayerSettings.historyCapacity (Player.settings_settle s.catalog s.player)

/-- The loop plays what was promoted, from its first frame, or waits on. -/
theorem promotion_starts {s : Playback} (hp : s.player.promotes = true) :
    let t := Move.promotion.apply s
    t.player.loop = t.deck.current.elim .waiting .playing ∧
      ∀ h ∈ t.deck.current, t.deck.observed = some 0 ∧ (t.catalog.get h).position = 0 := by
  have hw := Player.loop_of_promotes hp
  have he := Deck.promote_eq s.capacity s.deck
  cases hl : s.deck.retire.playlist with
  | nil =>
      rw [hl] at he
      simp only [Move.apply, onLoop, Player.settle_of_promotes hp, he]
      exact ⟨hw, fun h hh => absurd hh (Option.not_mem_none h)⟩
  | cons h rest =>
      rw [hl] at he
      simp only [Move.apply, onLoop, Player.settle_promoted hp he]
      refine ⟨?_, fun k hk => ?_⟩
      · simp [deck, Deck.bump, Deck.wake]
      · obtain rfl : h = k := by simpa [deck, Deck.bump, Deck.wake] using hk
        refine ⟨?_, Catalog.position_modify_seek_zero s.catalog h⟩
        simp [deck, Deck.bump, Deck.wake]

structure Sound (s : Playback) : Prop where
  bounded : s.deck.history.length ≤ s.capacity
  shown : ∀ h, s.player.loop = .playing h → s.deck.current = some h

theorem Sound.kept {s t : Playback} (h : Sound s) (k : Kept s t) : Sound t where
  bounded := by
    rw [capacity, k.settings]
    exact Nat.le_trans k.history h.bounded
  shown := fun i hi => k.current.trans (h.shown i (k.loop i hi))

theorem sound_promotion {s : Playback} (hp : s.player.promotes = true) :
    Sound (Move.promotion.apply s) where
  bounded := by
    rw [capacity_promotion, deck_promotion hp, Deck.promote_eq]
    exact length_newest _ _
  shown := by
    intro h hl
    have hloop := (promotion_starts hp).1
    rw [hl] at hloop
    cases hc : (Move.promotion.apply s).deck.current with
    | none =>
        rw [hc] at hloop
        cases hloop
    | some k =>
        rw [hc] at hloop
        cases hloop
        rfl

theorem Reachable.sound {s : Playback} (h : Reachable s) : Sound s := by
  induction h with
  | new catalog settings stores => exact ⟨Nat.zero_le _, nofun⟩
  | @event s h e ih =>
      cases hp : s.promotes e with
      | false => exact ih.kept (kept_apply hp)
      | true =>
          obtain ⟨rfl, hp⟩ := eq_promotion hp
          exact sound_promotion hp

end Playback

end Playout
