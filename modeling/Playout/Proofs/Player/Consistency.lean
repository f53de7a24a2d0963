import Playout.Proofs.Player.Reachable

namespace Playout

open Media

namespace Deck

theorem position_eq_neg_one_iff (d : Deck) : d.position = -1 ↔ d.observed = none := by
  cases h : d.observed with
  | none => simp [position, h]
  | some p => simp [position, h]

theorem position_nonneg {d : Deck} (h : d.observed ≠ none) : 0 ≤ d.position := by
  obtain ⟨p, hp⟩ := Option.ne_none_iff_exists'.1 h
  simp [position, hp]

theorem cast_targetOf (position : Int) (frames : Nat) :
    (targetOf position frames : Int) =
      max 0 (min (if 0 ≤ position then position else frames + position) (frames - 1)) := by
  unfold targetOf
  split <;> omega

theorem hasWork_eq_false_iff (d : Deck) :
    d.hasWork = false ↔ d.playlist = [] ∧ d.nextPending = false ∧ d.prevPending = false := by
  simp [hasWork, and_assoc]

end Deck

namespace Playback

/-- The loop waits for work, and there is none: its next move changes nothing. -/
structure Rests (s : Playback) : Prop where
  waiting : s.player.loop = .waiting
  active : s.player.cancelled = false
  still : Move.promotion.apply s = s

def Placed (s : Playback) : Prop := s.deck.observed = none ↔ s.deck.current = none

variable {s : Playback}

theorem rests_iff :
    Rests s ↔ s.player.loop = .waiting ∧ s.player.cancelled = false ∧ s.deck.hasWork = false := by
  constructor
  · intro h
    refine ⟨h.waiting, h.active, ?_⟩
    cases hk : s.deck.hasWork with
    | false => rfl
    | true =>
        have hp : s.player.promotes = true := by
          rw [Player.promotes, h.waiting, h.active, hk]
          rfl
        have hg : (Move.promotion.apply s).deck.generation = s.deck.generation + 1 := by
          rw [deck_promotion hp, Deck.promote_eq]
          rfl
        rw [h.still] at hg
        omega
  · rintro ⟨hw, hc, hk⟩
    refine ⟨hw, hc, ?_⟩
    have hs : s.player.settle s.catalog = (s.catalog, s.player) := by
      rw [Player.settle, if_neg (by simp [hw]), if_neg (by simp [hc]), if_pos (by simp [hk])]
    rw [Move.apply, onLoop, hs]

/-- One move brings a loop that waits to an item or to rest. -/
theorem promotion_settles (hw : s.player.loop = .waiting) (hc : s.player.cancelled = false) :
    Rests (Move.promotion.apply s) ∨ ∃ h, (Move.promotion.apply s).player.loop = .playing h := by
  cases hk : s.deck.hasWork with
  | false =>
      have hr : Rests s := rests_iff.2 ⟨hw, hc, hk⟩
      rw [hr.still]
      exact .inl hr
  | true =>
      have hp : s.player.promotes = true := by
        rw [Player.promotes, hw, hc, hk]
        rfl
      have he := Deck.promote_eq s.capacity s.deck
      cases hl : s.deck.retire.playlist with
      | nil =>
          rw [hl] at he
          left
          rw [rests_iff]
          simp only [Move.apply, onLoop, Player.settle_of_promotes hp, he]
          exact ⟨hw, hc, rfl⟩
      | cons h rest =>
          rw [hl] at he
          right
          refine ⟨h, ?_⟩
          simp only [Move.apply, onLoop, Player.settle_promoted hp he]
          exact Player.loop_readied _

theorem observed_request {r : Request} (hd : r ≠ .shutdown) :
    (r.apply s).deck.observed = s.deck.observed := by
  cases hr : r.meansDeck with
  | false =>
      obtain ⟨wakeups, controllers, he⟩ := deck_aside hr
      rw [he]
  | true =>
      cases r with
      | set | add => rfl
      | insert index h => exact (Deck.aside_insert index h s.deck).observed
      | grab index => exact (Deck.aside_grab index s.deck).observed
      | next => exact s.deck.aside_next.observed
      | prev => exact s.deck.aside_prev.observed
      | setSpeed speed => exact (s.deck.aside_setSpeed speed).observed
      | seek position =>
          rw [deck_seek]
          cases s.deck.current <;> rfl
      | shutdown => exact absurd rfl hd
      | start | cancel | controlStart | controlEnd | setStore => cases hr

theorem observed_frame {p : Player} {h : Handle} (hc : p.deck.current = some h)
    (hp : p.deck.observed = none ↔ p.deck.current = none) (catalog : Catalog) :
    (p.playFrame h catalog).2.deck.observed ≠ none := by
  rw [(p.playFrame_takes h catalog).2]
  split
  · exact Option.some_ne_none _
  · rw [ne_eq, hp, hc]
    exact Option.some_ne_none h

theorem Placed.kept {t : Playback} (hs : Placed s) (hk : Kept s t)
    (ho : t.deck.observed = s.deck.observed) : Placed t := by
  rw [Placed, ho, hk.current]
  exact hs

theorem Placed.apply (hs : Placed s) (hsound : Sound s) (e : Event) : Placed (e.apply s) := by
  cases hp : s.promotes e with
  | true =>
      obtain ⟨rfl, hp⟩ := eq_promotion hp
      rw [Placed, Event.apply, deck_promotion hp, Deck.promote_eq]
      exact Option.map_eq_none_iff
  | false =>
      have hk := kept_apply hp
      have hframe {h : Handle} (hl : s.player.loop = .playing h)
          (hd : (e.apply s).deck.observed ≠ none) : Placed (e.apply s) := by
        have hc : (e.apply s).deck.current = some h := hk.current.trans (hsound.shown h hl)
        exact ⟨fun he => absurd he hd, fun he => by rw [hc] at he; cases he⟩
      cases e with
      | change c => exact hs
      | request r =>
          by_cases hr : r = .shutdown
          · subst hr
            rcases s.player.deck_shutdown s.catalog with hd | ⟨h, hl, hd⟩
            · exact hs.kept hk ((congrArg Deck.observed hd).trans rfl)
            · refine hframe hl ?_
              simp only [Event.apply, Request.apply, onLoop, deck, hd]
              exact observed_frame (p := s.player.cancel) (hsound.shown h hl) hs s.catalog
          · exact hs.kept hk (observed_request hr)
      | move m =>
          cases m with
          | frame =>
              cases hl : s.player.loop with
              | playing h =>
                  refine hframe hl ?_
                  simp only [Event.apply, Move.apply, hl, onLoop, deck]
                  exact observed_frame (hsound.shown h hl) hs s.catalog
              | idle | waiting | ended =>
                  refine hs.kept hk ?_
                  simp only [Event.apply, Move.apply, hl]
          | look =>
              refine hs.kept hk ?_
              simp only [Event.apply, Move.apply]
              split
              · simp only [onPlayer, deck, Player.deck_betweenFrames]
              · rfl
          | promotion =>
              obtain ⟨loop, hq, -⟩ := Player.settle_quiet hp s.catalog
              refine hs.kept hk ?_
              simp only [Event.apply, Move.apply, onLoop, hq]

theorem Reachable.placed (h : Reachable s) : Placed s := by
  induction h with
  | new catalog settings stores => rfl
  | event h e ih => exact ih.apply h.sound e

/-- Whatever came before: the history keeps within its bound, a position is shown if and only if an
item is current, a seek records a position that is not below zero, the item that is played is the
current one, and a loop that waits comes to play or to rest with an empty playlist and no request. -/
theorem reachable_consistent (h : Reachable s) :
    s.deck.history.length ≤ s.capacity ∧
      (s.deck.position = -1 ↔ s.deck.current = none) ∧
      (s.deck.current ≠ none → 0 ≤ s.deck.position) ∧
      (∀ target ∈ s.deck.seekTarget, 0 ≤ (target : Int)) ∧
      (∀ position, ∀ h ∈ s.deck.current, ∃ target : Nat,
        (Request.apply s (.seek position)).deck.seekTarget = some target ∧
        (target : Int) =
          max 0 (min (if 0 ≤ position then position else (s.catalog.get h).frames + position)
            ((s.catalog.get h).frames - 1))) ∧
      (∀ h, s.player.loop = .playing h → s.deck.current = some h) ∧
      (Rests s →
        s.deck.playlist = [] ∧ s.deck.nextPending = false ∧ s.deck.prevPending = false) ∧
      (s.player.loop = .waiting → s.player.cancelled = false →
        Rests (Move.promotion.apply s) ∨
          ∃ h, (Move.promotion.apply s).player.loop = .playing h) := by
  refine ⟨h.sound.bounded, ?_, ?_, ?_, ?_, h.sound.shown, ?_, promotion_settles⟩
  · rw [Deck.position_eq_neg_one_iff]
    exact h.placed
  · intro hc
    exact Deck.position_nonneg fun ho => hc (h.placed.1 ho)
  · intro target _
    exact Int.natCast_nonneg target
  · intro position k hk
    refine ⟨Deck.targetOf position (s.catalog.get k).frames, ?_, Deck.cast_targetOf _ _⟩
    rw [Option.mem_def] at hk
    rw [deck_seek, hk]
    rfl
  · intro hr
    exact (Deck.hasWork_eq_false_iff _).1 (rests_iff.1 hr).2.2

theorem reachable_consistent_retired :
    let s : Playback := Playback.run ⟨⟨#[.testPattern 3]⟩, { settings := { historyCapacity := 0 } }⟩
      [.request (.add 0), .request .start, .move .promotion, .request (.add 0), .request .next,
        .request (.grab 0), .move .look, .move .promotion]
    Reachable s ∧ Rests s ∧ s.deck.history.length ≤ s.capacity ∧ s.deck.position = -1 ∧
      s.deck.playlist = [] := by
  intro s
  have hs : Reachable s := (Reachable.new _ _ _).run _
  have hr : Rests s := rests_iff.2 ⟨rfl, rfl, rfl⟩
  have hc : s.deck.current = none := rfl
  obtain ⟨hb, hp, -, -, -, -, hq, -⟩ := reachable_consistent hs
  exact ⟨hs, hr, hb, hp.2 hc, (hq hr).1⟩

end Playback

end Playout
