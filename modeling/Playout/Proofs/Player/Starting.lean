import Mathlib.Data.List.Induction
import Playout.Proofs.Player.Cancellation

namespace Playout

open Media

namespace Player

theorem start_eq (p : Player) :
    p.start =
      if p.held then (.ok (), p)
      else if p.cancelled then (.error .shutDown, p)
      else (.ok (), { p with loop := .waiting, held := true }) := rfl

theorem isOk_start_iff (p : Player) :
    p.start.1.isOk = true ↔ p.held = true ∨ p.cancelled = false := by
  rw [start_eq]
  cases hh : p.held <;> cases hc : p.cancelled <;> simp [Except.isOk, Except.toBool]

theorem start_of_refused {p : Player} (hr : p.start.1.isOk = false) :
    p.start = (.error .shutDown, p) := by
  rw [start_eq] at hr ⊢
  split at hr
  · cases hr
  · split at hr
    · rename_i hh hc
      rw [if_neg hh, if_pos hc]
    · cases hr

theorem held_start (p : Player) : p.start.2.held = (p.held || !p.cancelled) := by
  rw [start_eq]
  cases hh : p.held <;> cases hc : p.cancelled <;> simp [hh]

theorem cancelled_start (p : Player) : p.start.2.cancelled = p.cancelled := by
  rw [start_eq]
  split
  · rfl
  · split <;> rfl

end Player

namespace Playback

variable {s : Playback}

theorem held_move (m : Move) : (m.apply s).player.held = s.player.held := by
  cases hm : s.promotes (.move m) with
  | false =>
      obtain ⟨_, _, _, _, _, _, _, _, he, -⟩ := apply_quiet hm
      rw [he]
  | true =>
      obtain ⟨he, hp⟩ := eq_promotion hm
      cases he
      simp only [Move.apply, onLoop, Player.settle_of_promotes hp]
      split
      · rfl
      · exact Player.readied_congr Player.held rfl

theorem cancelled_move (m : Move) : (m.apply s).player.cancelled = s.player.cancelled := by
  cases hm : s.promotes (.move m) with
  | false =>
      obtain ⟨_, _, _, _, _, _, _, _, he, -⟩ := apply_quiet hm
      rw [he]
  | true =>
      obtain ⟨he, hp⟩ := eq_promotion hm
      cases he
      simp only [Move.apply, onLoop, Player.settle_of_promotes hp]
      split
      · rfl
      · exact Player.cancelled_readied _

theorem held_request (r : Request) :
    (r.apply s).player.held = true ↔
      r ≠ .shutdown ∧ (s.player.held = true ∨ r = .start ∧ s.player.isActive = true) := by
  by_cases hs : r = .start
  · subst hs
    simp [Request.apply, onPlayer, Player.held_start, Player.isActive]
  · by_cases hd : r = .shutdown
    · subst hd
      simp [Request.apply, onLoop, Player.shutdown]
    · rw [(undisturbed_request hs hd).held]
      simp [hs, hd]

theorem held_apply (e : Event) :
    (e.apply s).player.held = true ↔
      e ≠ .request .shutdown ∧
        (s.player.held = true ∨ e = .request .start ∧ s.player.isActive = true) := by
  cases e with
  | change c => simp [Event.apply]
  | move m => simp [Event.apply, held_move]
  | request r => simp [Event.apply, held_request]

theorem isActive_apply (e : Event) :
    (e.apply s).player.isActive = false ↔
      s.player.isActive = false ∨ ∃ r : Request, e = .request r ∧ r.cancels s = true := by
  simp only [Player.isActive, Bool.not_eq_false']
  cases e with
  | change c => simp [Event.apply]
  | request r => simp [Event.apply, cancelled_apply_iff]
  | move m => simp [Event.apply, cancelled_move]

/-- At some time in a run an event came of which so much was true. -/
def Came (s : Playback) (es : List Event) (P : Playback → Event → Prop) : Prop :=
  ∃ before e after, es = before ++ e :: after ∧ P (s.run before) e

theorem came_nil (P : Playback → Event → Prop) : ¬s.Came [] P := by
  rintro ⟨before, e, after, he, -⟩
  simp at he

theorem came_snoc {es : List Event} {e : Event} {P : Playback → Event → Prop} :
    s.Came (es ++ [e]) P ↔ s.Came es P ∨ P (s.run es) e := by
  constructor
  · rintro ⟨before, e', after, he, hp⟩
    rcases List.eq_nil_or_concat' after with rfl | ⟨after, last, rfl⟩
    · obtain ⟨hes, hlast⟩ := List.append_inj' he rfl
      cases hes
      cases hlast
      exact .inr hp
    · rw [← List.cons_append, ← List.append_assoc] at he
      obtain ⟨hes, -⟩ := List.append_inj' he rfl
      exact .inl ⟨before, e', after, hes, hp⟩
  · rintro (⟨before, e', after, rfl, hp⟩ | hp)
    · exact ⟨before, e', after ++ [e], by simp, hp⟩
    · exact ⟨es, e, [], rfl, hp⟩

theorem isActive_run (hu : s.player.isActive = true) (es : List Event) :
    (s.run es).player.isActive = false ↔
      s.Came es fun t e => ∃ r : Request, e = .request r ∧ r.cancels t = true := by
  induction es using List.reverseRecOn with
  | nil => simp [hu, came_nil]
  | append_singleton es e ih =>
      rw [run_append, run_cons, run_nil, isActive_apply, came_snoc, ih]

theorem shutdown_not_mem (hu : s.player.isActive = true) {es : List Event}
    (ha : (s.run es).player.isActive = true) : .request .shutdown ∉ es := by
  intro hm
  obtain ⟨before, after, rfl⟩ := List.append_of_mem hm
  have hoff := (isActive_run hu _).2 ⟨before, _, after, rfl, .shutdown, rfl, rfl⟩
  rw [ha] at hoff
  cases hoff

theorem held_run (hh : s.player.held = false) (hu : s.player.isActive = true) (es : List Event) :
    (s.run es).player.held = true ↔
      .request .shutdown ∉ es ∧
        s.Came es fun t e => e = .request .start ∧ t.player.isActive = true := by
  induction es using List.reverseRecOn with
  | nil => simp [hh, came_nil]
  | append_singleton es e ih =>
      rw [run_append, run_cons, run_nil, held_apply, came_snoc, ih]
      have hn : (s.run es).player.isActive = true → .request .shutdown ∉ es :=
        shutdown_not_mem hu
      simp only [List.mem_append, List.mem_singleton, not_or]
      grind

theorem running_promotion (hp : s.player.promotes = true) :
    (Move.promotion.apply s).player.running = true := by
  rw [Player.running, (promotion_starts hp).1]
  cases (Move.promotion.apply s).deck.current <;> rfl

theorem running_move (hr : s.player.running = true) (hu : s.player.isActive = true) (m : Move) :
    (m.apply s).player.running = true := by
  cases hm : s.promotes (.move m) with
  | false =>
      obtain ⟨_, _, _, _, _, _, _, loop, he, hlead⟩ := apply_quiet hm
      rw [he]
      exact hlead.running hr (by simpa [Player.isActive] using hu)
  | true =>
      obtain ⟨he, hp⟩ := eq_promotion hm
      cases he
      exact running_promotion hp

theorem running_request (hr : s.player.held = true → s.player.running = true) {r : Request}
    (hh : (r.apply s).player.held = true) : (r.apply s).player.running = true := by
  by_cases hs : r = .start
  · subst hs
    simp only [Request.apply, onPlayer, Player.start_eq] at hh ⊢
    split
    · exact hr ‹_›
    · rename_i hn
      rw [if_neg hn] at hh
      split at hh
      · exact absurd hh hn
      · rename_i hc
        rw [if_neg hc]
        rfl
  · have hu := undisturbed_request (s := s) hs ((held_request r).1 hh).1
    rw [Player.running, hu.loop]
    exact hr (hu.held ▸ hh)

/-- A loop that is held runs until it is cancelled. -/
theorem Reachable.running (hs : Reachable s) (hh : s.player.held = true)
    (hu : s.player.isActive = true) : s.player.running = true := by
  induction hs with
  | new catalog settings stores => cases hh
  | @event s _ e ih =>
      have hu' : s.player.isActive = true := by
        cases ha : s.player.isActive with
        | true => rfl
        | false => rw [(isActive_apply e).2 (.inl ha)] at hu; cases hu
      cases e with
      | change c => exact ih hh hu
      | move m =>
          rw [Event.apply, held_move] at hh
          exact running_move (ih hh hu') hu' m
      | request r => exact running_request (fun hh => ih hh hu') hh

theorem promotion_answers (hp : s.player.promotes = true) :
    (Move.promotion.apply s).deck.prevPending = false := by
  rw [deck_promotion hp, Deck.promote_eq]
  rfl

/-- A loop that runs can be brought to play whatever item is set. -/
theorem exists_starts (hr : s.player.running = true) (hu : s.player.isActive = true) (h : Handle) :
    ∃ es, Starts h (s.run es) := by
  have hc : s.player.cancelled = false := by simpa [Player.isActive] using hu
  -- A request to go back may stand in the way of the first item that is set, but not of the second.
  let t := s.run [.request (.set h), .move .look, .move .promotion]
  have hnil (u : Playback) : u.Undisturbed [] := trivial
  have hp := (next_promotion (s := Request.apply s (.set h)) hr hc rfl (hnil _)).1
  have ht : t.player.cancelled = false := by
    simp only [t, run_cons, run_nil, Event.apply, cancelled_move]
    exact hc
  have hq := (next_promotion (s := Request.apply t (.set h)) (running_promotion hp) ht rfl
    (hnil _)).2
  have hl := Deck.retire_set (d := t.deck) (.inr (promotion_answers hp)) h
  exact ⟨[.request (.set h), .move .look, .move .promotion, .request (.set h), .move .look,
    .move .promotion], hq.starts (by rw [Request.apply]; exact congrArg List.head? hl)⟩

/-- What the answer to who starts a player tells of it. -/
structure Answered (s t : Playback) (es : List Event) : Prop where
  ok : t.player.start.1.isOk = true ↔
    .request .shutdown ∉ es ∧
      (t.player.isActive = true ∨
        s.Came es fun u e => e = .request .start ∧ u.player.isActive = true)
  refused : t.player.start.1.isOk = false → t.player.start = (.error .shutDown, t.player)
  active : t.player.isActive = false ↔
    s.Came es fun u e => ∃ r : Request, e = .request r ∧ r.cancels u = true
  alive : t.player.isActive = true → ∀ h, ∃ more, Starts h ((Request.start.apply t).run more)
  dead : t.player.isActive = false →
    ∀ more e, ((Request.start.apply t).run more).promotes e = false

theorem alive_of_active (hs : Reachable s) (hu : s.player.isActive = true) (h : Handle) :
    ∃ more, Starts h ((Request.start.apply s).run more) := by
  have hu' : (Request.start.apply s).player.isActive = true := by
    rw [Player.isActive, Request.apply, onPlayer, Player.cancelled_start]
    exact hu
  have hh := (held_request (s := s) .start).2 ⟨Request.noConfusion, .inr ⟨rfl, hu⟩⟩
  exact exists_starts ((hs.event (.request .start)).running hh hu') hu' h

theorem dead_of_cancelled (hc : s.player.cancelled = true) (more : List Event) (e : Event) :
    ((Request.start.apply s).run more).promotes e = false := by
  have hc' : (Request.start.apply s).player.cancelled = true :=
    (kept_request s .start).cancelled hc
  exact promotes_of_cancelled ((kept_run hc' more).cancelled hc') e

/-- Whatever came before, a start is answered with yes while the player is active, and goes on to be
once it was started while it was active, until a shutdown. Only an active player has a loop that may
still come to play something. -/
theorem start_answered (catalog : Catalog) (settings : PlayerSettings) (stores : List Store)
    (es : List Event) :
    let s : Playback := ⟨catalog, { settings, stores }⟩
    Answered s (s.run es) es := by
  intro s
  have hs : Reachable (s.run es) := (Reachable.new catalog settings stores).run es
  refine ⟨?_, Player.start_of_refused, isActive_run rfl es, alive_of_active hs, fun hu => ?_⟩
  · rw [Player.isOk_start_iff, held_run rfl rfl]
    constructor
    · rintro (⟨hn, hm⟩ | hc)
      · exact ⟨hn, .inr hm⟩
      · have hu : (s.run es).player.isActive = true := by rw [Player.isActive, hc]; rfl
        exact ⟨shutdown_not_mem rfl hu, .inl hu⟩
    · rintro ⟨hn, hu | hm⟩
      · exact .inr (by simpa [Player.isActive] using hu)
      · exact .inl ⟨hn, hm⟩
  · exact dead_of_cancelled (by simpa [Player.isActive] using hu)

/-- The last controller has left and the loop has ended, and it is said to be started. -/
theorem start_of_ended :
    let t := Playback.run ⟨{}, {}⟩
      [.request .start, .request .controlStart, .request .controlEnd, .move .promotion]
    t.player.isActive = false ∧ t.player.loop = .ended ∧ t.player.start = (.ok (), t.player) := by
  refine ⟨rfl, rfl, rfl⟩

end Playback

end Playout
