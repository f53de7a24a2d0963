import Playout.Proofs.Player.Reachable

namespace Playout

open Media

namespace Deck

theorem prev_of_history {d : Deck} (hd : d.history ≠ []) :
    d.prev.prevPending = true ∧ d.prev.current = d.current ∧ d.prev.playlist = d.playlist ∧
      d.prev.history = d.history := by
  unfold prev
  split
  · exact ⟨rfl, rfl, rfl, rfl⟩
  · rename_i hp
    exact ⟨by simpa [hd] using hp, rfl, rfl, rfl⟩

theorem retire_prev_none {d : Deck} (hd : d.history ≠ []) (hc : d.current = none) :
    d.prev.retire.playlist = d.playlist ∧ d.prev.retire.history = d.history := by
  obtain ⟨-, hcurrent, hplaylist, hhistory⟩ := prev_of_history hd
  rw [retire_none (hcurrent.trans hc)]
  exact ⟨hplaylist, hhistory⟩

theorem retire_prev {d : Deck} {older : List Handle} {h c : Handle}
    (hd : d.history = older ++ [h]) (hc : d.current = some c) :
    d.prev.retire.playlist = h :: c :: d.playlist ∧ d.prev.retire.history = older := by
  obtain ⟨hpending, hcurrent, hplaylist, hhistory⟩ := prev_of_history (d := d) (by simp [hd])
  obtain ⟨hl, hh⟩ := retire_back (hcurrent.trans hc) hpending
  rw [hhistory, hd, List.getLast?_concat, hplaylist] at hl
  rw [hhistory, hd, List.dropLast_concat] at hh
  exact ⟨hl, hh⟩

theorem retire_set {d : Deck} (hd : d.current = none ∨ d.prevPending = false) (x : Handle) :
    (d.set x).retire.playlist = [x] := by
  cases hc : d.current with
  | none => rw [retire_none (d := d.set x) hc, set]; rfl
  | some c =>
      have hp : d.prevPending = false := hd.resolve_left (by simp [hc])
      exact (retire_ahead (d := d.set x) hc hp).1

theorem retire_congr {d d' : Deck} (hc : d'.current = d.current) (hl : d'.playlist = d.playlist)
    (hh : d'.history = d.history) (hp : d'.prevPending = d.prevPending) :
    d'.retire.playlist = d.retire.playlist ∧ d'.retire.history = d.retire.history := by
  cases ho : d.current with
  | none =>
      rw [retire_none (hc.trans ho), retire_none ho]
      exact ⟨hl, hh⟩
  | some h =>
      cases hb : d.prevPending with
      | false =>
          obtain ⟨hl', hh'⟩ := retire_ahead (hc.trans ho) (hp.trans hb)
          obtain ⟨hl'', hh''⟩ := retire_ahead ho hb
          exact ⟨by rw [hl', hl'', hl], by rw [hh', hh'', hh]⟩
      | true =>
          obtain ⟨hl', hh'⟩ := retire_back (hc.trans ho) (hp.trans hb)
          obtain ⟨hl'', hh''⟩ := retire_back ho hb
          exact ⟨by rw [hl', hl'', hh, hl], by rw [hh', hh'', hh]⟩

end Deck

namespace Player

def running (p : Player) : Bool :=
  match p.loop with
  | .waiting | .playing _ => true
  | .idle | .ended => false

theorem Leads.running {p : Player} {loop : Loop} (hl : p.Leads loop) (hr : p.running = true)
    (hc : p.cancelled = false) : ({ p with loop } : Player).running = true := by
  rcases hl with rfl | rfl | ⟨-, hl⟩
  · exact hr
  · rfl
  · rw [hc] at hl
    cases hl

end Player

namespace Playback

/-- The loop goes on by itself to its next promotion, while items may change. -/
def Undisturbed (s : Playback) : List Event → Prop
  | [] => True
  | e :: es => (∀ r, e ≠ .request r) ∧ s.promotes e = false ∧ Undisturbed (e.apply s) es

/-- What the loop leaves as it is when it goes on by itself. -/
structure Continues (s t : Playback) : Prop where
  deck : ∃ seekTarget observed wakeups, t.deck = { s.deck with seekTarget, observed, wakeups }
  settings : t.player.settings = s.player.settings
  active : t.player.cancelled = false
  running : t.player.running = true

section Continues

variable {s : Playback}

theorem Continues.refl (hr : s.player.running = true) (hc : s.player.cancelled = false) :
    Continues s s :=
  ⟨⟨s.deck.seekTarget, s.deck.observed, s.deck.wakeups, rfl⟩, rfl, hc, hr⟩

theorem continues_apply {e : Event} (hr : s.player.running = true) (hc : s.player.cancelled = false)
    (he : ∀ r, e ≠ .request r) (hp : s.promotes e = false) : Continues s (e.apply s) := by
  cases e with
  | request r => exact absurd rfl (he r)
  | change c => exact ⟨⟨_, _, _, rfl⟩, rfl, hc, hr⟩
  | move m =>
      obtain ⟨_, _, _, _, _, _, _, loop, hm, hlead⟩ := apply_quiet hp
      rw [Event.apply, hm]
      exact ⟨⟨_, _, _, rfl⟩, rfl, hc, hlead.running hr hc⟩

theorem Continues.trans {t u : Playback} (h : Continues s t) (k : Continues t u) :
    Continues s u := by
  obtain ⟨seekTarget, observed, wakeups, hd⟩ := h.deck
  obtain ⟨seekTarget', observed', wakeups', hd'⟩ := k.deck
  refine ⟨⟨seekTarget', observed', wakeups', ?_⟩, k.settings.trans h.settings, k.active, k.running⟩
  rw [hd', hd]

theorem continues_run {es : List Event} (hr : s.player.running = true)
    (hc : s.player.cancelled = false) (hq : s.Undisturbed es) : Continues s (s.run es) := by
  induction es generalizing s with
  | nil => exact .refl hr hc
  | cons e es ih =>
      obtain ⟨he, hp, hq⟩ := hq
      have h := continues_apply hr hc he hp
      exact h.trans (ih h.running h.active hq)

end Continues

structure Promoted (capacity : Nat) (d : Deck) (t : Playback) : Prop where
  current : t.deck.current = d.retire.playlist.head?
  playlist : t.deck.playlist = d.retire.playlist.tail
  history : t.deck.history = newest capacity d.retire.history
  speed : t.deck.speed = d.speed
  loop : t.player.loop = t.deck.current.elim .waiting .playing
  start : ∀ h ∈ t.deck.current, t.deck.observed = some 0 ∧ (t.catalog.get h).position = 0

theorem promoted {s : Playback} (hp : s.player.promotes = true) :
    Promoted s.capacity s.deck (Move.promotion.apply s) := by
  obtain ⟨hl, hs⟩ := promotion_starts hp
  refine ⟨?_, ?_, ?_, ?_, hl, hs⟩ <;> rw [deck_promotion hp, Deck.promote_eq] <;> rfl

theorem Promoted.congr {capacity : Nat} {d d' : Deck} {t : Playback} (h : Promoted capacity d' t)
    (hr : d'.retire.playlist = d.retire.playlist ∧ d'.retire.history = d.retire.history)
    (hs : d'.speed = d.speed) : Promoted capacity d t where
  current := hr.1 ▸ h.current
  playlist := hr.1 ▸ h.playlist
  history := hr.2 ▸ h.history
  speed := hs ▸ h.speed
  loop := h.loop
  start := h.start

theorem look_promotes {s : Playback} (hr : s.player.running = true)
    (hc : s.player.cancelled = false) (hk : s.deck.nextPending || s.deck.prevPending) :
    (Move.look.apply s).player.promotes = true ∧ (Move.look.apply s).deck = s.deck ∧
      (Move.look.apply s).player.settings = s.player.settings := by
  have hw : s.deck.hasWork = true := by
    rw [Deck.hasWork, Bool.or_assoc, hk, Bool.or_true]
  cases hl : s.player.loop with
  | playing h =>
      have hb : s.player.betweenFrames = { s.player with loop := .waiting } := by
        simp only [Player.betweenFrames, hc, Bool.false_eq_true, if_false, hk, if_true]
      simp only [Move.apply, hl, onPlayer, hb, deck]
      exact ⟨by simp [Player.promotes, hc, hw], trivial, trivial⟩
  | waiting =>
      simp only [Move.apply, hl]
      exact ⟨by simp [Player.promotes, hl, hc, hw], trivial, trivial⟩
  | idle | ended => simp [Player.running, hl] at hr

/-- Whatever the loop does first, an open request brings it to promote from the deck on which the
request was made. -/
theorem next_promotion {s : Playback} (hr : s.player.running = true)
    (hc : s.player.cancelled = false) (hk : s.deck.nextPending || s.deck.prevPending)
    {es : List Event} (hq : s.Undisturbed es) :
    let u := Move.look.apply (s.run es)
    u.player.promotes = true ∧ Promoted s.capacity s.deck (Move.promotion.apply u) := by
  have hcont := continues_run hr hc hq
  obtain ⟨seekTarget, observed, wakeups, hd⟩ := hcont.deck
  have hk' : (s.run es).deck.nextPending || (s.run es).deck.prevPending := by
    rw [hd]
    exact hk
  obtain ⟨hp, hdeck, hset⟩ := look_promotes hcont.running hcont.active hk'
  have h := promoted hp
  rw [hdeck, hd, capacity, hset, hcont.settings] at h
  exact ⟨hp, h.congr (Deck.retire_congr rfl rfl rfl rfl) rfl⟩

structure Starts (h : Handle) (t : Playback) : Prop where
  loop : t.player.loop = .playing h
  current : t.deck.current = some h
  observed : t.deck.observed = some 0
  position : (t.catalog.get h).position = 0

theorem Promoted.starts {capacity : Nat} {d : Deck} {t : Playback} {h : Handle}
    (hp : Promoted capacity d t) (hh : d.retire.playlist.head? = some h) : Starts h t := by
  have hc : t.deck.current = some h := hp.current.trans hh
  obtain ⟨ho, hz⟩ := hp.start h hc
  exact ⟨by rw [hp.loop, hc]; rfl, hc, ho, hz⟩

/-- An item that is set is what the next promotion starts, with nothing behind it, unless there was
an item to leave and a request to go back. -/
theorem set_starts_iff {s : Playback} (hr : s.player.running = true)
    (hc : s.player.cancelled = false) (x : Handle) {es : List Event}
    (hq : (Request.apply s (.set x)).Undisturbed es) :
    let u := Move.look.apply ((Request.apply s (.set x)).run es)
    let t := Move.promotion.apply u
    u.player.promotes = true ∧ t.deck.speed = 1 ∧
      (Starts x t ∧ t.deck.playlist = [] ↔
        s.deck.current = none ∨ s.deck.prevPending = false) := by
  intro u t
  obtain ⟨hp, ht⟩ : u.player.promotes = true ∧ Promoted s.capacity (s.deck.set x) t :=
    next_promotion (s := Request.apply s (.set x)) hr hc rfl hq
  refine ⟨hp, ht.speed, ?_, ?_⟩
  · rintro ⟨-, hn⟩
    cases hb : s.deck.prevPending with
    | false => exact .inr rfl
    | true =>
        cases ho : s.deck.current with
        | none => exact .inl rfl
        | some c =>
            obtain ⟨hl, -⟩ := Deck.retire_back (d := s.deck.set x) ho hb
            -- the item that is left stands in front of the one that is set
            have hback : (s.deck.history.getLast?.toList ++ [c, x]).tail = [] :=
              calc
                _ = (s.deck.set x).retire.playlist.tail := by rw [hl]; rfl
                _ = [] := ht.playlist.symm.trans hn
            cases hg : s.deck.history.getLast? <;> rw [hg] at hback <;> cases hback
  · intro hd
    have hl := Deck.retire_set hd x
    refine ⟨ht.starts (by rw [hl]; rfl), ?_⟩
    rw [ht.playlist, hl]
    rfl

def second : Playback :=
  Playback.run ⟨⟨#[.testPattern 3, .testPattern 3, .testPattern 3]⟩, {}⟩
    [.request (.add 0), .request (.add 1), .request .start, .move .promotion, .request .next,
      .move .look, .move .promotion]

theorem set_starts_over_next :
    let s := second.run [.request (.add 2), .request .next]
    let u := Move.look.apply ((Request.apply s (.set 2)).run [.move .frame])
    let t := Move.promotion.apply u
    s.player.running = true ∧ s.player.cancelled = false ∧
      (Request.apply s (.set 2)).Undisturbed [.move .frame] ∧
      u.player.promotes = true ∧ t.deck.speed = 1 ∧ Starts 2 t ∧ t.deck.playlist = [] := by
  have hq : (Request.apply (second.run [.request (.add 2), .request .next]) (.set 2)).Undisturbed
      [.move .frame] := ⟨nofun, rfl, trivial⟩
  obtain ⟨hp, hs, hi⟩ := set_starts_iff (s := second.run [.request (.add 2), .request .next])
    rfl rfl 2 hq
  exact ⟨rfl, rfl, hq, hp, hs, hi.2 (.inr rfl)⟩

theorem set_queued_behind_prev :
    let s := second.run [.request .prev]
    let t := s.run [.request (.set 2), .move .look, .move .promotion]
    Reachable s ∧ s.player.running = true ∧ s.player.cancelled = false ∧
      Starts 0 t ∧ t.deck.playlist = [1, 2] := by
  refine ⟨?_, rfl, rfl, ⟨rfl, rfl, rfl, rfl⟩, rfl⟩
  exact ((Reachable.new _ _ _).run _).run _

/-- A request to go back starts the newest of the history, with the item that was current behind it,
if an item was current. Else the loop goes on in the playlist. -/
theorem prev_starts_iff {s : Playback} (hs : Reachable s) (hr : s.player.running = true)
    (hc : s.player.cancelled = false) {older : List Handle} {h : Handle}
    (hh : s.deck.history = older ++ [h]) {es : List Event}
    (hq : (Request.apply s .prev).Undisturbed es) :
    let u := Move.look.apply ((Request.apply s .prev).run es)
    let t := Move.promotion.apply u
    u.player.promotes = true ∧
      (Starts h t ∧ t.deck.history = older ∧
          t.deck.playlist = s.deck.current.toList ++ s.deck.playlist ↔ s.deck.current ≠ none) ∧
      (s.deck.current = none →
        t.deck.current = s.deck.playlist.head? ∧ t.deck.playlist = s.deck.playlist.tail ∧
          t.deck.history = s.deck.history) := by
  intro u t
  have hne : s.deck.history ≠ [] := by simp [hh]
  have hk : s.deck.prev.nextPending || s.deck.prev.prevPending := by
    simp [(Deck.prev_of_history hne).1]
  have hbound := hs.sound.bounded
  obtain ⟨hp, ht⟩ : u.player.promotes = true ∧ Promoted s.capacity s.deck.prev t :=
    next_promotion (s := Request.apply s .prev) hr hc hk hq
  refine ⟨hp, ?_⟩
  cases ho : s.deck.current with
  | none =>
      obtain ⟨hl, hn⟩ := Deck.retire_prev_none hne ho
      have hkept : t.deck.history = s.deck.history := by
        rw [ht.history, hn, newest_of_length_le hbound]
      refine ⟨⟨fun ⟨_, he, _⟩ => ?_, fun he => absurd rfl he⟩, fun _ => ⟨?_, ?_, hkept⟩⟩
      · rw [hkept, hh] at he
        simp at he
      · rw [ht.current, hl]
      · rw [ht.playlist, hl]
  | some c =>
      obtain ⟨hl, hn⟩ := Deck.retire_prev hh ho
      have hfits : older.length ≤ s.capacity := by
        rw [hh, List.length_append] at hbound
        omega
      refine ⟨⟨nofun, fun _ => ⟨ht.starts (by rw [hl]; rfl), ?_, ?_⟩⟩, nofun⟩
      · rw [ht.history, hn, newest_of_length_le hfits]
      · rw [ht.playlist, hl]
        rfl

theorem prev_starts_while_leaving :
    let s := second.run [.request (.add 2), .request .next]
    let u := Move.look.apply ((Request.apply s .prev).run [.move .frame])
    let t := Move.promotion.apply u
    Reachable s ∧ s.player.running = true ∧ s.player.cancelled = false ∧
      s.deck.history = [] ++ [0] ∧ (Request.apply s .prev).Undisturbed [.move .frame] ∧
      u.player.promotes = true ∧ Starts 0 t ∧ t.deck.history = [] ∧ t.deck.playlist = [1, 2] := by
  have hs : Reachable (second.run [.request (.add 2), .request .next]) :=
    ((Reachable.new _ _ _).run _).run _
  have hq : (Request.apply (second.run [.request (.add 2), .request .next]) .prev).Undisturbed
      [.move .frame] := ⟨nofun, rfl, trivial⟩
  obtain ⟨hp, hi, -⟩ := prev_starts_iff hs rfl rfl (rfl : _ = [] ++ [0]) hq
  exact ⟨hs, rfl, rfl, rfl, hq, hp, hi.2 nofun⟩

/-- An item that is left while the playlist is emptied is out of reach of the next request. -/
theorem prev_without_current :
    let s := second.run [.request (.add 2), .request .next, .request (.grab 0), .move .look,
      .move .promotion]
    let t := s.run [.request .prev, .move .look, .move .promotion]
    Reachable s ∧ s.player.running = true ∧ s.player.cancelled = false ∧
      s.deck.history = [0, 1] ∧ t.deck.current = none ∧ t.deck.history = [0, 1] := by
  refine ⟨?_, rfl, rfl, rfl, rfl, rfl⟩
  exact ((Reachable.new _ _ _).run _).run _

end Playback

end Playout
