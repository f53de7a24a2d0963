import Playout.Proofs.Player.Landing

namespace Playout

open Media

namespace Deck

variable {d : Deck}

theorem next_of_playlist (hd : d.playlist ≠ []) :
    d.next.nextPending = true ∧ d.next.prevPending = d.prevPending ∧ d.next.current = d.current ∧
      d.next.playlist = d.playlist ∧ d.next.history = d.history := by
  unfold next
  split
  · exact ⟨rfl, rfl, rfl, rfl, rfl⟩
  · rename_i hn
    exact ⟨by simpa [hd] using hn, rfl, rfl, rfl, rfl⟩

theorem next_next (d : Deck) : d.next.next = d.next := by
  by_cases hd : d.playlist = []
  · simp [next, hd]
  · obtain ⟨hn, -⟩ := next_of_playlist hd
    rw [next, if_neg (by simp [hn])]

end Deck

namespace Player

/-- The frames that the store of a number was given, with its answers. -/
def pushes (j : Nat) (p : Player) : List Store.Call := (p.calls j).filter Store.Call.isPush

variable {h : Handle} {catalog : Catalog} {p : Player}

theorem Plays.pushes {q : Player} {score : List Beat} (hp : Plays score p q) (j : Nat) :
    q.pushes j =
      p.pushes j ++ (score.filterMap (Beat.call? j)).filter Store.Call.isPush := by
  rw [Player.pushes, hp.calls, List.filter_append, ← Player.pushes]

theorem calls_lookBeats (h : Handle) (p : Player) (j : Nat) :
    (p.lookBeats h).filterMap (Beat.call? j) = [] := by
  rw [lookBeats]
  split
  · rfl
  · split <;> rfl

theorem pushes_frameBeats (h : Handle) (catalog : Catalog) {j : Nat} (hj : j < p.stores.length) :
    ((p.frameBeats h catalog).filterMap (Beat.call? j)).filter Store.Call.isPush =
      (catalog.get h).fetch?.toList.map fun frame => .push j (p.stores[j].push frame).1 frame := by
  rw [frameBeats]
  cases hf : (catalog.get h).fetch? with
  | none => simp [Beat.call?, answers, hj, Store.Demand.entry, Store.Call.isPush]
  | some frame =>
      have hrest (rest : List Beat) (hr : (rest.filterMap (Beat.call? j)).filter Store.Call.isPush = []) :
          ((Beat.round (.push frame) (p.answers (.push frame)) :: rest).filterMap
            (Beat.call? j)).filter Store.Call.isPush = [.push j (p.stores[j].push frame).1 frame] := by
        have hcall : Beat.call? j (.round (.push frame) (p.answers (.push frame))) =
            some (.push j (p.stores[j].push frame).1 frame) := by
          simp [Beat.call?, answers, hj, Store.Demand.entry, Store.Demand.answer]
        rw [List.filterMap_cons_some hcall, List.filter_cons_of_pos rfl, hr]
      refine hrest _ ?_
      split
      · split
        · simp [Beat.call?, answers, length_round, hj, Store.Demand.entry, Store.Call.isPush]
        · rw [calls_lookBeats]
          rfl
      · rfl

theorem pushes_promotionBeats (h : Handle) (p : Player) (j : Nat) :
    ((p.promotionBeats h).filterMap (Beat.call? j)).filter Store.Call.isPush = [] := by
  rw [promotionBeats]
  split
  · rfl
  · simp only [List.filterMap_cons, List.filterMap_nil, Beat.call?, Store.Demand.entry]
    cases (p.answers .init)[j]? <;> rfl

theorem loop_frame_of_pending (hc : p.cancelled = false)
    (hk : p.deck.nextPending || p.deck.prevPending) (h : Handle) (catalog : Catalog) :
    (p.playFrame h catalog).2.loop = .waiting := by
  cases hf : (catalog.get h).fetch? with
  | none => rw [playFrame_empty hf]
  | some frame =>
      cases hd : (p.deliver frame).1 with
      | false => rw [playFrame_refused hf hd]
      | true =>
          rw [playFrame_taken hf hd]
          dsimp only
          split
          · rfl
          · rw [betweenFrames, Deck.deck_advance]
            have hactive : (p.deliver frame).2.cancelled = false := hc
            simp only [hactive, Deck.wake, hk, Bool.false_eq_true, if_false, if_true]

end Player

namespace Playback

variable {s : Playback} {c h : Handle}

theorem run_nexts (s : Playback) (n : Nat) :
    s.run (List.replicate (n + 1) (.request .next)) = Request.apply s .next := by
  induction n generalizing s with
  | zero => rfl
  | succ n ih =>
      rw [List.replicate_succ, run_cons, ih]
      simp only [Event.apply, Request.apply, onPlayer, Player.onDeck, Deck.next_next]

theorem look_of_waiting (hw : s.player.loop = .waiting) : Move.look.apply s = s := by
  simp only [Move.apply, hw]

/-- The step of a loop that has a request to answer: it leaves its item, whatever becomes of the frame,
and promotes once. -/
theorem step_promoted (hl : s.player.loop = .playing c) (hc : s.player.cancelled = false)
    (hk : s.deck.nextPending || s.deck.prevPending) :
    (Move.frame.apply s).player.promotes = true ∧
      Promoted s.capacity s.deck (s.onLoop Player.step) := by
  have hr : s.player.running = true := by rw [Player.running, hl]
  have hq : s.Undisturbed [.move .frame] := ⟨fun _ => Event.noConfusion, rfl, trivial⟩
  have hwaits : (Move.frame.apply s).player.loop = .waiting := by
    simp only [Move.apply, hl, onLoop]
    exact Player.loop_frame_of_pending hc hk c s.catalog
  have hp := next_promotion hr hc hk hq
  simp only [run_cons, run_nil, Event.apply, look_of_waiting hwaits] at hp
  rwa [onLoop_step hl]

theorem answered_promotion (hp : s.player.promotes = true) :
    (Move.promotion.apply s).deck.nextPending = false ∧
      (Move.promotion.apply s).deck.prevPending = false := by
  rw [deck_promotion hp, Deck.promote_eq]
  exact ⟨rfl, rfl⟩

theorem pushes_promotion (s : Playback) (j : Nat) :
    (Move.promotion.apply s).player.pushes j = s.player.pushes j := by
  rw [(plays_move s .promotion).pushes, beats]
  split
  · cases (s.deck.promote s.capacity).1 with
    | none => exact List.append_nil _
    | some h =>
        rw [Option.elim_some, Player.pushes_promotionBeats, List.append_nil]
  · exact List.append_nil _

theorem pushes_step (hl : s.player.loop = .playing c) {j : Nat} (hj : j < s.player.stores.length) :
    (s.onLoop Player.step).player.pushes j =
      s.player.pushes j ++
        (s.catalog.get c).fetch?.toList.map fun frame =>
          .push j (s.player.stores[j].push frame).1 frame := by
  have hb : s.beats (.move .frame) = s.player.frameBeats c s.catalog := by simp only [beats, hl]
  rw [onLoop_step hl, pushes_promotion, (plays_move s .frame).pushes, hb,
    Player.pushes_frameBeats c s.catalog hj]

/-- However often the next item is asked for, one step of the loop starts the first of the playlist,
and no other: the item that was played becomes the newest of the history, no request is open, and each
store was given one frame more, if the item has frames. This is so whether or not the item ran out or
was refused at that frame. -/
theorem next_starts_one {rest : List Handle} (hs : Reachable s) (hl : s.player.loop = .playing c)
    (hc : s.player.cancelled = false) (hp : s.deck.prevPending = false)
    (hq : s.deck.playlist = h :: rest) {n : Nat} (hn : 0 < n) :
    let item := s.catalog.get c
    let frame : Frame := ⟨item.position, item.uri⟩
    let t := (s.run (List.replicate n (.request .next))).onLoop Player.step
    Starts h t ∧ t.deck.playlist = rest ∧
      t.deck.history = newest s.capacity (s.deck.history ++ [c]) ∧
      t.deck.nextPending = false ∧ t.deck.prevPending = false ∧
      ∀ j (hj : j < s.player.stores.length),
        t.player.pushes j =
          s.player.pushes j ++
            if 0 < item.frames then [.push j (s.player.stores[j].push frame).1 frame] else [] := by
  intro item frame t
  obtain ⟨n, rfl⟩ := Nat.exists_eq_succ_of_ne_zero (Nat.ne_of_gt hn)
  let u := Request.apply s .next
  have ht : t = u.onLoop Player.step := congrArg (onLoop Player.step) (run_nexts s n)
  obtain ⟨hnext, hprev, hcurrent, hplaylist, hhistory⟩ :=
    Deck.next_of_playlist (d := s.deck) (by simp [hq])
  have hlu : u.player.loop = .playing c := hl
  have hpending : u.deck.nextPending || u.deck.prevPending := Bool.or_eq_true_iff.2 (.inl hnext)
  obtain ⟨hpromotes, hpromoted⟩ := step_promoted hlu hc hpending
  obtain ⟨hbehind, hjoins⟩ :=
    Deck.retire_ahead (d := u.deck) (hcurrent.trans (hs.sound.shown c hl)) (hprev.trans hp)
  have hcons : u.deck.retire.playlist = h :: rest := hbehind.trans (hplaylist.trans hq)
  obtain ⟨hn', hp'⟩ := answered_promotion hpromotes
  rw [← onLoop_step hlu] at hn' hp'
  rw [ht]
  refine ⟨hpromoted.starts (by rw [hcons]; rfl), ?_, ?_, hn', hp', fun j hj => ?_⟩
  · rw [hpromoted.playlist, hcons]
    rfl
  · rw [hpromoted.history, hjoins]
    exact congrArg (fun l => newest s.capacity (l ++ [c])) hhistory
  · have hfetch : (u.catalog.get c).fetch? = if 0 < item.frames then some frame else none :=
      (hs.inside hl).fetch
    refine (pushes_step (s := u) hlu hj).trans ?_
    rw [hfetch]
    split <;> rfl

/-- It is asked twice, with a seek open, and the one store refuses the only frame of the item. -/
theorem next_starts_one_refused :
    let refusing : Store := .scripted ⟨fun _ => true, fun _ => false, fun _ => false⟩ 0 0
    let s := Playback.run ⟨⟨#[.testPattern 1, .testPattern 3]⟩, { stores := [refusing] }⟩
      [.request (.add 0), .request (.add 1), .request .start, .move .promotion, .request (.seek 5)]
    let t := (s.run (List.replicate 2 (.request .next))).onLoop Player.step
    Reachable s ∧ s.player.loop = .playing 0 ∧ s.player.cancelled = false ∧
      s.deck.prevPending = false ∧ s.deck.playlist = [1] ∧ Starts 1 t ∧ t.deck.playlist = [] ∧
      t.deck.history = [0] ∧ t.deck.nextPending = false ∧ t.deck.prevPending = false ∧
      t.player.pushes 0 = [.push 0 false ⟨0, "test:"⟩] := by
  intro refusing s
  have hs : Reachable s := (Reachable.new _ _ _).run _
  have hl : s.player.loop = .playing 0 := rfl
  have hq : s.deck.playlist = 1 :: [] := rfl
  obtain ⟨hstarts, hplaylist, hhistory, hnext, hprev, hpushes⟩ :=
    next_starts_one hs hl rfl rfl hq (n := 2) (by decide)
  exact ⟨hs, hl, rfl, rfl, hq, hstarts, hplaylist, hhistory, hnext, hprev,
    hpushes 0 (by decide)⟩

end Playback

end Playout
