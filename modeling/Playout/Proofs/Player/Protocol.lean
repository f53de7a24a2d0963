import Playout.Proofs.Player.Reachable
import Playout.Proofs.Player.Score

namespace Playout

open Media

namespace Deck

/-- At its speed the item runs out of frames, no seek is open, and another item is there to follow. -/
def runsOut (item : Item) (d : Deck) : Bool :=
  d.seekTarget = none && 0 < d.speed && item.frames ≤ item.position + d.speed && d.playlist ≠ []

theorem ends_advance (item : Item) (d : Deck) : (d.advance item).2.2 = d.runsOut item := by
  cases ht : d.seekTarget with
  | some target => simp [advance, runsOut, ht]
  | none =>
      by_cases hs : 0 < d.speed
      · by_cases hn : (item.frames : Int) ≤ item.position + d.speed
        · have hi : ¬(d.speed ≠ 0 ∧ 0 ≤ item.position + d.speed ∧
              item.position + d.speed < item.frames) := by omega
          rw [advance, ht]
          dsimp only
          rw [if_neg hi]
          simp [runsOut, ht, hs, hn]
        · have hi : d.speed ≠ 0 ∧ 0 ≤ item.position + d.speed ∧
              item.position + d.speed < item.frames := by omega
          simp [advance, runsOut, ht, hi, hn]
      · simp only [advance, runsOut, ht]
        split <;> simp [hs]

end Deck

namespace Player

def lookBeats (h : Handle) (p : Player) : List Beat :=
  if p.cancelled then [.left h .cancelled]
  else if p.deck.nextPending || p.deck.prevPending then [.left h .interrupted]
  else []

def frameBeats (h : Handle) (catalog : Catalog) (p : Player) : List Beat :=
  match (catalog.get h).fetch? with
  | none => [.round .complete (p.answers .complete), .left h .completed]
  | some frame =>
    .round (.push frame) (p.answers (.push frame)) ::
      if (p.answers (.push frame)).all id then
        if p.deck.runsOut (catalog.get h) then
          [.round .complete ((p.round (.push frame)).answers .complete), .left h .completed]
        else p.lookBeats h
      else [.left h .failed]

def finishes (h : Handle) (catalog : Catalog) (p : Player) : Prop :=
  (catalog.get h).fetch? = none ∨
    p.takes h catalog = true ∧ p.deck.runsOut (catalog.get h) = true

def promotionBeats (h : Handle) (p : Player) : List Beat :=
  .promoted h :: if p.storesReady then [] else [.round .init (p.answers .init)]

def stage (p : Player) : Stage :=
  match p.loop with
  | .playing h => .playing h p.storesReady
  | .idle | .waiting | .ended => .resting p.storesReady

theorem stage_of_playing {p : Player} {h : Handle} (hl : p.loop = .playing h) :
    p.stage = .playing h p.storesReady := by
  rw [stage, hl]

theorem stage_of_not_playing {p : Player} (hl : ∀ h, p.loop ≠ .playing h) :
    p.stage = .resting p.storesReady := by
  rw [stage]
  split
  · rename_i h hp
    exact absurd hp (hl h)
  all_goals rfl

theorem item?_stage {p : Player} {h : Handle} : p.stage.item? = some h ↔ p.loop = .playing h := by
  rw [stage]
  split <;> rename_i hl <;> simp [hl, Stage.item?]

theorem isSettled_stage (p : Player) : p.stage.isSettled = true := by
  rw [stage]
  split <;> rfl

/-- From one player to another the stores were told what the score says. -/
structure Plays (score : List Beat) (p q : Player) : Prop where
  stage : Stage.Follows p.stores.length p.stage score q.stage
  calls : ∀ j, q.calls j = p.calls j ++ score.filterMap (Beat.call? j)
  stores : q.stores.length = p.stores.length

theorem Plays.quiet {p q : Player} (hs : q.stage = p.stage)
    (hc : ∀ j, q.calls j = p.calls j) (hn : q.stores.length = p.stores.length) : Plays [] p q where
  stage := hs ▸ .nil _
  calls j := by
    rw [hc, List.filterMap_nil, List.append_nil]
  stores := hn

theorem Plays.trans {score more : List Beat} {p q r : Player} (h : Plays score p q)
    (k : Plays more q r) : Plays (score ++ more) p r where
  stage := h.stage.append (h.stores ▸ k.stage)
  calls j := by
    rw [k.calls, h.calls, List.filterMap_append, List.append_assoc]
  stores := k.stores.trans h.stores

section Frame

variable {h : Handle} {p : Player}

theorem plays_look (hl : p.loop = .playing h) : Plays (p.lookBeats h) p p.betweenFrames := by
  have hs := stage_of_playing hl
  rw [lookBeats, betweenFrames]
  split
  · refine ⟨?_, fun _ => (List.append_nil _).symm, rfl⟩
    rw [hs]
    exact (Stage.Step.left h _ (.inr rfl)).follows
  · split
    · refine ⟨?_, fun _ => (List.append_nil _).symm, rfl⟩
      rw [hs]
      exact (Stage.Step.left h _ (.inl rfl)).follows
    · exact .quiet rfl (fun _ => rfl) rfl

theorem plays_complete (hl : p.loop = .playing h) :
    Plays [.round .complete (p.answers .complete), .left h .completed] p
      { p.completeStores with loop := .waiting } where
  stage := by
    rw [stage_of_playing hl]
    exact .cons (.completed h _ (length_answers _ p)) (Stage.Step.closed h _ _).follows
  calls j := calls_round .complete j p
  stores := length_round .complete p

theorem plays_on (hl : p.loop = .playing h) (ended : Bool) :
    Plays (if ended then [.round .complete (p.answers .complete), .left h .completed]
        else p.lookBeats h) p
      (if ended then { p.completeStores with loop := .waiting } else p.betweenFrames) := by
  cases ended with
  | false => exact plays_look hl
  | true => exact plays_complete hl

theorem plays_frame (hl : p.loop = .playing h) (catalog : Catalog) :
    Plays (p.frameBeats h catalog) p (p.playFrame h catalog).2 := by
  have hs := stage_of_playing hl
  rw [frameBeats]
  cases hf : (catalog.get h).fetch? with
  | none =>
      rw [playFrame_empty hf]
      exact plays_complete hl
  | some frame =>
      have hd := deliver_eq frame p
      have hlen : (p.answers (.push frame)).length = p.stores.length := length_answers _ p
      dsimp only
      rw [← Deck.ends_advance]
      cases ha : (p.answers (.push frame)).all id with
      | false =>
          rw [playFrame_refused hf (by rw [hd, ha]), hd]
          refine ⟨?_, fun j => calls_round (.push frame) j p, length_round _ p⟩
          rw [hs]
          exact .cons (.refused h _ frame hlen ha) (Stage.Step.closed h _ _).follows
      | true =>
          let a := p.deck.advance (catalog.get h)
          let q : Player :=
            { (p.deliver frame).2 with deck := { a.2.1 with observed := some a.1.position }.wake }
          have hq : (p.playFrame h catalog).2 =
              if a.2.2 then { q.completeStores with loop := .waiting } else q.betweenFrames :=
            congrArg Prod.snd (playFrame_taken hf (by rw [hd, ha]))
          have hlq : q.loop = .playing h := hl
          have htaken : Plays [.round (.push frame) (p.answers (.push frame))] p q := by
            refine ⟨?_, fun j => calls_round (.push frame) j p, length_deliver frame p⟩
            have hsq : q.stage = .playing h p.storesReady := stage_of_playing hlq
            rw [hs, hsq]
            exact (Stage.Step.taken h _ frame hlen ha).follows
          have hlook : q.lookBeats h = p.lookBeats h := by
            simp only [lookBeats, q, a, Deck.deck_advance]
            rfl
          rw [hq, ← hlook, if_pos rfl]
          exact htaken.trans (plays_on hlq a.2.2)

theorem plays_readied (hl : p.loop = .waiting) (deck : Deck) :
    Plays (p.promotionBeats h) p ({ p with deck, loop := .playing h } : Player).readied := by
  have hs : p.stage = .resting p.storesReady := by rw [stage, hl]
  rw [promotionBeats, readied]
  cases hr : p.storesReady with
  | true =>
      refine ⟨?_, fun _ => (List.append_nil _).symm, rfl⟩
      rw [hs, hr]
      exact (Stage.Step.promoted h).follows
  | false =>
      rw [initStores_eq]
      refine ⟨?_, fun j => calls_round .init j p, length_round _ p⟩
      rw [hs, hr]
      exact .cons (.opened h) (Stage.Step.init h (length_answers _ p)).follows

end Frame

section Beats

variable {h : Handle} {catalog : Catalog} {p : Player} {beat : Beat}

theorem mem_lookBeats (hb : beat ∈ p.lookBeats h) : ∃ outcome, beat = .left h outcome := by
  rw [lookBeats] at hb
  split at hb
  · exact ⟨_, List.mem_singleton.1 hb⟩
  · split at hb
    · exact ⟨_, List.mem_singleton.1 hb⟩
    · cases hb

theorem mem_promotionBeats (hb : beat ∈ p.promotionBeats h) :
    beat = .promoted h ∨ ∃ answers, beat = .round .init answers := by
  rcases List.mem_cons.1 hb with rfl | hb
  · exact .inl rfl
  · split at hb
    · cases hb
    · exact .inr ⟨_, List.mem_singleton.1 hb⟩

theorem mem_frameBeats (hb : beat ∈ p.frameBeats h catalog) :
    (∃ outcome, beat = .left h outcome) ∨ (∃ answers, beat = .round .complete answers) ∨
      ∃ frame answers, (catalog.get h).fetch? = some frame ∧ beat = .round (.push frame) answers := by
  have hend {answers : List Bool}
      (hb : beat ∈ [Beat.round .complete answers, .left h .completed]) :
      (∃ outcome, beat = .left h outcome) ∨ (∃ answers, beat = .round .complete answers) ∨
        ∃ frame answers, (catalog.get h).fetch? = some frame ∧
          beat = .round (.push frame) answers := by
    simp only [List.mem_cons, List.not_mem_nil, or_false] at hb
    rcases hb with rfl | rfl
    · exact .inr (.inl ⟨_, rfl⟩)
    · exact .inl ⟨_, rfl⟩
  rw [frameBeats] at hb
  split at hb
  · exact hend hb
  · rename_i frame hf
    rcases List.mem_cons.1 hb with rfl | hb
    · exact .inr (.inr ⟨frame, _, hf, rfl⟩)
    · split at hb
      · split at hb
        · exact hend hb
        · exact .inl (mem_lookBeats hb)
      · exact .inl ⟨_, List.mem_singleton.1 hb⟩

theorem isPromoted_frameBeats (hb : beat ∈ p.frameBeats h catalog) : beat.isPromoted = false := by
  rcases mem_frameBeats hb with ⟨outcome, rfl⟩ | ⟨answers, rfl⟩ | ⟨frame, answers, -, rfl⟩ <;> rfl

theorem fetch_of_push_mem {frame : Frame} {answers : List Bool}
    (hb : .round (.push frame) answers ∈ p.frameBeats h catalog) :
    (catalog.get h).fetch? = some frame := by
  rcases mem_frameBeats hb with ⟨outcome, he⟩ | ⟨answers, he⟩ | ⟨frame', answers, hf, he⟩
  · cases he
  · cases he
  · cases he
    exact hf

theorem complete_mem_frameBeats_iff :
    (∃ answers, .round .complete answers ∈ p.frameBeats h catalog) ↔ p.finishes h catalog := by
  rw [frameBeats, finishes]
  cases hf : (catalog.get h).fetch? with
  | none => simp
  | some frame =>
      have ht : p.takes h catalog = (p.answers (.push frame)).all id := by
        simp only [takes, hf, Option.any_some, deliver_eq]
      rw [ht]
      dsimp only
      cases (p.answers (.push frame)).all id with
      | false => simp
      | true =>
          cases p.deck.runsOut (catalog.get h) with
          | true => simp
          | false =>
              have hn : ∀ answers, .round .complete answers ∉ p.lookBeats h := by
                intro answers hb
                obtain ⟨outcome, he⟩ := mem_lookBeats hb
                cases he
              simp [hn]

end Beats

structure Undisturbed (p q : Player) : Prop where
  loop : q.loop = p.loop
  ready : q.storesReady = p.storesReady
  held : q.held = p.held
  calls : ∀ j, q.calls j = p.calls j
  stores : q.stores.length = p.stores.length

theorem undisturbed_setStore (name value : String) (p : Player) :
    Undisturbed p (p.setStoreProperty name value).2 := by
  rw [setStoreProperty]
  split
  · exact ⟨rfl, rfl, rfl, fun _ => rfl, rfl⟩
  · rename_i hs
    refine ⟨rfl, rfl, rfl, fun j => ?_, ?_⟩
    · simp only [calls, List.filter_append]
      simp [List.filter_cons, apply_ite, Store.Call.demand?]
    · simp [hs]

theorem Undisturbed.plays {p q : Player} (h : Undisturbed p q) : Plays [] p q := by
  refine .quiet ?_ h.calls h.stores
  rw [stage, stage, h.loop, h.ready]

def Accounted (p : Player) : Prop := p.held = true ∨ p.cancelled = true ∨ p.loop = .idle

end Player

namespace Playback

variable {s : Playback}

theorem undisturbed_request {r : Request} (hs : r ≠ .start) (hd : r ≠ .shutdown) :
    Player.Undisturbed s.player (r.apply s).player := by
  cases r with
  | start => exact absurd rfl hs
  | shutdown => exact absurd rfl hd
  | cancel | controlStart | set | add | insert | grab | next | prev | setSpeed =>
      exact ⟨rfl, rfl, rfl, fun _ => rfl, rfl⟩
  | controlEnd =>
      simp only [Request.apply, onPlayer, Player.controlEnd]
      split <;> exact ⟨rfl, rfl, rfl, fun _ => rfl, rfl⟩
  | seek position =>
      simp only [Request.apply, onPlayer, Player.requestSeek]
      split <;> exact ⟨rfl, rfl, rfl, fun _ => rfl, rfl⟩
  | setStore name value => exact Player.undisturbed_setStore name value s.player

/-- What an event adds to the score. A shutdown lets the loop finish the frame it is at. -/
def beats (s : Playback) : Event → List Beat
  | .move .frame =>
    match s.player.loop with
    | .playing h => s.player.frameBeats h s.catalog
    | _ => []
  | .move .look =>
    match s.player.loop with
    | .playing h => s.player.lookBeats h
    | _ => []
  | .move .promotion =>
    if s.player.promotes then (s.deck.promote s.capacity).1.elim [] s.player.promotionBeats else []
  | .request .shutdown =>
    match s.player.loop with
    | .playing h => s.player.cancel.frameBeats h s.catalog
    | _ => []
  | _ => []

def score (s : Playback) : List Event → List Beat
  | [] => []
  | e :: es => s.beats e ++ (e.apply s).score es

theorem apply_of_idle (hl : s.player.loop = .idle) (m : Move) : m.apply s = s := by
  cases m with
  | frame | look => simp only [Move.apply, hl]
  | promotion =>
      rw [Move.apply, onLoop, Player.settle_of_ne (by simp [hl])]

theorem accounted_move (ha : s.player.Accounted) (m : Move) : (m.apply s).player.Accounted := by
  rcases ha with hh | hc | hl
  · left
    cases hm : s.promotes (.move m) with
    | false =>
        obtain ⟨_, _, _, _, _, _, _, _, he, -⟩ := apply_quiet hm
        rw [he]
        exact hh
    | true =>
        obtain ⟨he, hp⟩ := eq_promotion hm
        cases he
        simp only [Move.apply, onLoop, Player.settle_of_promotes hp]
        split
        · exact hh
        · exact (Player.readied_congr Player.held rfl).trans hh
  · right
    left
    refine (kept_move ?_).cancelled hc
    cases hm : s.promotes (.move m) with
    | false => rfl
    | true =>
        have hp := (eq_promotion hm).2
        simp [Player.promotes, hc] at hp
  · rw [apply_of_idle hl]
    exact .inr (.inr hl)

theorem accounted_apply (ha : s.player.Accounted) (e : Event) : (e.apply s).player.Accounted := by
  cases e with
  | change c => exact ha
  | move m => exact accounted_move ha m
  | request r =>
      by_cases hs : r = .start
      · subst hs
        simp only [Event.apply, Request.apply, onPlayer, Player.start]
        split
        · exact ha
        · split
          · exact ha
          · exact .inl rfl
      · by_cases hd : r = .shutdown
        · subst hd
          exact .inr (.inl (Player.cancelled_shutdown s.catalog s.player))
        · have hu := undisturbed_request (s := s) hs hd
          have hk := kept_request s r
          rcases ha with hh | hc | hl
          · exact .inl (hu.held.trans hh)
          · exact .inr (.inl (hk.cancelled hc))
          · exact .inr (.inr (hu.loop.trans hl))

theorem mem_beats {e : Event} {beat : Beat} (hb : beat ∈ s.beats e) :
    (e = .move .promotion ∧ s.player.promotes = true ∧
      ∃ h, (s.deck.promote s.capacity).1 = some h ∧ beat ∈ s.player.promotionBeats h) ∨
    ∃ h, s.player.loop = .playing h ∧
      (e = .move .look ∧ beat ∈ s.player.lookBeats h ∨
        e = .move .frame ∧ beat ∈ s.player.frameBeats h s.catalog ∨
        e = .request .shutdown ∧ beat ∈ s.player.cancel.frameBeats h s.catalog) := by
  unfold beats at hb
  split at hb
  · split at hb
    · exact .inr ⟨_, ‹_›, .inr (.inl ⟨rfl, hb⟩)⟩
    · cases hb
  · split at hb
    · exact .inr ⟨_, ‹_›, .inl ⟨rfl, hb⟩⟩
    · cases hb
  · split at hb
    · rename_i hp
      cases hd : (s.deck.promote s.capacity).1 with
      | none =>
          rw [hd] at hb
          cases hb
      | some h =>
          rw [hd] at hb
          exact .inl ⟨rfl, hp, h, rfl, hb⟩
    · cases hb
  · split at hb
    · exact .inr ⟨_, ‹_›, .inr (.inr ⟨rfl, hb⟩)⟩
    · cases hb
  · cases hb

theorem beats_of_not_playing (hl : ∀ h, s.player.loop ≠ .playing h) {e : Event}
    (he : e ≠ .move .promotion) : s.beats e = [] := by
  rw [List.eq_nil_iff_forall_not_mem]
  intro beat hb
  rcases mem_beats hb with ⟨hp, -⟩ | ⟨h, hp, -⟩
  · exact he hp
  · exact hl h hp

theorem plays_shutdown (s : Playback) :
    Player.Plays (s.beats (.request .shutdown)) s.player (s.player.shutdown s.catalog).2 := by
  by_cases hl : ∃ h, s.player.loop = .playing h
  · obtain ⟨h, hl⟩ := hl
    have hb : s.beats (.request .shutdown) = s.player.cancel.frameBeats h s.catalog := by
      simp only [beats, hl]
    have hf := Player.plays_frame (p := s.player.cancel) hl s.catalog
    have hend : ∀ k, (s.player.cancel.playFrame h s.catalog).2.loop ≠ .playing k := by
      intro k
      obtain ⟨_, _, _, _, _, _, loop, he, -, hstop⟩ := s.player.cancel.playFrame_eq h s.catalog
      rw [he]
      rcases hstop rfl with rfl | rfl <;> exact nofun
    rw [hb, Player.shutdown_of_playing hl]
    refine ⟨?_, hf.calls, hf.stores⟩
    have hstage := hf.stage
    rwa [Player.stage_of_not_playing hend] at hstage
  · have hl := not_exists.1 hl
    obtain ⟨loop, he, hn⟩ := Player.shutdown_of_not_playing hl s.catalog
    rw [beats_of_not_playing hl Event.noConfusion, he]
    refine .quiet ?_ (fun _ => rfl) rfl
    rw [Player.stage_of_not_playing hl, Player.stage_of_not_playing hn]
    rfl

theorem plays_start (ha : s.player.Accounted) : Player.Plays [] s.player s.player.start.2 := by
  rw [Player.start]
  split
  · exact .quiet rfl (fun _ => rfl) rfl
  · split
    · exact .quiet rfl (fun _ => rfl) rfl
    · rename_i hh hc
      have hl : s.player.loop = .idle := by simpa [Player.Accounted, hh, hc] using ha
      refine .quiet ?_ (fun _ => rfl) rfl
      rw [Player.stage_of_not_playing (p := s.player) (by simp [hl])]
      rfl

theorem plays_promotion (s : Playback) :
    Player.Plays (s.beats (.move .promotion)) s.player (s.player.settle s.catalog).2 := by
  cases hp : s.player.promotes with
  | false =>
      have hb : s.beats (.move .promotion) = [] := by simp [beats, hp]
      rw [hb]
      by_cases hw : s.player.loop = .waiting
      · obtain ⟨loop, he, hlead⟩ := Player.settle_quiet hp s.catalog
        have hl : ∀ h, s.player.loop ≠ .playing h := by simp [hw]
        rw [he]
        refine .quiet ?_ (fun _ => rfl) rfl
        rw [Player.stage_of_not_playing hl]
        exact Player.stage_of_not_playing fun h hp => hl h (hlead.playing hp)
      · rw [Player.settle_of_ne hw]
        exact .quiet rfl (fun _ => rfl) rfl
  | true =>
      have hw := Player.loop_of_promotes hp
      rw [Player.settle_of_promotes hp, beats, if_pos hp]
      cases hd : s.deck.promote s.capacity with
      | mk promoted deck =>
          cases promoted with
          | none => exact .quiet rfl (fun _ => rfl) rfl
          | some h => exact Player.plays_readied hw deck

theorem plays_move (s : Playback) (m : Move) :
    Player.Plays (s.beats (.move m)) s.player (m.apply s).player := by
  cases m with
  | promotion => exact plays_promotion s
  | frame =>
      cases hl : s.player.loop with
      | playing h =>
          simp only [beats, Move.apply, hl]
          exact Player.plays_frame hl s.catalog
      | idle | waiting | ended =>
          simp only [beats, Move.apply, hl]
          exact .quiet rfl (fun _ => rfl) rfl
  | look =>
      cases hl : s.player.loop with
      | playing h =>
          simp only [beats, Move.apply, hl]
          exact Player.plays_look hl
      | idle | waiting | ended =>
          simp only [beats, Move.apply, hl]
          exact .quiet rfl (fun _ => rfl) rfl

theorem plays_apply (ha : s.player.Accounted) (e : Event) :
    Player.Plays (s.beats e) s.player (e.apply s).player := by
  cases e with
  | change c => exact .quiet rfl (fun _ => rfl) rfl
  | move m => exact plays_move s m
  | request r =>
      by_cases hs : r = .start
      · subst hs
        exact plays_start ha
      · by_cases hd : r = .shutdown
        · subst hd
          exact plays_shutdown s
        · have hu := undisturbed_request (s := s) hs hd
          have hb : s.beats (.request r) = [] := by
            cases r <;> first | rfl | exact absurd rfl hd
          rw [hb]
          exact hu.plays

theorem plays_run (ha : s.player.Accounted) (es : List Event) :
    Player.Plays (s.score es) s.player (s.run es).player := by
  induction es generalizing s with
  | nil => exact .quiet rfl (fun _ => rfl) rfl
  | cons e es ih => exact (plays_apply ha e).trans (ih (accounted_apply ha e))

theorem isPromoted_of_playing {h : Handle} (hl : s.player.loop = .playing h) (e : Event) :
    ∀ beat ∈ s.beats e, beat.isPromoted = false := by
  intro beat hb
  rcases mem_beats hb with ⟨-, hp, -⟩ | ⟨k, -, ⟨-, hb⟩ | ⟨-, hb⟩ | ⟨-, hb⟩⟩
  · rw [Player.loop_of_promotes hp] at hl
    cases hl
  · obtain ⟨outcome, rfl⟩ := Player.mem_lookBeats hb
    rfl
  · exact Player.isPromoted_frameBeats hb
  · exact Player.isPromoted_frameBeats hb

theorem promoted_mem_beats_iff {e : Event} {h : Handle} :
    .promoted h ∈ s.beats e ↔
      s.player.loop = .waiting ∧ (e.apply s).player.loop = .playing h := by
  constructor
  · intro hb
    rcases mem_beats hb with ⟨rfl, hp, k, hd, hb⟩ | ⟨k, hl, -⟩
    · obtain rfl : k = h := by
        rcases Player.mem_promotionBeats hb with he | ⟨answers, he⟩
        · cases he
          rfl
        · cases he
      refine ⟨Player.loop_of_promotes hp, ?_⟩
      simp only [Event.apply, Move.apply, onLoop, Player.settle_promoted hp (Prod.ext hd rfl)]
      exact Player.loop_readied _
    · have hn := isPromoted_of_playing hl e _ hb
      cases hn
  · rintro ⟨hw, hl⟩
    cases hp : s.promotes e with
    | false =>
        have hs := (kept_apply hp).loop h hl
        rw [hw] at hs
        cases hs
    | true =>
        obtain ⟨rfl, hq⟩ := eq_promotion hp
        have hc : Loop.playing h = (s.deck.promote s.capacity).1.elim .waiting .playing := by
          rw [← hl, Deck.fst_promote, ← deck_promotion hq]
          exact (promotion_starts hq).1
        simp only [beats, hq, if_true]
        cases hd : (s.deck.promote s.capacity).1 with
        | none =>
            rw [hd] at hc
            cases hc
        | some k =>
            rw [hd] at hc
            cases hc
            exact List.mem_cons_self

theorem left_mem_beats_iff (ha : s.player.Accounted) {h : Handle}
    (hl : s.player.loop = .playing h) (e : Event) :
    (∃ outcome, .left h outcome ∈ s.beats e) ↔ (e.apply s).player.loop ≠ .playing h := by
  have hf := (plays_apply ha e).stage
  rw [Player.stage_of_playing hl] at hf
  rw [hf.left_iff rfl (isPromoted_of_playing hl e), ne_eq, Player.item?_stage]

theorem complete_mem_beats_iff {e : Event} :
    (∃ answers, .round .complete answers ∈ s.beats e) ↔
      ∃ h, s.player.loop = .playing h ∧ (e = .move .frame ∨ e = .request .shutdown) ∧
        s.player.finishes h s.catalog := by
  constructor
  · rintro ⟨answers, hb⟩
    rcases mem_beats hb with ⟨-, -, k, -, hb⟩ | ⟨k, hl, ⟨-, hb⟩ | ⟨he, hb⟩ | ⟨he, hb⟩⟩
    · rcases Player.mem_promotionBeats hb with he | ⟨answers, he⟩ <;> cases he
    · obtain ⟨outcome, he⟩ := Player.mem_lookBeats hb
      cases he
    · exact ⟨k, hl, .inl he, Player.complete_mem_frameBeats_iff.1 ⟨answers, hb⟩⟩
    · exact ⟨k, hl, .inr he, (Player.complete_mem_frameBeats_iff (p := s.player.cancel)).1 ⟨answers, hb⟩⟩
  · rintro ⟨h, hl, rfl | rfl, hf⟩
    · simp only [beats, hl]
      exact Player.complete_mem_frameBeats_iff.2 hf
    · simp only [beats, hl]
      exact Player.complete_mem_frameBeats_iff.2 hf

theorem push_mem_beats {e : Event} {frame : Frame} {answers : List Bool}
    (hb : .round (.push frame) answers ∈ s.beats e) :
    ∃ h, s.player.loop = .playing h ∧ (s.catalog.get h).fetch? = some frame := by
  rcases mem_beats hb with ⟨-, -, k, -, hb⟩ | ⟨k, hl, ⟨-, hb⟩ | ⟨-, hb⟩ | ⟨-, hb⟩⟩
  · rcases Player.mem_promotionBeats hb with he | ⟨answers, he⟩ <;> cases he
  · obtain ⟨outcome, he⟩ := Player.mem_lookBeats hb
    cases he
  · exact ⟨k, hl, Player.fetch_of_push_mem hb⟩
  · exact ⟨k, hl, Player.fetch_of_push_mem hb⟩

/-- A run of a player over its stores. -/
structure Protocol (s : Playback) (es : List Event) : Prop where
  orderly : Orderly s.player.stores.length (s.score es)
  calls : ∀ j, (s.run es).player.calls j = (s.score es).filterMap (Beat.call? j)
  same : ∀ j < s.player.stores.length,
    ((s.run es).player.calls j).filterMap Store.Call.demand? = (s.score es).filterMap Beat.demand?
  promoted : ∀ e h, .promoted h ∈ (s.run es).beats e ↔
    (s.run es).player.loop = .waiting ∧ (e.apply (s.run es)).player.loop = .playing h
  left : ∀ e h, (s.run es).player.loop = .playing h →
    ((∃ outcome, .left h outcome ∈ (s.run es).beats e) ↔
      (e.apply (s.run es)).player.loop ≠ .playing h)
  frame : ∀ e frame answers, .round (.push frame) answers ∈ (s.run es).beats e →
    ∃ h, (s.run es).deck.current = some h ∧
      frame = ⟨((s.run es).catalog.get h).position, ((s.run es).catalog.get h).uri⟩ ∧
      ((s.run es).catalog.get h).position < ((s.run es).catalog.get h).frames
  complete : ∀ e, (∃ answers, .round .complete answers ∈ (s.run es).beats e) ↔
    ∃ h, (s.run es).player.loop = .playing h ∧ (e = .move .frame ∨ e = .request .shutdown) ∧
      (s.run es).player.finishes h (s.run es).catalog

theorem accounted_run (ha : s.player.Accounted) (es : List Event) :
    (s.run es).player.Accounted := by
  induction es generalizing s with
  | nil => exact ha
  | cons e es ih => exact ih (accounted_apply ha e)

/-- Whatever the stores answer, every run of a new player keeps to the protocol. -/
theorem stores_protocol (catalog : Catalog) (settings : PlayerSettings) (stores : List Store)
    (es : List Event) : Protocol ⟨catalog, { settings, stores }⟩ es := by
  have ha : Player.Accounted { settings, stores } := .inr (.inr rfl)
  have hr := plays_run (s := ⟨catalog, { settings, stores }⟩) ha es
  have ho := hr.stage.orderly (Player.isSettled_stage _)
  refine ⟨ho, hr.calls, fun j hj => ?_, fun e h => promoted_mem_beats_iff,
    fun e h hl => left_mem_beats_iff (accounted_run ha es) hl e, fun e frame answers hb => ?_,
    fun e => complete_mem_beats_iff⟩
  · rw [hr.calls]
    exact filterMap_call ho.asked hj
  · obtain ⟨h, hl, hf⟩ := push_mem_beats hb
    have hs := ((Reachable.new catalog settings stores).run es).sound
    refine ⟨h, hs.shown h hl, ?_⟩
    rw [Item.fetch?] at hf
    split at hf
    · exact ⟨(Option.some.inj hf).symm, ‹_›⟩
    · cases hf

example :
    let store : Store := .scripted ⟨fun _ => true, fun n => n ≠ 0, fun _ => false⟩ 0 0
    let s : Playback := ⟨⟨#[.testPattern 2, .testPattern 0]⟩, { stores := [store] }⟩
    s.score [.request (.add 0), .request (.add 1), .request .start, .move .promotion, .move .frame,
        .move .promotion, .move .frame] =
      [.promoted 0, .round .init [true], .round (.push ⟨0, "test:"⟩) [false], .left 0 .failed,
        .promoted 1, .round .init [true], .round .complete [true], .left 1 .completed] := by
  decide +kernel

end Playback

end Playout
