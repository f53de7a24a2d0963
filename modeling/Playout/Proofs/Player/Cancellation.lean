import Playout.Proofs.Player.Protocol
import Playout.Proofs.Player.Switching

namespace Playout

open Media

namespace Store.Call

def isComplete : Call → Bool
  | complete _ => true
  | init _ _ | push _ _ _ | set _ _ _ _ => false

def isInit : Call → Bool
  | init _ _ => true
  | push _ _ _ | complete _ | set _ _ _ _ => false

end Store.Call

/-- What a loop that was cancelled still does with an item: it looks at the requests and leaves, or it
plays one frame and leaves. -/
inductive Parting (h : Handle) : List Beat → Prop
  | looked : Parting h [.left h .cancelled]
  | empty (answers : List Bool) : Parting h [.round .complete answers, .left h .completed]
  | refused (frame : Frame) (answers : List Bool) :
    Parting h [.round (.push frame) answers, .left h .failed]
  | taken (frame : Frame) (answers : List Bool) :
    Parting h [.round (.push frame) answers, .left h .cancelled]
  | completed (frame : Frame) (answers ends : List Bool) :
    Parting h [.round (.push frame) answers, .round .complete ends, .left h .completed]

/-- Few calls: a frame at most, the end of an item at most, and no `init`. -/
structure Brief (calls : List Store.Call) : Prop where
  frames : calls.countP Store.Call.isPush ≤ 1
  completes : calls.countP Store.Call.isComplete ≤ 1
  inits : calls.countP Store.Call.isInit = 0

theorem brief_nil : Brief [] := ⟨Nat.zero_le _, Nat.zero_le _, rfl⟩

theorem Parting.brief {h : Handle} {score : List Beat} (hp : Parting h score) (j : Nat) :
    Brief (score.filterMap (Beat.call? j)) := by
  cases hp with
  | looked => exact brief_nil
  | empty answers | refused frame answers | taken frame answers =>
      simp only [List.filterMap_cons, List.filterMap_nil, Beat.call?]
      cases answers[j]? <;> constructor <;>
        simp [Store.Demand.entry, Store.Call.isPush, Store.Call.isComplete, Store.Call.isInit]
  | completed frame answers ends =>
      simp only [List.filterMap_cons, List.filterMap_nil, Beat.call?]
      cases answers[j]? <;> cases ends[j]? <;> constructor <;>
        simp [List.countP_cons, Store.Demand.entry, Store.Call.isPush, Store.Call.isComplete,
          Store.Call.isInit]

namespace Player

variable {p : Player}

theorem lookBeats_of_cancelled (hc : p.cancelled = true) (h : Handle) :
    p.lookBeats h = [.left h .cancelled] := by
  rw [lookBeats, if_pos hc]

theorem parting_frame (hc : p.cancelled = true) (h : Handle) (catalog : Catalog) :
    Parting h (p.frameBeats h catalog) := by
  rw [frameBeats]
  split
  · exact .empty _
  · rw [lookBeats_of_cancelled hc]
    split
    · split
      · exact .completed _ _ _
      · exact .taken _ _
    · exact .refused _ _

theorem promotes_of_cancelled (hc : p.cancelled = true) : p.promotes = false := by
  simp [promotes, hc]

theorem start_of_cancelled (hc : p.cancelled = true) : p.start.2 = p := by
  simp only [start, hc, if_true]
  split <;> rfl

theorem loop_shutdown (catalog : Catalog) (p : Player) :
    (p.shutdown catalog).2.loop = if p.loop = .idle then .idle else .ended := by
  cases hl : p.loop with
  | playing h =>
      rw [shutdown_of_playing hl]
      rfl
  | waiting =>
      rw [shutdown, settle_of_cancelled (p := p.cancel) rfl (.inl hl)]
      rfl
  | idle | ended =>
      rw [shutdown, settle_of_ne (by simp [cancel, hl])]
      simp [step, cancel, hl]

end Player

/-- How far a cancelled loop is from its end. One that never ran does not come to it. -/
def Loop.ahead : Loop → Nat
  | idle => 3
  | playing _ => 2
  | waiting => 1
  | ended => 0

theorem Loop.ahead_eq_zero_iff {loop : Loop} : loop.ahead = 0 ↔ loop = .ended := by
  cases loop <;> simp [ahead]

theorem Loop.ahead_le_two_iff {loop : Loop} : loop.ahead ≤ 2 ↔ loop ≠ .idle := by
  cases loop <;> simp [ahead]

theorem Player.ne_idle_of_running {p : Player} (hr : p.running = true) : p.loop ≠ .idle := by
  intro hl
  simp [running, hl] at hr

namespace Playback

variable {s t : Playback}

def Request.cancels (s : Playback) : Request → Bool
  | cancel | shutdown => true
  | controlEnd => s.deck.controllers ≤ 1
  | start | controlStart | set _ | add _ | insert _ _ | grab _ | next | prev | setSpeed _ | seek _
  | setStore _ _ => false

def Event.edits : Event → Bool
  | .request (.set _) | .request (.add _) | .request (.insert _ _) | .request (.grab _) => true
  | _ => false

theorem cancelled_apply_iff (s : Playback) (r : Request) :
    (r.apply s).player.cancelled = true ↔ s.player.cancelled = true ∨ r.cancels s = true := by
  cases r with
  | cancel => simp [Request.apply, Request.cancels, onPlayer, Player.cancel]
  | shutdown =>
      simp [Request.apply, Request.cancels, onLoop, Player.cancelled_shutdown]
  | controlEnd =>
      have hk : s.player.deck.controllers - 1 = 0 ↔ s.deck.controllers ≤ 1 := by
        simp only [deck]
        omega
      simp only [Request.apply, Request.cancels, onPlayer, Player.controlEnd, Player.onDeck,
        Deck.controlEnd, Deck.wake, hk, decide_eq_true_eq]
      split
      · simp [Player.cancel, *]
      · simp [*]
  | start =>
      simp only [Request.apply, Request.cancels, onPlayer, Player.start]
      split
      · simp
      · split <;> simp
  | seek position =>
      simp only [Request.apply, Request.cancels, onPlayer, Player.requestSeek]
      split <;> simp [Player.onDeck]
  | setStore name value =>
      simp only [Request.apply, Request.cancels, onPlayer, Player.setStoreProperty]
      split <;> simp
  | controlStart | set | add | insert | grab | next | prev | setSpeed =>
      simp [Request.apply, Request.cancels, onPlayer, Player.onDeck, Player.controlStart]

theorem promotes_of_cancelled (hc : s.player.cancelled = true) (e : Event) :
    s.promotes e = false := by
  cases hp : s.promotes e with
  | false => rfl
  | true =>
      have hq := (eq_promotion hp).2
      rw [Player.promotes_of_cancelled hc] at hq
      cases hq

theorem kept_run (hc : s.player.cancelled = true) (es : List Event) : Kept s (s.run es) := by
  induction es generalizing s with
  | nil => exact .refl s
  | cons e es ih =>
      have hk := kept_apply (promotes_of_cancelled hc e)
      exact hk.trans (ih (hk.cancelled hc))

section Score

variable (hc : s.player.cancelled = true)

include hc

theorem score_of_not_playing (hl : ∀ h, s.player.loop ≠ .playing h) (es : List Event) :
    s.score es = [] := by
  induction es generalizing s with
  | nil => rfl
  | cons e es ih =>
      have hp := promotes_of_cancelled hc e
      have hk := kept_apply hp
      have hb : s.beats e = [] := by
        by_cases he : e = .move .promotion
        · subst he
          simp [beats, Player.promotes_of_cancelled hc]
        · exact beats_of_not_playing hl he
      rw [score, hb, List.nil_append]
      exact ih (hk.cancelled hc) fun h hp => hl h (hk.loop h hp)

/-- While the loop is at its last step an event is nothing to it, or makes it leave. -/
theorem beats_of_cancelled {h : Handle} (hl : s.player.loop = .playing h) (e : Event) :
    s.beats e = [] ∨ Parting h (s.beats e) ∧ ∀ k, (e.apply s).player.loop ≠ .playing k := by
  have hleft (hm : .left h .cancelled ∈ s.beats e ∨ .left h .completed ∈ s.beats e ∨
      .left h .failed ∈ s.beats e) (k : Handle) : (e.apply s).player.loop ≠ .playing k := by
    intro hk
    obtain rfl : h = k := by
      have hs := (kept_apply (promotes_of_cancelled hc e)).loop k hk
      rw [hl] at hs
      exact Loop.playing.inj hs
    refine (left_mem_beats_iff (.inr (.inl hc)) hl e).1 ?_ hk
    rcases hm with hm | hm | hm <;> exact ⟨_, hm⟩
  have hparting (hp : Parting h (s.beats e)) :
      Parting h (s.beats e) ∧ ∀ k, (e.apply s).player.loop ≠ .playing k := by
    refine ⟨hp, hleft ?_⟩
    generalize s.beats e = score at hp
    cases hp <;> simp
  cases e with
  | change c => exact .inl rfl
  | move m =>
      cases m with
      | frame =>
          refine .inr (hparting ?_)
          simp only [beats, hl]
          exact Player.parting_frame hc h s.catalog
      | look =>
          refine .inr (hparting ?_)
          simp only [beats, hl, Player.lookBeats_of_cancelled hc]
          exact .looked
      | promotion =>
          left
          simp [beats, Player.promotes_of_cancelled hc]
  | request r =>
      by_cases hd : r = .shutdown
      · subst hd
        refine .inr (hparting ?_)
        simp only [beats, hl]
        exact Player.parting_frame rfl h s.catalog
      · left
        cases r <;> first | rfl | exact absurd rfl hd

theorem score_of_cancelled (es : List Event) :
    s.score es = [] ∨ ∃ h, s.player.loop = .playing h ∧ Parting h (s.score es) := by
  by_cases hl : ∃ h, s.player.loop = .playing h
  · obtain ⟨h, hl⟩ := hl
    induction es generalizing s with
    | nil => exact .inl rfl
    | cons e es ih =>
        have hk := kept_apply (promotes_of_cancelled hc e)
        rw [score]
        rcases beats_of_cancelled hc hl e with hb | ⟨hb, hn⟩
        · rw [hb, List.nil_append]
          by_cases hp : (e.apply s).player.loop = .playing h
          · rcases ih (hk.cancelled hc) hp with hs | ⟨k, hp', hs⟩
            · exact .inl hs
            · rw [hp] at hp'
              cases hp'
              exact .inr ⟨h, hl, hs⟩
          · left
            refine score_of_not_playing (hk.cancelled hc) (fun k hp' => hp ?_) es
            rw [hp', ← hk.loop k hp', hl]
        · rw [score_of_not_playing (hk.cancelled hc) hn, List.append_nil]
          exact .inr ⟨h, hl, hb⟩
  · exact .inl (score_of_not_playing hc (not_exists.1 hl) es)

end Score

section Ahead

variable (hc : s.player.cancelled = true)

include hc

theorem ahead_leaving {m : Move} (hm : m ≠ .promotion) :
    (m.apply s).player.loop.ahead ≤ s.player.loop.ahead ∧
      (s.player.loop ≠ .idle → (m.apply s).player.loop.ahead ≤ 1) := by
  cases hl : s.player.loop with
  | playing h =>
      have hle (loop : Loop) (hs : loop = .waiting ∨ loop = .ended) :
          loop.ahead ≤ (Loop.playing h).ahead ∧ (Loop.playing h ≠ .idle → loop.ahead ≤ 1) := by
        rcases hs with rfl | rfl <;> simp [Loop.ahead]
      cases m with
      | frame =>
          obtain ⟨_, _, _, _, _, _, loop, he, -, hstop⟩ := s.player.playFrame_eq h s.catalog
          simp only [Move.apply, hl, onLoop, he]
          exact hle loop (hstop hc)
      | look =>
          obtain ⟨loop, he, -, hstop⟩ := s.player.betweenFrames_eq
          simp only [Move.apply, hl, onPlayer, he]
          exact hle loop (hstop hc)
      | promotion => exact absurd rfl hm
  | idle | waiting | ended =>
      have he : m.apply s = s := by
        cases m with
        | frame | look => simp only [Move.apply, hl]
        | promotion => exact absurd rfl hm
      rw [he, hl]
      simp [Loop.ahead]

theorem ahead_promotion :
    (Move.promotion.apply s).player.loop.ahead ≤ s.player.loop.ahead ∧
      (s.player.loop.ahead ≤ 1 → (Move.promotion.apply s).player.loop = .ended) := by
  by_cases hl : s.player.loop = .waiting
  · rw [Move.apply, onLoop, Player.settle_of_cancelled hc (.inl hl)]
    exact ⟨Nat.zero_le _, fun _ => rfl⟩
  · rw [Move.apply, onLoop, Player.settle_of_ne hl]
    refine ⟨Nat.le_refl _, fun ha => ?_⟩
    cases hp : s.player.loop with
    | ended => rfl
    | waiting => exact absurd hp hl
    | idle | playing => simp [hp, Loop.ahead] at ha

theorem ahead_request (r : Request) : (r.apply s).player.loop.ahead ≤ s.player.loop.ahead := by
  by_cases hs : r = .start
  · subst hs
    simp [Request.apply, onPlayer, Player.start_of_cancelled hc]
  · by_cases hd : r = .shutdown
    · subst hd
      simp only [Request.apply, onLoop, Player.loop_shutdown]
      split
      · rename_i hl
        rw [hl]
      · exact Nat.zero_le _
    · rw [(undisturbed_request hs hd).loop]

theorem ahead_apply (e : Event) : (e.apply s).player.loop.ahead ≤ s.player.loop.ahead := by
  cases e with
  | change c => exact Nat.le_refl _
  | request r => exact ahead_request hc r
  | move m =>
      by_cases hm : m = .promotion
      · subst hm
        exact (ahead_promotion hc).1
      · exact (ahead_leaving hc hm).1

theorem ahead_run (es : List Event) : (s.run es).player.loop.ahead ≤ s.player.loop.ahead := by
  induction es generalizing s with
  | nil => exact Nat.le_refl _
  | cons e es ih =>
      have hk := kept_apply (promotes_of_cancelled hc e)
      exact Nat.le_trans (ih (hk.cancelled hc)) (ahead_apply hc e)

end Ahead

theorem score_of_cancels {r : Request} (hr : r.cancels s = true) (es : List Event) :
    s.score (.request r :: es) = [] ∨ ∃ h, Parting h (s.score (.request r :: es)) := by
  have hc : (r.apply s).player.cancelled = true := (cancelled_apply_iff s r).2 (.inr hr)
  rw [score]
  by_cases hd : r = .shutdown
  · subst hd
    have hn (h : Handle) : (Request.shutdown.apply s).player.loop ≠ .playing h := by
      rw [Request.apply, onLoop, Player.loop_shutdown]
      split <;> exact Loop.noConfusion
    rw [Event.apply, score_of_not_playing hc hn, List.append_nil]
    by_cases hl : ∃ h, s.player.loop = .playing h
    · obtain ⟨h, hl⟩ := hl
      refine .inr ⟨h, ?_⟩
      simp only [beats, hl]
      exact Player.parting_frame rfl h s.catalog
    · exact .inl (beats_of_not_playing (not_exists.1 hl) Event.noConfusion)
  · have hb : s.beats (.request r) = [] := by
      cases r <;> first | rfl | exact absurd rfl hd
    rw [hb, List.nil_append]
    rcases score_of_cancelled hc es with hs | ⟨h, -, hp⟩
    · exact .inl hs
    · exact .inr ⟨h, hp⟩

/-- Without a promotion only a client changes what is played later and what was played. -/
theorem timeline_apply {e : Event} (hp : s.promotes e = false) (he : e.edits = false) :
    (e.apply s).deck.playlist = s.deck.playlist ∧ (e.apply s).deck.history = s.deck.history := by
  cases e with
  | change c => exact ⟨rfl, rfl⟩
  | move m =>
      obtain ⟨_, _, _, _, _, _, _, _, hm, -⟩ := apply_quiet hp
      rw [Event.apply, hm]
      exact ⟨rfl, rfl⟩
  | request r =>
      cases hm : r.meansDeck with
      | false =>
          obtain ⟨_, _, hd⟩ := deck_aside (s := s) hm
          rw [Event.apply, hd]
          exact ⟨rfl, rfl⟩
      | true =>
          cases r with
          | shutdown =>
              rcases Player.deck_shutdown s.catalog s.player with hd | ⟨h, -, hd⟩
              · simp only [Event.apply, Request.apply, onLoop, deck, hd]
                exact ⟨rfl, rfl⟩
              · obtain ⟨_, _, _, _, _, _, _, hf, -⟩ := s.player.cancel.playFrame_eq h s.catalog
                simp only [Event.apply, Request.apply, onLoop, deck, hd, hf]
                exact ⟨rfl, rfl⟩
          | next =>
              simp only [Event.apply, Request.apply, onPlayer, Player.onDeck, deck, Deck.next]
              split <;> exact ⟨rfl, rfl⟩
          | prev =>
              simp only [Event.apply, Request.apply, onPlayer, Player.onDeck, deck, Deck.prev]
              split <;> exact ⟨rfl, rfl⟩
          | setSpeed speed =>
              simp only [Event.apply, Request.apply, onPlayer, Player.onDeck, deck, Deck.setSpeed]
              split <;> exact ⟨rfl, rfl⟩
          | seek position =>
              simp only [Event.apply, deck_seek]
              cases s.deck.current <;> exact ⟨rfl, rfl⟩
          | set | add | insert | grab => cases he
          | start | cancel | controlStart | controlEnd | setStore => cases hm

theorem Reachable.accounted (hs : Reachable s) : s.player.Accounted := by
  induction hs with
  | new catalog settings stores => exact .inr (.inr rfl)
  | event _ e ih => exact accounted_apply ih e

/-- From one state to another that a cancelled loop comes to: what it still did, and what it will
never do. -/
structure Farewell (s t : Playback) : Prop where
  inactive : t.player.isActive = false
  told : ∀ j, ∃ more, t.player.calls j = s.player.calls j ++ more ∧ Brief more
  unpromoted : ∀ e, t.promotes e = false
  current : t.deck.current = s.deck.current
  timeline : ∀ e : Event, e.edits = false →
    (e.apply t).deck.playlist = t.deck.playlist ∧ (e.apply t).deck.history = t.deck.history

theorem farewell (hs : Reachable s) {r : Request} (hr : r.cancels s = true) (es : List Event) :
    Farewell s (s.run (.request r :: es)) := by
  have hc : (r.apply s).player.cancelled = true := (cancelled_apply_iff s r).2 (.inr hr)
  have hk := kept_run hc es
  have hend : (s.run (.request r :: es)).player.cancelled = true := hk.cancelled hc
  have hno (e : Event) := promotes_of_cancelled hend e
  refine ⟨by rw [Player.isActive, hend]; rfl, fun j => ⟨_, (plays_run hs.accounted _).calls j, ?_⟩,
    hno, hk.current.trans (kept_request s r).current, fun e => timeline_apply (hno e)⟩
  rcases score_of_cancels hr es with he | ⟨h, hp⟩
  · rw [he]
    exact brief_nil
  · exact hp.brief j

/-- The loop is given the time to leave: a shutdown gives it, one that waits has to wake, and one
that is at a frame has to come to the end of it or to the requests before. -/
def Leaves (s : Playback) (r : Request) (es : List Event) : Prop :=
  r = .shutdown ∨ (s.player.loop = .waiting ∧ .move .promotion ∈ es) ∨
    ∃ m, m ≠ .promotion ∧ [.move m, .move .promotion].Sublist es

theorem ended_of_promotion (hc : s.player.cancelled = true) (hl : s.player.loop.ahead ≤ 1)
    {es : List Event} (hm : .move .promotion ∈ es) : (s.run es).player.loop = .ended := by
  obtain ⟨before, after, rfl⟩ := List.append_of_mem hm
  have hb := (kept_run hc before).cancelled hc
  have he := (ahead_promotion hb).2 (Nat.le_trans (ahead_run hc before) hl)
  have hk := kept_apply (promotes_of_cancelled hb (.move .promotion))
  rw [run_append, run_cons, ← Loop.ahead_eq_zero_iff, ← Nat.le_zero]
  exact Nat.le_trans (ahead_run (hk.cancelled hb) after) (Loop.ahead_eq_zero_iff.2 he).le

theorem ended_of_leaves (hl : s.player.running = true) {r : Request} (hr : r.cancels s = true)
    {es : List Event} (hes : s.Leaves r es) : (s.run (.request r :: es)).player.loop = .ended := by
  have hc : (r.apply s).player.cancelled = true := (cancelled_apply_iff s r).2 (.inr hr)
  have hn : r ≠ .start := by
    rintro rfl
    cases hr
  by_cases hd : r = .shutdown
  · subst hd
    have he : (Request.shutdown.apply s).player.loop = .ended := by
      simp only [Request.apply, onLoop, Player.loop_shutdown,
        if_neg (Player.ne_idle_of_running hl)]
    rw [run_cons, ← Loop.ahead_eq_zero_iff, ← Nat.le_zero]
    exact Nat.le_trans (ahead_run hc es) (Loop.ahead_eq_zero_iff.2 he).le
  · have hloop := (undisturbed_request (s := s) hn hd).loop
    rw [run_cons, Event.apply]
    rcases hes with he | ⟨hw, hm⟩ | ⟨m, hm, hsub⟩
    · exact absurd he hd
    · refine ended_of_promotion hc ?_ hm
      rw [hloop, hw]
      exact Nat.le_refl _
    · obtain ⟨front, back, rfl, hfront, hback⟩ := List.cons_sublist_iff.1 hsub
      obtain ⟨before, between, rfl⟩ := List.append_of_mem hfront
      have hidle : ((r.apply s).run before).player.loop ≠ .idle := by
        refine Loop.ahead_le_two_iff.1 (Nat.le_trans (ahead_run hc before) ?_)
        rw [hloop]
        exact Loop.ahead_le_two_iff.2 (Player.ne_idle_of_running hl)
      have hb := (kept_run hc before).cancelled hc
      have hk := kept_apply (promotes_of_cancelled hb (.move m))
      rw [List.append_assoc, run_append, List.cons_append, run_cons]
      exact ended_of_promotion (hk.cancelled hb) ((ahead_leaving hb hm).2 hidle)
        (List.mem_append_right _ (List.singleton_sublist.1 hback))

/-- Nothing a client does brings a cancelled loop back, and it ends with the step it is in. -/
theorem cancellation_final (hs : Reachable s) (hl : s.player.running = true) {r : Request}
    (hr : r.cancels s = true) (es : List Event) :
    Farewell s (s.run (.request r :: es)) ∧
      (s.Leaves r es → (s.run (.request r :: es)).player.loop = .ended) :=
  ⟨farewell hs hr es, ended_of_leaves hl hr⟩

theorem cancellation_final_seeking :
    let s := second.run [.request (.add 2), .request .controlStart, .request (.seek 2),
      .request .next]
    let es : List Event := [.request .start, .move .frame, .request (.set 0), .move .promotion]
    Reachable s ∧ s.player.running = true ∧ Request.controlEnd.cancels s = true ∧
      s.Leaves .controlEnd es ∧ Farewell s (s.run (.request .controlEnd :: es)) ∧
      (s.run (.request .controlEnd :: es)).player.loop = .ended := by
  intro s es
  have hs : Reachable s := ((Reachable.new _ _ _).run _).run _
  have hes : s.Leaves .controlEnd es :=
    .inr (.inr ⟨.frame, nofun, .cons _ (.cons_cons _ (.cons _ (.cons_cons _ .slnil)))⟩)
  obtain ⟨hf, he⟩ := cancellation_final (s := s) hs rfl (r := .controlEnd) rfl es
  exact ⟨hs, rfl, rfl, hes, hf, he hes⟩

end Playback

end Playout
