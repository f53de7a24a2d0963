import Playout.Player.Loop

namespace Playout

open Media

structure Playback where
  catalog : Catalog := {}
  player : Player := {}

namespace Playback

def onPlayer (f : Player → Player) (s : Playback) : Playback := { s with player := f s.player }

def onLoop (f : Catalog → Player → Catalog × Player) (s : Playback) : Playback :=
  ⟨(f s.catalog s.player).1, (f s.catalog s.player).2⟩

abbrev deck (s : Playback) : Deck := s.player.deck

abbrev capacity (s : Playback) : Nat := s.player.settings.historyCapacity

inductive Request where
  | start
  | cancel
  | shutdown
  | controlStart
  | controlEnd
  | set (h : Handle)
  | add (h : Handle)
  | insert (index : Int) (h : Handle)
  | grab (index : Int)
  | next
  | prev
  | setSpeed (speed : Int)
  | seek (position : Int)
  | setStore (name value : String)

def Request.apply (s : Playback) : Request → Playback
  | start => s.onPlayer fun p => p.start.2
  | cancel => s.onPlayer Player.cancel
  | shutdown => s.onLoop Player.shutdown
  | controlStart => s.onPlayer Player.controlStart
  | controlEnd => s.onPlayer Player.controlEnd
  | set h => s.onPlayer (Player.onDeck (Deck.set h))
  | add h => s.onPlayer (Player.onDeck (Deck.add h))
  | insert index h => s.onPlayer (Player.onDeck (Deck.insert index h))
  | grab index => s.onPlayer (Player.onDeck fun d => (d.grab index).2)
  | next => s.onPlayer (Player.onDeck Deck.next)
  | prev => s.onPlayer (Player.onDeck Deck.prev)
  | setSpeed speed => s.onPlayer (Player.onDeck (Deck.setSpeed speed))
  | seek position => s.onPlayer (Player.requestSeek position s.catalog)
  | setStore name value => s.onPlayer fun p => (p.setStoreProperty name value).2

inductive ItemChange where
  | opened (uri : String) (kind : Kind)
  | generated (frames : Int)
  | sought (h : Handle) (target : Int)
  | moved (h : Handle) (distance : Int)
  | set (h : Handle) (name value : String)

def ItemChange.apply (catalog : Catalog) : ItemChange → Catalog
  | opened uri kind => (catalog.add (.fresh uri kind)).2
  | generated frames => (catalog.add (.testPattern frames)).2
  | sought h target => catalog.modify h (Item.seek target)
  | moved h distance => catalog.modify h (Item.seekBy distance)
  | set h name value =>
    match (catalog.get h).set name value with
    | .ok item => catalog.put h item
    | .error _ => catalog

inductive Move where
  | frame
  | look
  | promotion
  deriving DecidableEq

def Move.apply (s : Playback) : Move → Playback
  | frame =>
    match s.player.loop with
    | .playing h => s.onLoop (Player.playFrame h)
    | _ => s
  | look =>
    match s.player.loop with
    | .playing _ => s.onPlayer Player.betweenFrames
    | _ => s
  | promotion => s.onLoop Player.settle

inductive Event where
  | request (r : Request)
  | change (c : ItemChange)
  | move (m : Move)

def Event.apply (s : Playback) : Event → Playback
  | request r => r.apply s
  | change c => { s with catalog := c.apply s.catalog }
  | move m => m.apply s

def run (s : Playback) (es : List Event) : Playback := es.foldl Event.apply s

@[simp]
theorem run_nil (s : Playback) : s.run [] = s := rfl

@[simp]
theorem run_cons (s : Playback) (e : Event) (es : List Event) :
    s.run (e :: es) = (e.apply s).run es := rfl

theorem run_append (s : Playback) (es fs : List Event) : s.run (es ++ fs) = (s.run es).run fs :=
  List.foldl_append

theorem onLoop_step {s : Playback} {h : Handle} (hp : s.player.loop = .playing h) :
    s.onLoop Player.step = Move.promotion.apply (Move.frame.apply s) := by
  simp [Move.apply, onLoop, Player.step, hp]

theorem onLoop_steps_succ (n : Nat) (s : Playback) :
    s.onLoop (Player.steps (n + 1)) = (s.onLoop Player.step).onLoop (Player.steps n) := rfl

end Playback

def newest (capacity : Nat) (l : List Handle) : List Handle := l.drop (l.length - capacity)

namespace Deck

theorem retire_none {d : Deck} (hc : d.current = none) : d.retire = d := by
  simp [retire, hc]

theorem retire_ahead {d : Deck} {h : Handle} (hc : d.current = some h)
    (hp : d.prevPending = false) :
    d.retire.playlist = d.playlist ∧ d.retire.history = d.history ++ [h] := by
  simp [retire, hc, hp]

theorem retire_back {d : Deck} {h : Handle} (hc : d.current = some h) (hp : d.prevPending = true) :
    d.retire.playlist = d.history.getLast?.toList ++ h :: d.playlist ∧
      d.retire.history = d.history.dropLast := by
  simp [retire, hc, hp]

/-- Retiring touches the timeline only. -/
theorem retire_eq (d : Deck) :
    d.retire =
      { d with current := none, playlist := d.retire.playlist, history := d.retire.history } := by
  unfold retire
  split
  · rename_i hc
    rw [← hc]
  · split <;> rfl

/-- A promotion makes the first of the playlist current, if there is one once the current item was
retired. -/
theorem promote_eq (capacity : Nat) (d : Deck) :
    d.promote capacity =
      (d.retire.playlist.head?,
        { d with
          current := d.retire.playlist.head?
          playlist := d.retire.playlist.tail
          history := newest capacity d.retire.history
          observed := d.retire.playlist.head?.map fun _ => 0
          nextPending := false
          prevPending := false }.bump.wake) := by
  rw [promote, retire_eq]
  cases hl : d.retire.playlist <;> simp [evict, answered, newest]

theorem fst_promote (capacity : Nat) (d : Deck) :
    (d.promote capacity).1 = (d.promote capacity).2.current := by
  rw [promote_eq]
  rfl

theorem promote_cons {d : Deck} {h : Handle} {rest : List Handle}
    (hp : d.prevPending = false) (hl : d.playlist = h :: rest) (capacity : Nat) :
    d.promote capacity =
      (some h,
        { d with
          current := some h
          playlist := rest
          history := newest capacity (d.history ++ d.current.toList)
          observed := some 0
          nextPending := false
          prevPending := false }.bump.wake) := by
  cases hc : d.current with
  | none => simp [promote_eq, retire_none hc, hl]
  | some outgoing => simp [promote_eq, (retire_ahead hc hp).1, (retire_ahead hc hp).2, hl]

theorem deck_advance (item : Item) (d : Deck) :
    (d.advance item).2.1 = { d with seekTarget := none } := by
  unfold advance
  split
  · rfl
  · rename_i ht
    dsimp only
    rw [← ht]
    split <;> rfl

end Deck

namespace Player

theorem betweenFrames_quiet {p : Player} (ha : p.cancelled = false)
    (hn : p.deck.nextPending = false) (hp : p.deck.prevPending = false) : p.betweenFrames = p := by
  simp [betweenFrames, ha, hn, hp]

def promotes (p : Player) : Bool := p.loop = .waiting && !p.cancelled && p.deck.hasWork

theorem loop_of_promotes {p : Player} (hp : p.promotes = true) : p.loop = .waiting := by
  simp only [promotes, Bool.and_eq_true, decide_eq_true_eq] at hp
  exact hp.1.1

/-- Where a loop may be that promotes nothing: it stays, or waits, or ends when it was cancelled. -/
def Leads (p : Player) (loop : Loop) : Prop :=
  loop = p.loop ∨ loop = .waiting ∨ loop = .ended ∧ p.cancelled = true

theorem betweenFrames_eq (p : Player) :
    ∃ loop, p.betweenFrames = { p with loop } ∧ p.Leads loop ∧
      (p.cancelled = true → loop = .waiting ∨ loop = .ended) := by
  unfold betweenFrames
  split
  · rename_i hc
    exact ⟨.ended, rfl, .inr (.inr ⟨rfl, hc⟩), fun _ => .inr rfl⟩
  · rename_i hc
    split
    · exact ⟨.waiting, rfl, .inr (.inl rfl), fun _ => .inl rfl⟩
    · exact ⟨p.loop, rfl, .inl rfl, fun h => absurd h hc⟩

@[simp]
theorem deck_betweenFrames (p : Player) : p.betweenFrames.deck = p.deck := by
  obtain ⟨loop, he, -⟩ := p.betweenFrames_eq
  rw [he]

section Frame

variable {h : Handle} {catalog : Catalog} {p : Player} {frame : Frame}

theorem playFrame_empty (hf : (catalog.get h).fetch? = none) :
    p.playFrame h catalog = (catalog, { p.completeStores with loop := .waiting }) := by
  simp only [playFrame, hf]

theorem playFrame_refused (hf : (catalog.get h).fetch? = some frame)
    (hd : (p.deliver frame).1 = false) :
    p.playFrame h catalog =
      (catalog, { (p.deliver frame).2 with storesReady := false, loop := .waiting }) := by
  generalize ha : p.deliver frame = answer at hd ⊢
  obtain ⟨ok, q⟩ := answer
  cases hd
  simp only [playFrame, hf, ha]

theorem playFrame_taken (hf : (catalog.get h).fetch? = some frame)
    (hd : (p.deliver frame).1 = true) :
    let a := p.deck.advance (catalog.get h)
    let q : Player :=
      { (p.deliver frame).2 with deck := { a.2.1 with observed := some a.1.position }.wake }
    p.playFrame h catalog =
      (catalog.put h a.1,
        if a.2.2 then { q.completeStores with loop := .waiting } else q.betweenFrames) := by
  have hdeck : (p.deliver frame).2.deck = p.deck := rfl
  generalize ha : p.deliver frame = answer at hd hdeck ⊢
  obtain ⟨ok, q⟩ := answer
  cases hd
  simp only [playFrame, hf, ha, ← hdeck]

end Frame

def takes (h : Handle) (catalog : Catalog) (p : Player) : Bool :=
  (catalog.get h).fetch?.any fun frame => (p.deliver frame).1

theorem playFrame_takes (h : Handle) (catalog : Catalog) (p : Player) :
    let a := p.deck.advance (catalog.get h)
    (p.playFrame h catalog).1 = (if p.takes h catalog then catalog.put h a.1 else catalog) ∧
      (p.playFrame h catalog).2.deck =
        if p.takes h catalog then { a.2.1 with observed := some a.1.position }.wake
        else p.deck := by
  cases hf : (catalog.get h).fetch? with
  | none =>
      rw [playFrame_empty hf, takes, hf]
      exact ⟨rfl, rfl⟩
  | some frame =>
      have ht : p.takes h catalog = (p.deliver frame).1 := by simp [takes, hf]
      rw [ht]
      cases hd : (p.deliver frame).1 with
      | false =>
          rw [playFrame_refused hf hd]
          exact ⟨rfl, rfl⟩
      | true =>
          rw [playFrame_taken hf hd]
          refine ⟨rfl, ?_⟩
          dsimp only
          split
          · rfl
          · exact deck_betweenFrames _

theorem playFrame_eq (h : Handle) (catalog : Catalog) (p : Player) :
    ∃ seekTarget observed wakeups stores journal storesReady loop,
      (p.playFrame h catalog).2 =
          { p with
            deck := { p.deck with seekTarget, observed, wakeups }
            stores, journal, storesReady, loop } ∧
        p.Leads loop ∧ (p.cancelled = true → loop = .waiting ∨ loop = .ended) := by
  have hw : p.Leads .waiting ∧
      (p.cancelled = true → Loop.waiting = .waiting ∨ Loop.waiting = .ended) :=
    ⟨.inr (.inl rfl), fun _ => .inl rfl⟩
  cases hf : (catalog.get h).fetch? with
  | none =>
      rw [playFrame_empty hf]
      exact ⟨_, _, _, _, _, _, _, rfl, hw⟩
  | some frame =>
      cases hd : (p.deliver frame).1 with
      | false =>
          rw [playFrame_refused hf hd]
          exact ⟨_, _, _, _, _, _, _, rfl, hw⟩
      | true =>
          rw [playFrame_taken hf hd]
          dsimp only
          rw [Deck.deck_advance]
          split
          · exact ⟨_, _, _, _, _, _, _, rfl, hw⟩
          · obtain ⟨loop, he, hl⟩ := betweenFrames_eq _
            rw [he]
            exact ⟨_, _, _, _, _, _, loop, rfl, hl⟩

theorem settle_of_ne {p : Player} (h : p.loop ≠ .waiting) (catalog : Catalog) :
    p.settle catalog = (catalog, p) := by
  rw [settle, if_pos h]

def readied (p : Player) : Player := if p.storesReady then p else p.initStores

theorem readied_congr {α : Type} (f : Player → α) {p : Player} (h : f p.initStores = f p) :
    f p.readied = f p := by
  unfold readied
  split
  · rfl
  · exact h

@[simp]
theorem deck_readied (p : Player) : p.readied.deck = p.deck := readied_congr Player.deck rfl

@[simp]
theorem loop_readied (p : Player) : p.readied.loop = p.loop := readied_congr Player.loop rfl

@[simp]
theorem cancelled_readied (p : Player) : p.readied.cancelled = p.cancelled :=
  readied_congr Player.cancelled rfl

@[simp]
theorem settings_readied (p : Player) : p.readied.settings = p.settings :=
  readied_congr Player.settings rfl

theorem settle_of_promotes {p : Player} (hp : p.promotes = true) (catalog : Catalog) :
    p.settle catalog =
      match p.deck.promote p.settings.historyCapacity with
      | (none, deck) => (catalog, { p with deck })
      | (some h, deck) =>
        (catalog.modify h (Item.seek 0), ({ p with deck, loop := .playing h } : Player).readied) := by
  simp only [promotes, Bool.and_eq_true, decide_eq_true_eq, Bool.not_eq_true'] at hp
  obtain ⟨⟨hw, hc⟩, hk⟩ := hp
  simp only [settle, hw, hc, hk, ne_eq, not_true_eq_false, if_false, Bool.false_eq_true,
    Bool.not_true]
  rfl

theorem settle_promoted {p : Player} {h : Handle} {deck : Deck} (hp : p.promotes = true)
    (hd : p.deck.promote p.settings.historyCapacity = (some h, deck)) (catalog : Catalog) :
    p.settle catalog =
      (catalog.modify h (Item.seek 0), ({ p with deck, loop := .playing h } : Player).readied) := by
  rw [settle_of_promotes hp, hd]

theorem settle_of_cancelled {p : Player} (hc : p.cancelled = true)
    (hl : p.loop = .waiting ∨ p.loop = .ended) (catalog : Catalog) :
    p.settle catalog = (catalog, { p with loop := .ended }) := by
  rcases hl with hl | hl
  · rw [settle, if_neg (by simp [hl]), if_pos hc]
  · rw [settle_of_ne (by simp [hl]), ← hl]

theorem settle_quiet {p : Player} (hp : p.promotes = false) (catalog : Catalog) :
    ∃ loop, p.settle catalog = (catalog, { p with loop }) ∧ p.Leads loop := by
  by_cases hw : p.loop = .waiting
  · by_cases hc : p.cancelled = true
    · exact ⟨.ended, settle_of_cancelled hc (.inl hw) catalog, .inr (.inr ⟨rfl, hc⟩)⟩
    · have hk : p.deck.hasWork = false := by simpa [promotes, hw, hc] using hp
      refine ⟨p.loop, ?_, .inl rfl⟩
      rw [settle, if_neg (by simp [hw]), if_neg hc, if_pos (by simp [hk])]
  · exact ⟨p.loop, settle_of_ne hw catalog, .inl rfl⟩

theorem deck_settle (catalog : Catalog) (p : Player) :
    (p.settle catalog).2.deck =
      if p.promotes then (p.deck.promote p.settings.historyCapacity).2 else p.deck := by
  cases hp : p.promotes with
  | false =>
      obtain ⟨loop, he, -⟩ := settle_quiet hp catalog
      rw [he]
      rfl
  | true =>
      rw [settle_of_promotes hp, if_pos rfl]
      split
      · rename_i hd
        rw [hd]
      · rename_i hd
        rw [hd]
        exact deck_readied _

theorem shutdown_of_playing {p : Player} {h : Handle} (hl : p.loop = .playing h)
    (catalog : Catalog) :
    p.shutdown catalog =
      ((p.cancel.playFrame h catalog).1,
        { (p.cancel.playFrame h catalog).2 with loop := .ended, held := false }) := by
  have hset : p.cancel.settle catalog = (catalog, p.cancel) :=
    settle_of_ne (by simp [cancel, hl]) catalog
  have hend : (p.cancel.playFrame h catalog).2.settle (p.cancel.playFrame h catalog).1 =
      ((p.cancel.playFrame h catalog).1, { (p.cancel.playFrame h catalog).2 with loop := .ended }) := by
    obtain ⟨_, _, _, _, _, _, loop, he, -, hstop⟩ := p.cancel.playFrame_eq h catalog
    rw [he]
    exact settle_of_cancelled rfl (hstop rfl) _
  have hloop : p.cancel.loop = .playing h := hl
  simp only [shutdown, hset, step, hloop, hend]

theorem shutdown_of_not_playing {p : Player} (hl : ∀ h, p.loop ≠ .playing h) (catalog : Catalog) :
    ∃ loop, p.shutdown catalog = (catalog, { p.cancel with loop, held := false }) ∧
      ∀ h, loop ≠ .playing h := by
  cases hp : p.loop with
  | playing h => exact absurd hp (hl h)
  | waiting =>
      refine ⟨.ended, ?_, nofun⟩
      rw [shutdown, settle_of_cancelled (p := p.cancel) rfl (.inl hp)]
      rfl
  | idle | ended =>
      refine ⟨p.loop, ?_, hl⟩
      rw [shutdown, settle_of_ne (by simp [cancel, hp])]
      simp only [step, cancel, hp]

theorem cancelled_shutdown (catalog : Catalog) (p : Player) :
    (p.shutdown catalog).2.cancelled = true := by
  by_cases hl : ∃ h, p.loop = .playing h
  · obtain ⟨h, hl⟩ := hl
    obtain ⟨_, _, _, _, _, _, _, he, -⟩ := p.cancel.playFrame_eq h catalog
    rw [shutdown_of_playing hl, he]
    rfl
  · obtain ⟨loop, he, -⟩ := shutdown_of_not_playing (not_exists.1 hl) catalog
    rw [he]
    rfl

theorem deck_shutdown (catalog : Catalog) (p : Player) :
    (p.shutdown catalog).2.deck = p.deck.wake ∨
      ∃ h, p.loop = .playing h ∧
        (p.shutdown catalog).2.deck = (p.cancel.playFrame h catalog).2.deck := by
  by_cases hl : ∃ h, p.loop = .playing h
  · obtain ⟨h, hl⟩ := hl
    rw [shutdown_of_playing hl]
    exact .inr ⟨h, hl, rfl⟩
  · obtain ⟨loop, he, -⟩ := shutdown_of_not_playing (not_exists.1 hl) catalog
    rw [he]
    exact .inl rfl

end Player

namespace Playback

def Request.meansDeck : Request → Bool
  | set _ | add _ | insert _ _ | grab _ | next | prev | setSpeed _ | seek _ | shutdown => true
  | start | cancel | controlStart | controlEnd | setStore _ _ => false

variable {s : Playback}

theorem deck_aside {r : Request} (hr : r.meansDeck = false) :
    ∃ wakeups controllers, (r.apply s).deck = { s.deck with wakeups, controllers } := by
  cases r with
  | start =>
      simp only [deck, Request.apply, onPlayer, Player.start]
      split
      · exact ⟨_, _, rfl⟩
      · split <;> exact ⟨_, _, rfl⟩
  | cancel | controlStart => exact ⟨_, _, rfl⟩
  | controlEnd =>
      simp only [deck, Request.apply, onPlayer, Player.controlEnd]
      split <;> exact ⟨_, _, rfl⟩
  | setStore name value =>
      simp only [deck, Request.apply, onPlayer, Player.setStoreProperty]
      split <;> exact ⟨_, _, rfl⟩
  | set | add | insert | grab | next | prev | setSpeed | seek | shutdown => cases hr

theorem deck_seek (position : Int) :
    (Request.apply s (.seek position)).deck =
      s.deck.current.elim s.deck fun h => s.deck.seek position (s.catalog.get h).frames := by
  simp only [deck, Request.apply, onPlayer, Player.requestSeek]
  cases s.player.deck.current <;> rfl

end Playback

end Playout
