import Playout.Proofs.Player.Programme

namespace Playout

open Media Programme

theorem newest_append (capacity : Nat) (l m : List Handle) :
    newest capacity (newest capacity l ++ m) = newest capacity (l ++ m) := by
  by_cases hl : l.length ≤ capacity
  · simp [newest, hl]
  · have he : (l ++ m).length - capacity = (l.length - capacity) + m.length := by
      simp only [List.length_append]; omega
    have hn : newest capacity l ++ m = (l ++ m).drop (l.length - capacity) := by
      rw [newest, List.drop_append_of_le_length (Nat.sub_le _ _)]
    rw [hn, newest, newest, List.drop_drop, he, List.length_drop]
    congr 1
    omega

namespace Playback

/-- The player is at the frame of a cursor, and nothing else is asked of it. -/
structure Showing (items : Handle → Item) (speed : Nat) (s : Playback) (c : Cursor) : Prop where
  inside : c.Inside items speed
  loop : s.player.loop = .playing c.item
  active : s.player.cancelled = false
  accepts : s.player.AllAccept
  current : s.deck.current = some c.item
  playlist : s.deck.playlist = c.rest
  rate : s.deck.speed = speed
  target : s.deck.seekTarget = none
  next : s.deck.nextPending = false
  prev : s.deck.prevPending = false
  position : (s.catalog.get c.item).position = c.index * speed
  frames : ∀ h, (s.catalog.get h).frames = (items h).frames
  uri : ∀ h, (s.catalog.get h).uri = (items h).uri

structure Ready (items : Handle → Item) (speed : Nat) (s : Playback) (h : Handle)
    (rest : List Handle) : Prop where
  inside : Cursor.Inside items speed ⟨h, 0, rest⟩
  loop : s.player.loop = .waiting
  active : s.player.cancelled = false
  accepts : s.player.AllAccept
  playlist : s.deck.playlist = h :: rest
  rate : s.deck.speed = speed
  target : s.deck.seekTarget = none
  prev : s.deck.prevPending = false
  frames : ∀ k, (s.catalog.get k).frames = (items k).frames
  uri : ∀ k, (s.catalog.get k).uri = (items k).uri

variable {items : Handle → Item} {speed : Nat} {s : Playback} {c : Cursor}

theorem Ready.promotes {h : Handle} {rest : List Handle} (hr : Ready items speed s h rest) :
    s.player.promotes = true := by
  have hk : s.deck.hasWork = true := by simp [Deck.hasWork, hr.playlist]
  rw [Player.promotes, hr.loop, hr.active, hk]
  rfl

theorem Ready.promote {h : Handle} {rest : List Handle} (hr : Ready items speed s h rest)
    (hs : 1 ≤ speed) :
    Showing items speed (Move.promotion.apply s) ⟨h, 0, rest⟩ ∧
      (Move.promotion.apply s).deck.history =
        newest s.capacity (s.deck.history ++ s.deck.current.toList) ∧
      (Move.promotion.apply s).player.settings = s.player.settings ∧
      (Move.promotion.apply s).player.stores.length = s.player.stores.length ∧
      ∀ j, (Move.promotion.apply s).player.log j = s.player.log j := by
  have hsize : h < s.catalog.items.size := by
    have hp := (lt_count_iff hs (items h) 0).1 hr.inside.index
    refine Catalog.lt_size_of_frames_pos ?_
    rw [hr.frames]
    omega
  have hsettle := Player.settle_promoted hr.promotes
    (Deck.promote_cons hr.prev hr.playlist s.capacity) s.catalog
  simp only [Move.apply, onLoop, hsettle]
  refine ⟨?_, ?_, Player.settings_readied _, Player.length_readied _, fun j => Player.log_readied j _⟩
  swap
  · exact congrArg Deck.history (Player.deck_readied _)
  constructor
  case inside => exact hr.inside
  case loop => exact Player.loop_readied _
  case active => exact (Player.cancelled_readied _).trans hr.active
  case accepts => exact Player.AllAccept.readied hr.accepts
  case current => exact congrArg Deck.current (Player.deck_readied _)
  case playlist => exact congrArg Deck.playlist (Player.deck_readied _)
  case rate => exact (congrArg Deck.speed (Player.deck_readied _)).trans hr.rate
  case target => exact (congrArg Deck.seekTarget (Player.deck_readied _)).trans hr.target
  case next => exact congrArg Deck.nextPending (Player.deck_readied _)
  case prev => exact congrArg Deck.prevPending (Player.deck_readied _)
  case position => simp [Catalog.modify, Catalog.get_put_self hsize, Item.seek]
  case frames =>
    exact fun k => (Catalog.get_modify_congr _ _ h (.seek 0) (fun _ => rfl) k).trans (hr.frames k)
  case uri =>
    exact fun k => (Catalog.get_modify_congr _ _ h (.seek 0) (fun _ => rfl) k).trans (hr.uri k)

theorem Showing.fetch (h : Showing items speed s c) (hs : 1 ≤ speed) :
    (s.catalog.get c.item).fetch? = some (frame speed (items c.item) c.index) := by
  have hi := (lt_count_iff hs _ _).1 h.inside.index
  simp [Item.fetch?, h.position, h.frames, h.uri, hi, frame]

def moved (items : Handle → Item) (speed : Nat) (s : Playback) (c : Cursor) : Item :=
  if c.atLast items speed then s.catalog.get c.item else (s.catalog.get c.item).seekBy speed

def delivered (shown : Frame) (position : Nat) (s : Playback) : Player :=
  { (s.player.deliver shown).2 with deck := { s.deck with observed := some position }.wake }

theorem Showing.advance (h : Showing items speed s c) (hs : 1 ≤ speed) :
    s.deck.advance (s.catalog.get c.item) =
      (moved items speed s c, s.deck, c.ends items speed) := by
  have hn : (c.index + 1) * speed = c.index * speed + speed := Nat.succ_mul _ _
  have hl : (c.index + 1) * speed < (items c.item).frames ↔ c.atLast items speed = false := by
    rw [← lt_count_iff hs]
    simp [Cursor.atLast]
  simp only [Deck.advance, h.target, h.rate, h.position, h.frames]
  cases ha : c.atLast items speed with
  | false =>
      have hf := hl.2 ha
      rw [if_pos ⟨by omega, by omega, by omega⟩]
      simp [moved, Cursor.ends, ha]
  | true =>
      have hf : ¬(c.index + 1) * speed < (items c.item).frames := fun hf => by simp [hl.1 hf] at ha
      rw [if_neg (by omega)]
      simp [moved, Cursor.ends, ha, h.playlist, Nat.lt_of_lt_of_le Nat.zero_lt_one hs]

theorem Showing.apply_frame (h : Showing items speed s c) (hs : 1 ≤ speed) :
    let q := delivered (frame speed (items c.item) c.index) (moved items speed s c).position s
    Move.frame.apply s =
      ⟨s.catalog.put c.item (moved items speed s c),
        if c.ends items speed then { q.completeStores with loop := .waiting } else q⟩ := by
  have hd := Player.deliver_accepted h.accepts (frame speed (items c.item) c.index)
  have hq := Player.playFrame_taken (h.fetch hs) hd
  simp only [h.advance hs] at hq
  simp only [Move.apply, h.loop, onLoop, hq]
  cases c.ends items speed with
  | true => rfl
  | false =>
      congr 1
      exact Player.betweenFrames_quiet h.active h.next h.prev

theorem Showing.moved_position (h : Showing items speed s c) (hs : 1 ≤ speed)
    (hl : c.atLast items speed = false) :
    (moved items speed s c).position = (c.index + 1) * speed := by
  have hi : c.index + 1 < count speed (items c.item) := by simpa [Cursor.atLast] using hl
  have hp := (lt_count_iff hs _ _).1 hi
  have hn : (c.index + 1) * speed = c.index * speed + speed := Nat.succ_mul _ _
  simp only [moved, hl, Bool.false_eq_true, if_false, Item.seekBy, Item.seek, Item.last, h.position,
    h.frames]
  omega

theorem moved_alike (items : Handle → Item) (speed : Nat) (s : Playback) (c : Cursor) :
    (moved items speed s c).frames = (s.catalog.get c.item).frames ∧
      (moved items speed s c).uri = (s.catalog.get c.item).uri := by
  unfold moved
  split <;> exact ⟨rfl, rfl⟩

/-- What a step brings to a player that shows the frame of a cursor. -/
structure Followed (items : Handle → Item) (speed : Nat) (s : Playback) (c : Cursor)
    (t : Playback) : Prop where
  showing : Showing items speed t (c.next items speed)
  history : t.deck.history =
    if c.ends items speed then newest s.capacity (s.deck.history ++ [c.item]) else s.deck.history
  settings : t.player.settings = s.player.settings
  stores : t.player.stores.length = s.player.stores.length
  log : ∀ j < s.player.stores.length, t.player.log j = s.player.log j ++ c.calls items speed j

theorem Showing.put (h : Showing items speed s c) (k : Handle) :
    ((s.catalog.put c.item (moved items speed s c)).get k).frames = (items k).frames ∧
      ((s.catalog.put c.item (moved items speed s c)).get k).uri = (items k).uri := by
  obtain ⟨hf, hu⟩ := moved_alike items speed s c
  exact ⟨(Catalog.get_put_congr Item.frames _ hf k).trans (h.frames k),
    (Catalog.get_put_congr Item.uri _ hu k).trans (h.uri k)⟩

theorem Showing.lt_size (h : Showing items speed s c) (hs : 1 ≤ speed) :
    c.item < s.catalog.items.size := by
  apply Catalog.lt_size_of_frames_pos
  have hi := (lt_count_iff hs _ _).1 h.inside.index
  rw [h.frames]
  omega

/-- Within an item, and on the last frame of the last one, the step is done with the frame. -/
theorem Showing.step_within (h : Showing items speed s c) (hs : 1 ≤ speed)
    (he : c.ends items speed = false) :
    Followed items speed s c (s.onLoop Player.step) := by
  set q := delivered (frame speed (items c.item) c.index) (moved items speed s c).position s with hq
  have hstep : s.onLoop Player.step = ⟨s.catalog.put c.item (moved items speed s c), q⟩ := by
    have hf := h.apply_frame hs
    simp only [he, Bool.false_eq_true, if_false, ← hq] at hf
    have hp : q.loop ≠ .waiting := by
      rw [show q.loop = .playing c.item from h.loop]
      exact nofun
    rw [onLoop_step h.loop, hf, Move.apply, onLoop, Player.settle_of_ne hp]
  have hposition : (moved items speed s c).position = (c.next items speed).index * speed := by
    rw [Cursor.next_of_not_ends he]
    cases hl : c.atLast items speed with
    | false => exact h.moved_position hs hl
    | true => simp [moved, hl, h.position]
  rw [hstep]
  refine ⟨?_, by simp [he, hq, delivered, Deck.wake], rfl, Player.length_deliver _ _, ?_⟩
  · have hn := Cursor.next_of_not_ends he
    constructor
    case inside => exact h.inside.next
    case loop => rw [hn]; exact h.loop
    case active => exact h.active
    case accepts => exact h.accepts.deliver _
    case current => rw [hn]; exact h.current
    case playlist => rw [hn]; exact h.playlist
    case rate => exact h.rate
    case target => exact h.target
    case next => exact h.next
    case prev => exact h.prev
    case position =>
      rw [← hposition, hn]
      exact congrArg Item.position (Catalog.get_put_self (h.lt_size hs) _)
    case frames => exact fun k => (h.put k).1
    case uri => exact fun k => (h.put k).2
  · intro j hj
    have hlog : q.log j = s.player.log j ++ [.push j true (frame speed (items c.item) c.index)] :=
      Player.log_deliver h.accepts _ hj
    simpa [Cursor.calls, he] using hlog

theorem Showing.step_turn (h : Showing items speed s c) (hs : 1 ≤ speed)
    (he : c.ends items speed = true) :
    Followed items speed s c (s.onLoop Player.step) := by
  obtain ⟨g, rest, hr, hn⟩ := Cursor.next_of_ends he
  set q := delivered (frame speed (items c.item) c.index) (moved items speed s c).position s with hq
  set w : Playback :=
    ⟨s.catalog.put c.item (moved items speed s c),
      { q.completeStores with loop := .waiting }⟩ with hw
  have hstep : s.onLoop Player.step = Move.promotion.apply w := by
    have hf := h.apply_frame hs
    simp only [he, if_true, ← hq, ← hw] at hf
    rw [onLoop_step h.loop, hf]
  have hready : Ready items speed w g rest := by
    constructor
    case inside => exact hn ▸ h.inside.next
    case loop => rfl
    case active => exact h.active
    case accepts => exact (h.accepts.deliver _).completeStores
    case playlist => exact h.playlist.trans hr
    case rate => exact h.rate
    case target => exact h.target
    case prev => exact h.prev
    case frames => exact fun k => (h.put k).1
    case uri => exact fun k => (h.put k).2
  obtain ⟨hshow, hhistory, hsettings, hstores, hlog⟩ := hready.promote hs
  have hq' : q.stores.length = s.player.stores.length := Player.length_deliver _ _
  rw [hstep]
  refine ⟨hn ▸ hshow, ?_, hsettings, hstores.trans ((Player.length_completeStores q).trans hq'), ?_⟩
  · have hc : w.deck.current.toList = [c.item] := congrArg Option.toList h.current
    rw [he, if_pos rfl, hhistory, hc]
    rfl
  · intro j hj
    have hpush : q.log j = s.player.log j ++ [.push j true (frame speed (items c.item) c.index)] :=
      Player.log_deliver h.accepts _ hj
    have hend : w.player.log j = q.log j ++ [.complete j] :=
      Player.log_completeStores q (hq' ▸ hj)
    rw [hlog, hend, hpush, Cursor.calls, he]
    simp

theorem Showing.step (h : Showing items speed s c) (hs : 1 ≤ speed) :
    Followed items speed s c (s.onLoop Player.step) := by
  cases he : c.ends items speed with
  | false => exact h.step_within hs he
  | true => exact h.step_turn hs he

/-- However many steps: the player is where the cursor is, and has told the stores and put into the
history what the cursor did. -/
theorem Showing.steps (n : Nat) (h : Showing items speed s c) (hs : 1 ≤ speed) {old : List Handle}
    (ho : s.deck.history = newest s.capacity old) :
    let t := s.onLoop (Player.steps n)
    Showing items speed t ((Cursor.next items speed)^[n] c) ∧
      t.deck.history = newest s.capacity (old ++ c.ended items speed n) ∧
      ∀ j < s.player.stores.length, t.player.log j = s.player.log j ++ c.told items speed j n := by
  induction n generalizing s c old with
  | zero =>
      refine ⟨h, ?_, fun j _ => ?_⟩
      · rw [Cursor.ended, List.append_nil]
        exact ho
      · rw [Cursor.told, List.append_nil]
        rfl
  | succ n ih =>
      have hf := h.step hs
      have hcap : (s.onLoop Player.step).capacity = s.capacity :=
        congrArg PlayerSettings.historyCapacity hf.settings
      have hnext : (s.onLoop Player.step).deck.history =
          newest s.capacity (old ++ if c.ends items speed then [c.item] else []) := by
        rw [hf.history, ho]
        split
        · exact newest_append _ _ _
        · rw [List.append_nil]
      obtain ⟨hshow, hhistory, hlog⟩ := ih hf.showing (hcap ▸ hnext)
      rw [onLoop_steps_succ, Function.iterate_succ_apply]
      refine ⟨hshow, ?_, fun j hj => ?_⟩
      · rw [hhistory, hcap, Cursor.ended, List.append_assoc]
      · rw [hlog j (hf.stores ▸ hj), hf.log j hj, Cursor.told, List.append_assoc]

theorem run_adds (xs : List Handle) (s : Playback) :
    ∃ generation wakeups, s.run (xs.map fun h => .request (.add h)) =
      s.onPlayer (Player.onDeck fun d =>
        { d with playlist := d.playlist ++ xs, generation, wakeups }) := by
  induction xs generalizing s with
  | nil => exact ⟨s.deck.generation, s.deck.wakeups, by simp [onPlayer, Player.onDeck]⟩
  | cons x xs ih =>
      obtain ⟨g, w, hr⟩ := ih (Request.apply s (.add x))
      refine ⟨g, w, ?_⟩
      rw [List.map_cons, run_cons, Event.apply, hr]
      simp [Request.apply, onPlayer, Player.onDeck, Deck.add, Deck.bump, Deck.wake]

def queued (settings : PlayerSettings) (stores : List Store) (catalog : Catalog)
    (xs : List Handle) (speed : Nat) : Playback :=
  (Playback.run ⟨catalog, { settings, stores }⟩ (xs.map fun h => .request (.add h))).run
    [.request (.setSpeed speed), .request .start, .move .promotion]

theorem queued_showing (settings : PlayerSettings) {stores : List Store} {catalog : Catalog}
    {x : Handle} {xs : List Handle} {speed : Nat} (hs : 1 ≤ speed)
    (hf : ∀ h ∈ x :: xs, 1 ≤ (catalog.get h).frames) (ha : ∀ store ∈ stores, store.Accepts) :
    let s := queued settings stores catalog (x :: xs) speed
    Showing catalog.get speed s ⟨x, 0, xs⟩ ∧ s.deck.history = [] ∧ s.player.settings = settings ∧
      s.player.stores.length = stores.length ∧ ∀ j, s.player.log j = [] := by
  obtain ⟨g, w, hr⟩ := run_adds (x :: xs) ⟨catalog, { settings, stores }⟩
  obtain ⟨g', w', hw⟩ : ∃ generation wakeups,
      Playback.run (Playback.run ⟨catalog, { settings, stores }⟩
        ((x :: xs).map fun h => .request (.add h))) [.request (.setSpeed speed), .request .start] =
      ⟨catalog, { settings, stores, loop := .waiting, held := true, deck :=
        { playlist := x :: xs, speed, generation, wakeups } }⟩ := by
    rw [hr]
    by_cases h1 : (1 : Int) = speed
    · exact ⟨g, w + 1, by
        simp [Event.apply, Request.apply, onPlayer, Player.onDeck, Deck.setSpeed, ← h1, Deck.wake,
          Player.start]⟩
    · exact ⟨g + 1, w + 1, by
        simp [Event.apply, Request.apply, onPlayer, Player.onDeck, Deck.setSpeed, h1, Deck.wake,
          Deck.bump, Player.start]⟩
  have hinside : Cursor.Inside catalog.get speed ⟨x, 0, xs⟩ := by
    have hcount (h : Handle) (hh : h ∈ x :: xs) : 0 < count speed (catalog.get h) :=
      (lt_count_iff hs _ _).2 (by have := hf h hh; omega)
    exact ⟨hcount x (by simp), fun h hh => hcount h (by simp [hh])⟩
  have hready : Ready catalog.get speed
      ⟨catalog, { settings, stores, loop := .waiting, held := true, deck :=
        { playlist := x :: xs, speed, generation := g', wakeups := w' } }⟩ x xs :=
    ⟨hinside, rfl, rfl, ha, rfl, rfl, rfl, rfl, fun _ => rfl, fun _ => rfl⟩
  have hq : queued settings stores catalog (x :: xs) speed = Move.promotion.apply _ :=
    congrArg (Move.apply · .promotion) hw
  rw [hq]
  obtain ⟨hshow, hhistory, hsettings, hstores, hlog⟩ := hready.promote hs
  exact ⟨hshow, hhistory.trans (by simp [newest]), hsettings, hstores, hlog⟩

/-- A queue plays through, item after item. After any number of steps some items were played and one
is current; each store has been told as many frames as there were steps and the ends of the items
that were played, in the order of the programme; and the last item is reached after the frames of
the others, and stays. -/
theorem queue_plays_through (settings : PlayerSettings) (stores : List Store) (catalog : Catalog)
    {xs : List Handle} (hx : xs ≠ []) (hf : ∀ h ∈ xs, 1 ≤ (catalog.get h).frames)
    {speed : Nat} (hs : 1 ≤ speed) (ha : ∀ store ∈ stores, store.Accepts) (n : Nat) :
    let s := (queued settings stores catalog xs speed).onLoop (Player.steps n)
    ∃ played h rest, xs = played ++ h :: rest ∧
      s.deck.current = some h ∧ s.deck.playlist = rest ∧
      s.deck.history = newest settings.historyCapacity played ∧
      (rest = [] ↔ lead speed (xs.map catalog.get) ≤ n) ∧
      ∀ j < stores.length,
        (s.player.log j).countP Store.Call.isPush = n ∧
        (s.player.log j).count (.complete j) = played.length ∧
        ∃ m, s.player.log j <+: programme j speed (xs.map catalog.get) ++
          List.replicate m (.push j true (lastFrame speed (catalog.get (xs.getLast hx)))) := by
  obtain ⟨x, xs, rfl⟩ := List.exists_cons_of_ne_nil hx
  obtain ⟨hshow, hnil, hsettings, hstores, hlog⟩ := queued_showing settings hs hf ha
  have ho : (queued settings stores catalog (x :: xs) speed).deck.history =
      newest (queued settings stores catalog (x :: xs) speed).capacity [] := by
    simp [hnil, newest]
  obtain ⟨ht, hhistory, htold⟩ := hshow.steps n hs ho
  set c : Cursor := ⟨x, 0, xs⟩ with hc
  set c' := (Cursor.next catalog.get speed)^[n] c with hc'
  have hfinal : (x :: xs).getLast hx = c.final := List.getLast_eq_getLastD hx
  refine ⟨c.ended catalog.get speed n, c'.item, c'.rest, (Cursor.ended_append_queue n c).symm,
    ht.current, ht.playlist, ?_, ?_, fun j hj => ?_⟩
  · rw [hhistory, capacity, hsettings, List.nil_append]
  · simpa [Cursor.queue, hc] using Cursor.rest_iterate n hshow.inside
  · rw [htold j (hstores ▸ hj), hlog, List.nil_append]
    refine ⟨Cursor.countP_told j n c, Cursor.count_told j n c, ?_⟩
    rw [hfinal]
    simpa [Cursor.queue, hc] using Cursor.told_prefix j n hshow.inside

theorem queue_plays_through_encore :
    let catalog : Catalog := ⟨#[.testPattern 3, .testPattern 4]⟩
    let stores : List Store := [.null 0 0, .clock 25 0]
    let s := (queued { historyCapacity := 1 } stores catalog [0, 1, 0] 2).onLoop (Player.steps 5)
    (∀ h ∈ [0, 1, 0], 1 ≤ (catalog.get h).frames) ∧ (∀ store ∈ stores, store.Accepts) ∧
    ∃ played h rest, [0, 1, 0] = played ++ h :: rest ∧
      s.deck.current = some h ∧ s.deck.playlist = rest ∧ s.deck.history = newest 1 played ∧
      (rest = [] ↔ lead 2 ([0, 1, 0].map catalog.get) ≤ 5) ∧
      ∀ j < stores.length,
        (s.player.log j).countP Store.Call.isPush = 5 ∧
        (s.player.log j).count (.complete j) = played.length ∧
        ∃ m, s.player.log j <+: programme j 2 ([0, 1, 0].map catalog.get) ++
          List.replicate m (.push j true (lastFrame 2 (catalog.get 0))) := by
  have hf : ∀ h ∈ [0, 1, 0],
      1 ≤ (Catalog.get ⟨#[.testPattern 3, .testPattern 4]⟩ h).frames := by decide
  have ha : ∀ store ∈ [Store.null 0 0, .clock 25 0], store.Accepts := by simp [Store.Accepts]
  exact ⟨hf, ha, queue_plays_through { historyCapacity := 1 } _ _ (by simp) hf (by decide) ha 5⟩

end Playback

end Playout
