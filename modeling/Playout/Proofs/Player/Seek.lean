import Playout.Proofs.Player.Reachable

namespace Playout

open Media

namespace Media.Item

def paced (speed : Int) (item : Item) : Nat :=
  if 0 ≤ item.position + speed ∧ item.position + speed < item.frames then
    (item.position + speed).toNat
  else item.position

end Media.Item

namespace Deck

theorem position_advance (item : Item) (d : Deck) :
    (d.advance item).1.position =
      d.seekTarget.elim (item.paced d.speed) fun target => min target item.last := by
  cases ht : d.seekTarget with
  | some target => simp [advance, ht, Item.seek]
  | none =>
      by_cases hn : 0 ≤ item.position + d.speed ∧ item.position + d.speed < item.frames
      · by_cases hz : d.speed = 0
        · simp [advance, ht, hz, Item.paced]
        · have hl : (item.position + d.speed).toNat ≤ item.frames - 1 := by omega
          simp [advance, ht, hz, hn, Item.paced, Item.seekBy, Item.seek, Item.last, hl]
      · simp [advance, ht, hn, Item.paced]

end Deck

namespace Player

theorem lt_size_of_takes {p : Player} {h : Handle} {catalog : Catalog}
    (ht : p.takes h catalog = true) : h < catalog.items.size := by
  apply Catalog.lt_size_of_frames_pos
  cases hf : (catalog.get h).frames with
  | zero => simp [takes, Item.fetch?, hf] at ht
  | succ n => exact Nat.succ_pos n

theorem playFrame_shown {p : Player} {h : Handle} {catalog : Catalog}
    (ht : p.takes h catalog = true) :
    (p.playFrame h catalog).2.deck.seekTarget = none ∧
      ((p.playFrame h catalog).1.get h).position =
        p.deck.seekTarget.elim ((catalog.get h).paced p.deck.speed) fun target =>
          min target (catalog.get h).last := by
  obtain ⟨hc, hd⟩ := p.playFrame_takes h catalog
  rw [hc, hd, if_pos ht, if_pos ht, Deck.deck_advance, Catalog.get_put_self (lt_size_of_takes ht)]
  exact ⟨rfl, Deck.position_advance _ _⟩

theorem deck_of_takes_false {p : Player} {h : Handle} {catalog : Catalog}
    (ht : p.takes h catalog = false) : (p.playFrame h catalog).2.deck = p.deck := by
  rw [(p.playFrame_takes h catalog).2, ht]
  rfl

end Player

/-- A seek that was asked: for which item, to where, and how many promotions ago. -/
structure Aim where
  item : Handle
  target : Nat
  age : Nat
  deriving DecidableEq, Repr

namespace Playback

def shows (s : Playback) : Event → Option Handle
  | .move .frame | .request .shutdown =>
    match s.player.loop with
    | .playing h => if s.player.takes h s.catalog then some h else none
    | _ => none
  | _ => none

def aims (s : Playback) : Event → Option Aim
  | .request (.seek position) =>
    s.deck.current.map fun h => ⟨h, Deck.targetOf position (s.catalog.get h).frames, 0⟩
  | _ => none

def follow (s : Playback) (aim : Option Aim) (e : Event) : Option Aim :=
  if (s.shows e).isSome then none
  else if s.promotes e then aim.map fun a => { a with age := a.age + 1 }
  else (s.aims e).or aim

/-- The last seek of a run, if no frame was shown since. -/
def openAim (s : Playback) (aim : Option Aim) : List Event → Option Aim
  | [] => aim
  | e :: es => openAim (e.apply s) (s.follow aim e) es

/-- The deck knows where the open seek goes, and as long as nothing was promoted it is for the
current item. -/
structure Aimed (s : Playback) (aim : Option Aim) : Prop where
  target : s.deck.seekTarget = aim.map Aim.target
  current : ∀ a ∈ aim, a.age = 0 → s.deck.current = some a.item

variable {s : Playback} {e : Event}

theorem shows_eq_some {h : Handle} (he : s.shows e = some h) :
    s.player.loop = .playing h ∧ s.player.takes h s.catalog = true ∧
      (e = .move .frame ∨ e = .request .shutdown) := by
  unfold shows at he
  split at he
  case h_3 => cases he
  all_goals
    split at he
    · rename_i k hl
      split at he
      · cases he
        exact ⟨hl, ‹_›, by simp⟩
      · cases he
    · cases he

theorem apply_of_shows {h : Handle} (he : s.shows e = some h) :
    (e.apply s).deck.seekTarget = none ∧
      ((e.apply s).catalog.get h).position =
        s.deck.seekTarget.elim ((s.catalog.get h).paced s.deck.speed) fun target =>
          min target (s.catalog.get h).last := by
  obtain ⟨hl, ht, rfl | rfl⟩ := shows_eq_some he
  · simp only [Event.apply, Move.apply, hl]
    exact Player.playFrame_shown ht
  · simp only [Event.apply, Request.apply, onLoop, Player.shutdown_of_playing hl]
    exact Player.playFrame_shown (p := s.player.cancel) ht

theorem seekTarget_request {r : Request} (he : s.shows (.request r) = none) :
    (r.apply s).deck.seekTarget = ((s.aims (.request r)).map Aim.target).or s.deck.seekTarget := by
  cases hr : r.meansDeck with
  | false =>
      obtain ⟨wakeups, controllers, hd⟩ := deck_aside hr
      rw [hd]
      cases r <;> first | rfl | cases hr
  | true =>
      cases r with
      | shutdown =>
          simp only [Request.apply, onLoop]
          cases hl : s.player.loop with
          | playing h =>
              have ht : s.player.takes h s.catalog = false := by simpa [shows, hl] using he
              rw [Player.shutdown_of_playing hl]
              have hd := Player.deck_of_takes_false (p := s.player.cancel) ht
              exact (congrArg Deck.seekTarget hd).trans rfl
          | idle | waiting | ended =>
              obtain ⟨loop, hs, -⟩ :=
                Player.shutdown_of_not_playing (p := s.player) (by simp [hl]) s.catalog
              rw [hs]
              rfl
      | set | add => rfl
      | insert index h => exact (Deck.aside_insert index h s.deck).target
      | grab index => exact (Deck.aside_grab index s.deck).target
      | next => exact s.deck.aside_next.target
      | prev => exact s.deck.aside_prev.target
      | setSpeed speed => exact (s.deck.aside_setSpeed speed).target
      | seek position =>
          rw [deck_seek, aims]
          cases s.deck.current <;> rfl
      | start | cancel | controlStart | controlEnd | setStore => cases hr

theorem seekTarget_move {m : Move} (hm : s.shows (.move m) = none)
    (hp : s.promotes (.move m) = false) :
    (m.apply s).deck.seekTarget = s.deck.seekTarget := by
  cases m with
  | frame =>
      cases hl : s.player.loop with
      | playing h =>
          have ht : s.player.takes h s.catalog = false := by simpa [shows, hl] using hm
          simp only [Move.apply, hl, onLoop, deck, Player.deck_of_takes_false ht]
      | idle | waiting | ended => simp only [Move.apply, hl]
  | look =>
      cases hl : s.player.loop with
      | playing h => simp only [Move.apply, hl, onPlayer, deck, Player.deck_betweenFrames]
      | idle | waiting | ended => simp only [Move.apply, hl]
  | promotion =>
      obtain ⟨loop, hs, -⟩ := Player.settle_quiet hp s.catalog
      simp only [Move.apply, onLoop, hs]

theorem seekTarget_apply (he : s.shows e = none) (hp : s.promotes e = false) :
    (e.apply s).deck.seekTarget = ((s.aims e).map Aim.target).or s.deck.seekTarget := by
  cases e with
  | request r => exact seekTarget_request he
  | change c => rfl
  | move m => exact seekTarget_move he hp

theorem current_of_aims {a : Aim} (ha : s.aims e = some a) : s.deck.current = some a.item := by
  unfold aims at ha
  split at ha
  · obtain ⟨h, hc, rfl⟩ := Option.map_eq_some_iff.1 ha
    exact hc
  · cases ha

theorem Aimed.apply {aim : Option Aim} (h : Aimed s aim) (e : Event) :
    Aimed (e.apply s) (s.follow aim e) := by
  unfold follow
  cases hs : s.shows e with
  | some k => exact ⟨(apply_of_shows hs).1, nofun⟩
  | none =>
      cases hp : s.promotes e with
      | true =>
          obtain ⟨rfl, hp⟩ := eq_promotion hp
          constructor
          case target =>
            rw [Event.apply, deck_promotion hp, Deck.promote_eq]
            exact h.target.trans (by cases aim <;> rfl)
          case current =>
            intro a ha hz
            obtain ⟨b, -, rfl⟩ := Option.map_eq_some_iff.1 ha
            cases hz
      | false =>
          have hk : (e.apply s).deck.current = s.deck.current := (kept_apply hp).current
          cases ha : s.aims e with
          | some a =>
              refine ⟨?_, fun b hb _ => ?_⟩
              · rw [seekTarget_apply hs hp, ha]
                rfl
              · cases hb
                exact hk.trans (current_of_aims ha)
          | none =>
              refine ⟨?_, fun b hb hz => hk.trans (h.current b hb hz)⟩
              rw [seekTarget_apply hs hp, ha]
              exact h.target

theorem Aimed.run {aim : Option Aim} (h : Aimed s aim) (es : List Event) :
    Aimed (s.run es) (s.openAim aim es) := by
  induction es generalizing s aim with
  | nil => exact h
  | cons e es ih => exact ih (h.apply e)

/-- In any run of a new player, a frame that the stores take leaves no seek open. If one was open,
the frame takes its item to where that seek wanted, and this is the item it was asked for as long as
nothing was promoted since. If none was open, the item goes on by the speed. -/
theorem frame_meets_last_seek (catalog : Catalog) (settings : PlayerSettings) (stores : List Store)
    (es : List Event) {e : Event} {h : Handle} :
    let s : Playback := ⟨catalog, { settings, stores }⟩
    let u := s.run es
    let item := u.catalog.get h
    u.shows e = some h →
      (e.apply u).deck.seekTarget = none ∧
      (s.openAim none es = none →
        ((e.apply u).catalog.get h).position = item.paced u.deck.speed) ∧
      ∀ aim, s.openAim none es = some aim →
        ((e.apply u).catalog.get h).position = min aim.target item.last ∧
          (aim.age = 0 → aim.item = h) := by
  intro s u item he
  have hstart : Aimed s none := ⟨rfl, nofun⟩
  have haimed : Aimed u (s.openAim none es) := hstart.run es
  have hsound : Sound u := ((Reachable.new catalog settings stores).run es).sound
  obtain ⟨hnone, hposition⟩ := apply_of_shows he
  rw [haimed.target] at hposition
  refine ⟨hnone, fun ho => ?_, fun aim ho => ⟨?_, fun hz => ?_⟩⟩
  · rw [hposition, ho]
    rfl
  · rw [hposition, ho]
    rfl
  · have hc := hsound.shown h (shows_eq_some he).1
    rw [haimed.current aim ho hz] at hc
    exact Option.some.inj hc

theorem frame_meets_last_seek_from_end :
    let s : Playback := ⟨⟨#[.testPattern 9, .testPattern 9]⟩, { stores := [.null 0 0] }⟩
    let es : List Event := [.request (.add 0), .request (.add 1), .request .start,
      .move .promotion, .move .frame, .request (.seek (-2)), .request .next]
    let u := s.run es
    let t := Event.apply u (.move .frame)
    u.shows (.move .frame) = some 0 ∧ s.openAim none es = some ⟨0, 7, 0⟩ ∧
      t.deck.seekTarget = none ∧ (t.catalog.get 0).position = 7 := by
  obtain ⟨hn, -, ha⟩ := frame_meets_last_seek ⟨#[.testPattern 9, .testPattern 9]⟩ {} [.null 0 0]
    [.request (.add 0), .request (.add 1), .request .start, .move .promotion, .move .frame,
      .request (.seek (-2)), .request .next] (e := .move .frame) (h := 0) rfl
  exact ⟨rfl, rfl, hn, (ha ⟨0, 7, 0⟩ rfl).1⟩

/-- A seek in an item whose frame is refused moves the next item. -/
theorem frame_meets_seek_of_refused :
    let refusing : Store := .scripted ⟨fun _ => true, fun n => n ≠ 0, fun _ => false⟩ 0 0
    let s : Playback := ⟨⟨#[.testPattern 250, .testPattern 250]⟩, { stores := [refusing] }⟩
    let es : List Event := [.request (.add 0), .request (.add 1), .request .start,
      .move .promotion, .request (.seek 100), .move .frame, .move .promotion]
    let u := s.run es
    let t := Event.apply u (.move .frame)
    u.shows (.move .frame) = some 1 ∧ s.openAim none es = some ⟨0, 100, 1⟩ ∧
      (u.catalog.get 1).paced u.deck.speed = 1 ∧ (t.catalog.get 1).position = 100 :=
  ⟨rfl, rfl, rfl, rfl⟩

end Playback

end Playout
