import Playout.Proofs.Media.Item
import Playout.Proofs.Number.Checked
import Playout.Proofs.Player.Cancellation
import Playout.Proofs.Player.Consistency
import Playout.Proofs.Player.Seek

namespace Playout

open Media

namespace Deck

def targetChecked (position frames : Int) : Option Int := do
  let wanted ← if 0 ≤ position then some position else Number.checked (frames + position)
  let last ← Number.checked (frames - 1)
  return max 0 (min wanted (max last 0))

theorem targetChecked_eq {position : Int} {frames : Nat} (hp : Number.Fits position)
    (hf : Number.Fits frames) :
    targetChecked position frames = some ((targetOf position frames : Nat) : Int) := by
  rw [Number.fits_iff] at hp hf
  have hlast : Number.checked (frames - 1) = some ((frames : Int) - 1) :=
    Number.checked_of_fits ((Number.fits_iff _).2 (by omega))
  rw [targetChecked, hlast, cast_targetOf]
  split
  · simp only [Option.bind_eq_bind, Option.bind_some, Option.pure_def, Option.some.injEq]
    omega
  · have hsum : Number.checked (frames + position) = some (frames + position) :=
      Number.checked_of_fits ((Number.fits_iff _).2 (by omega))
    simp only [hsum, Option.bind_eq_bind, Option.bind_some, Option.pure_def, Option.some.injEq]
    omega

theorem inside_advance {item : Item} (hi : item.Inside) (d : Deck) : (d.advance item).1.Inside := by
  unfold advance
  split
  · exact Item.inside_seek _ _
  · dsimp only
    split
    · exact Item.inside_seek _ _
    · exact hi

end Deck

namespace Media.Catalog

theorem inside_modify {catalog : Catalog} {h k : Handle} {f : Item → Item}
    (hf : ∀ item, (f item).Inside) (hk : (catalog.get k).Inside) :
    ((catalog.modify h f).get k).Inside := by
  rw [modify, get_put]
  split
  · exact hf _
  · exact hk

theorem inside_add {catalog : Catalog} {item : Item} {k : Handle} (hi : item.Inside)
    (hk : (catalog.get k).Inside) : ((catalog.add item).2.get k).Inside := by
  rw [get_add]
  split
  · exact hi
  · exact hk

end Media.Catalog

namespace Playback

variable {s : Playback} {k : Handle}

theorem inside_frame {catalog : Catalog} (hk : (catalog.get k).Inside) (h : Handle) (p : Player) :
    ((p.playFrame h catalog).1.get k).Inside := by
  rw [(p.playFrame_takes h catalog).1]
  split
  · rw [Catalog.get_put]
    split
    · rename_i he
      exact Deck.inside_advance (he.1 ▸ hk) _
    · exact hk
  · exact hk

theorem inside_change {catalog : Catalog} (hk : (catalog.get k).Inside) (c : ItemChange) :
    ((c.apply catalog).get k).Inside := by
  cases c with
  | opened uri kind => exact Catalog.inside_add (Item.inside_fresh uri kind) hk
  | generated frames => exact Catalog.inside_add (Item.inside_testPattern frames) hk
  | sought h target => exact Catalog.inside_modify (Item.inside_seek _) hk
  | moved h distance => exact Catalog.inside_modify (fun _ => Item.inside_seek _ _) hk
  | set h name value =>
      rw [ItemChange.apply]
      split
      · rename_i hs
        rw [Catalog.get_put]
        split
        · rename_i he
          exact Item.Inside.set (he.1 ▸ hk) hs
        · exact hk
      · exact hk

theorem inside_request (hk : (s.catalog.get k).Inside) (r : Request) :
    ((r.apply s).catalog.get k).Inside := by
  by_cases hr : r = .shutdown
  · subst hr
    by_cases hl : ∃ h, s.player.loop = .playing h
    · obtain ⟨h, hl⟩ := hl
      simp only [Request.apply, onLoop, Player.shutdown_of_playing hl]
      exact inside_frame hk h s.player.cancel
    · obtain ⟨loop, he, -⟩ := Player.shutdown_of_not_playing (not_exists.1 hl) s.catalog
      simp only [Request.apply, onLoop, he]
      exact hk
  · cases r <;> first | exact hk | exact absurd rfl hr

theorem inside_move (hk : (s.catalog.get k).Inside) (m : Move) :
    ((m.apply s).catalog.get k).Inside := by
  cases m with
  | frame =>
      cases hl : s.player.loop with
      | playing h =>
          simp only [Move.apply, hl]
          exact inside_frame hk h s.player
      | idle | waiting | ended => simpa only [Move.apply, hl] using hk
  | look =>
      cases hl : s.player.loop with
      | playing h => simpa only [Move.apply, hl, onPlayer] using hk
      | idle | waiting | ended => simpa only [Move.apply, hl] using hk
  | promotion =>
      cases hp : s.player.promotes with
      | false =>
          obtain ⟨loop, he, -⟩ := Player.settle_quiet hp s.catalog
          simp only [Move.apply, onLoop, he]
          exact hk
      | true =>
          simp only [Move.apply, onLoop, Player.settle_of_promotes hp]
          split
          · exact hk
          · exact Catalog.inside_modify (Item.inside_seek 0) hk

theorem inside_apply (hk : (s.catalog.get k).Inside) (e : Event) :
    ((e.apply s).catalog.get k).Inside := by
  cases e with
  | request r => exact inside_request hk r
  | change c => exact inside_change hk c
  | move m => exact inside_move hk m

/-- An item starts at its first frame and is not played beyond its last one, whatever the items were
before. -/
theorem Reachable.inside (hs : Reachable s) (hl : s.player.loop = .playing k) :
    (s.catalog.get k).Inside := by
  induction hs with
  | new catalog settings stores => cases hl
  | @event s hs e ih =>
      cases hp : s.promotes e with
      | false => exact inside_apply (ih ((kept_apply hp).loop k hl)) e
      | true =>
          obtain ⟨rfl, hp⟩ := eq_promotion hp
          obtain ⟨-, hstart⟩ := promotion_starts hp
          have hc : (Move.promotion.apply s).deck.current = some k :=
            (hs.event (.move .promotion)).sound.shown k hl
          rw [Item.Inside, Event.apply, (hstart k hc).2]
          exact Nat.zero_le _

/-- Others ask for something or change items, but nobody seeks or ends the loop, and the loop does not
move. -/
def Event.leaves : Event → Bool
  | .request (.seek _) | .request .shutdown | .move _ => false
  | .request _ | .change _ => true

theorem loop_request {h : Handle} (ha : s.player.Accounted) (hl : s.player.loop = .playing h)
    {r : Request} (hr : r ≠ .shutdown) : (r.apply s).player.loop = .playing h := by
  by_cases hstart : r = .start
  · subst hstart
    simp only [Request.apply, onPlayer, Player.start]
    split
    · exact hl
    · split
      · exact hl
      · rename_i hh hc
        simp [Player.Accounted, hh, hc, hl] at ha
  · rw [(undisturbed_request hstart hr).loop]
    exact hl

/-- The loop stays at its frame, and the seek stays open. -/
theorem apply_of_leaves {h : Handle} (ha : s.player.Accounted) (hl : s.player.loop = .playing h)
    {e : Event} (he : e.leaves = true) :
    (e.apply s).player.loop = .playing h ∧ (e.apply s).deck.seekTarget = s.deck.seekTarget := by
  have hshow : s.shows e = none := by
    cases e with
    | request r => cases r <;> first | rfl | cases he
    | change c => rfl
    | move m => cases he
  have hpromote : s.promotes e = false := by
    cases e with
    | request r | change c => rfl
    | move m => cases he
  have haim : s.aims e = none := by
    cases e with
    | request r => cases r <;> first | rfl | cases he
    | change c => rfl
    | move m => cases he
  refine ⟨?_, by rw [seekTarget_apply hshow hpromote, haim]; rfl⟩
  cases e with
  | request r => exact loop_request ha hl (by rintro rfl; cases he)
  | change c => exact hl
  | move m => cases he

theorem run_of_leaves {h : Handle} {es : List Event} (ha : s.player.Accounted)
    (hl : s.player.loop = .playing h) (he : ∀ e ∈ es, e.leaves = true) :
    (s.run es).player.loop = .playing h ∧ (s.run es).deck.seekTarget = s.deck.seekTarget := by
  induction es generalizing s with
  | nil => exact ⟨hl, rfl⟩
  | cons e es ih =>
      obtain ⟨he, hes⟩ := List.forall_mem_cons.1 he
      obtain ⟨hl, ht⟩ := apply_of_leaves ha hl he
      obtain ⟨hl, ht'⟩ := ih (accounted_apply ha e) hl hes
      exact ⟨hl, ht'.trans ht⟩

theorem observed_frame_shown {h : Handle} (he : s.shows (.move .frame) = some h) :
    (Move.frame.apply s).deck.observed = some ((Move.frame.apply s).catalog.get h).position := by
  obtain ⟨hl, ht, -⟩ := shows_eq_some he
  obtain ⟨hc, hd⟩ := s.player.playFrame_takes h s.catalog
  simp only [Move.apply, hl, onLoop, deck, hc, hd, ht, if_true,
    Catalog.get_put_self (Player.lt_size_of_takes ht)]
  rfl

/-- A seek in the item that is played goes to the nearest frame, whatever was sought before. Others
may ask for anything and change the item, but for its frame count: the next frame that the stores take
ends the seek and leaves the item there, whatever its speed. -/
theorem seek_lands {h : Handle} (hs : Reachable s) (hl : s.player.loop = .playing h)
    (hn : 0 < (s.catalog.get h).frames) (position : Int) :
    let frames := (s.catalog.get h).frames
    let t := Request.apply s (.seek position)
    ∃ target : Nat,
      (target : Int) =
        max 0 (min (if 0 ≤ position then position else frames + position) (frames - 1)) ∧
      (Number.Fits position → Number.Fits frames →
        Deck.targetChecked position frames = some (target : Int)) ∧
      t.deck = { s.deck with seekTarget := some target }.bump.wake ∧
      ∀ es, (∀ e ∈ es, e.leaves = true) →
        let u := t.run es
        let item := u.catalog.get h
        let v := Move.frame.apply u
        item.frames = frames → (u.player.deliver ⟨item.position, item.uri⟩).1 = true →
          u.shows (.move .frame) = some h ∧ v.deck.seekTarget = none ∧
            (v.catalog.get h).position = target ∧ v.deck.position = target := by
  intro frames t
  have hdeck : t.deck =
      { s.deck with seekTarget := some (Deck.targetOf position frames) }.bump.wake := by
    rw [deck_seek, hs.sound.shown h hl]
    rfl
  refine ⟨Deck.targetOf position frames, Deck.cast_targetOf position frames,
    Deck.targetChecked_eq, hdeck, ?_⟩
  intro es hes u item v hframes htaken
  have ht : Reachable t := hs.event (.request (.seek position))
  have hlt : t.player.loop = .playing h := loop_request hs.accounted hl nofun
  obtain ⟨hlu, hopen⟩ := run_of_leaves ht.accounted hlt hes
  -- The item may have been moved since, but not out of its frames.
  have hfetch : item.fetch? = some ⟨item.position, item.uri⟩ := by
    rw [((ht.run es).inside hlu).fetch, if_pos (hframes ▸ hn)]
  have hshow : u.shows (.move .frame) = some h := by
    have htakes : u.player.takes h u.catalog = true := by
      rw [Player.takes, hfetch]
      exact htaken
    simp only [shows, u, hlu]
    exact if_pos htakes
  obtain ⟨hnone, hposition⟩ := apply_of_shows hshow
  have hland : (v.catalog.get h).position = Deck.targetOf position frames := by
    refine hposition.trans ?_
    rw [hopen, hdeck]
    refine Nat.min_eq_left ?_
    rw [Item.last, hframes]
    exact Nat.min_le_right _ _
  refine ⟨hshow, hnone, hland, ?_⟩
  rw [Deck.position, observed_frame_shown hshow, ← hland]
  rfl

def seeking : Playback :=
  Playback.run ⟨⟨#[.testPattern 9, .testPattern 9]⟩, { stores := [.null 0 0] }⟩
    [.request (.add 0), .request (.add 1), .request .start, .move .promotion, .move .frame,
      .request (.seek 3), .request .next]

/-- The item is moved, and sent backwards with its playlist emptied, before the frame comes. -/
theorem seek_lands_from_end :
    let es : List Event :=
      [.request (.setSpeed Number.least64), .change (.moved 0 2), .request (.grab 0)]
    let u := (Request.apply seeking (.seek (-2))).run es
    let v := Move.frame.apply u
    Reachable seeking ∧ seeking.player.loop = .playing 0 ∧ 0 < (seeking.catalog.get 0).frames ∧
      Number.Fits (-2) ∧ Number.Fits (seeking.catalog.get 0).frames ∧
      Deck.targetChecked (-2) (seeking.catalog.get 0).frames = some 7 ∧
      (∀ e ∈ es, e.leaves = true) ∧
      (u.catalog.get 0).frames = (seeking.catalog.get 0).frames ∧
      (u.player.deliver ⟨(u.catalog.get 0).position, (u.catalog.get 0).uri⟩).1 = true ∧
      v.deck.seekTarget = none ∧ (v.catalog.get 0).position = 7 ∧ v.deck.position = 7 := by
  intro es u
  have hs : Reachable seeking := (Reachable.new _ _ _).run _
  have hl : seeking.player.loop = .playing 0 := rfl
  have hes : ∀ e ∈ es, e.leaves = true := by simp [es, Event.leaves]
  have hp : Number.Fits (-2) := by decide
  have hframes : (seeking.catalog.get 0).frames = 9 := by decide +kernel
  have hf : Number.Fits (seeking.catalog.get 0).frames := by rw [hframes]; decide
  have hn : 0 < (seeking.catalog.get 0).frames := by rw [hframes]; decide
  have hkept : (u.catalog.get 0).frames = (seeking.catalog.get 0).frames := by
    decide +kernel +revert
  have htaken : (u.player.deliver ⟨(u.catalog.get 0).position, (u.catalog.get 0).uri⟩).1 = true := by
    decide +kernel +revert
  obtain ⟨target, htarget, hchecked, -, hland⟩ := seek_lands hs hl hn (-2)
  obtain rfl : target = 7 := by
    rw [hframes] at htarget
    omega
  obtain ⟨-, hnone, hposition, hreported⟩ := hland es hes hkept htaken
  exact ⟨hs, hl, hn, hp, hf, hchecked hp hf, hes, hkept, htaken, hnone, hposition, hreported⟩

end Playback

end Playout
