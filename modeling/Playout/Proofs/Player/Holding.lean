import Playout.Proofs.Player.Reachable
import Playout.Proofs.Player.Timeline

namespace Playout

open Media

theorem Spliced.mem {place : Nat} {gone come old new : List Handle}
    (hs : Spliced place gone come old new) {k : Handle} (hk : k ∈ new) : k ∈ old ∨ k ∈ come := by
  obtain ⟨front, back, -, rfl, rfl⟩ := hs
  simp only [List.mem_append] at hk ⊢
  grind

theorem Deck.grab_mem (index : Int) (d : Deck) {k : Handle}
    (hk : k ∈ (d.grab index).2.timeline ∨ (d.grab index).1 = some k) : k ∈ d.timeline := by
  by_cases hi : index = -1
  · subst hi
    rcases hk with hk | hk
    · exact hk
    · have hc : d.current = some k := hk
      simp [timeline, hc]
  · have hs := spliced_grab hi d
    rcases hk with hk | hk
    · simpa using hs.mem hk
    · obtain ⟨front, back, -, ho, -⟩ := hs
      simp [ho, hk]

theorem Deck.promote_mem (capacity : Nat) (d : Deck) {k : Handle}
    (hk : (d.promote capacity).1 = some k) : k ∈ d.timeline := by
  rw [fst_promote] at hk
  rw [timeline_promote capacity d, timeline, hk]
  simp

namespace Player

def Holds (p : Player) (h : Handle) : Prop := h ∈ p.deck.timeline ∨ p.loop = .playing h

theorem Holds.onDeck {p : Player} {f : Deck → Deck} {come : List Handle}
    (hf : ∀ k ∈ (f p.deck).timeline, k ∈ p.deck.timeline ∨ k ∈ come) {k : Handle}
    (hk : (p.onDeck f).Holds k) : p.Holds k ∨ k ∈ come := by
  rcases hk with hk | hk
  · exact (hf k hk).imp_left .inl
  · exact .inl (.inr hk)

theorem Holds.seek {p : Player} {position : Int} {catalog : Catalog} {k : Handle}
    (hk : (p.seek position 0 catalog).2.2.Holds k) : p.Holds k := by
  unfold Player.seek at hk
  cases hc : p.deck.current with
  | none =>
      rw [hc] at hk
      exact hk
  | some h =>
      simp only [hc, steps, requestSeek] at hk
      exact hk

theorem Holds.setStoreProperty {p : Player} {name value : String} {k : Handle}
    (hk : (p.setStoreProperty name value).2.Holds k) : p.Holds k := by
  unfold Player.setStoreProperty at hk
  split at hk <;> exact hk

end Player

namespace Playback

/-- From one state of a player and its items to another, where nothing has changed but what the
player held before. -/
structure Contained (s t : Playback) : Prop where
  holds : ∀ {k}, t.player.Holds k → s.player.Holds k
  get : ∀ {k}, ¬s.player.Holds k → t.catalog.get k = s.catalog.get k
  size : t.catalog.items.size = s.catalog.items.size

theorem Contained.put {s : Playback} {h : Handle} (hh : s.player.Holds h) (item : Item) {p : Player}
    (hp : ∀ k, p.Holds k → s.player.Holds k) : Contained s ⟨s.catalog.put h item, p⟩ where
  holds := hp _
  get {k} hk := by
    refine Catalog.get_put_of_ne s.catalog ?_ item
    rintro rfl
    exact hk hh
  size := by simp [Catalog.put]

theorem Contained.same {s : Playback} {p : Player} (hp : ∀ k, p.Holds k → s.player.Holds k) :
    Contained s ⟨s.catalog, p⟩ := ⟨hp _, fun _ => rfl, rfl⟩

theorem contained_frame {s : Playback} {h : Handle} (hl : s.player.loop = .playing h) :
    Contained s (s.onLoop (Player.playFrame h)) := by
  have hholds (k : Handle) (hk : (s.player.playFrame h s.catalog).2.Holds k) : s.player.Holds k := by
    obtain ⟨_, _, _, _, _, _, loop, he, hleads, -⟩ := s.player.playFrame_eq h s.catalog
    rw [he] at hk
    exact hk.imp_right fun hk => hleads.playing hk
  rw [onLoop, (s.player.playFrame_takes h s.catalog).1]
  split
  · exact .put (.inr hl) _ hholds
  · exact .same hholds

theorem contained_promotion (s : Playback) : Contained s (s.onLoop Player.settle) := by
  cases hp : s.player.promotes with
  | false =>
      obtain ⟨loop, he, hleads⟩ := Player.settle_quiet hp s.catalog
      rw [onLoop, he]
      exact .same fun k hk => hk.imp_right fun hk => hleads.playing hk
  | true =>
      have ht := Deck.timeline_promote s.capacity s.deck
      have hm {k : Handle} := s.deck.promote_mem s.capacity (k := k)
      have hleft {k : Handle} (hk : k ∈ (s.deck.promote s.capacity).2.timeline) :
          k ∈ s.deck.timeline := ht ▸ List.mem_append_right _ hk
      rw [onLoop, Player.settle_of_promotes hp]
      generalize s.deck.promote s.capacity = promoted at hm hleft
      obtain ⟨_ | h, deck⟩ := promoted
      · exact .same fun k hk => hk.imp_left hleft
      · refine .put (.inl (hm rfl)) _ fun k hk => ?_
        rw [Player.Holds, Player.deck_readied, Player.loop_readied] at hk
        rcases hk with hk | hk
        · exact .inl (hleft hk)
        · cases hk
          exact .inl (hm rfl)

/-- Whatever the loop does, it comes by no item and changes none but those that the player holds. -/
theorem contained_move (s : Playback) (m : Move) : Contained s (m.apply s) := by
  cases m with
  | frame =>
      simp only [Move.apply]
      split
      · exact contained_frame ‹_›
      · exact .same fun _ => id
  | look =>
      simp only [Move.apply]
      split
      · refine .same fun k hk => ?_
        obtain ⟨loop, he, hleads, -⟩ := s.player.betweenFrames_eq
        rw [he] at hk
        exact hk.imp_right fun hk => hleads.playing hk
      · exact .same fun _ => id
  | promotion => exact contained_promotion s

end Playback

end Playout
