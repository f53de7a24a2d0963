import Playout.Proofs.Console.Grip

namespace Playout

open Media Stack

namespace Console

open Act

/-- The items of `own` are as they were at the start, and neither the console nor the player can
reach one of them. -/
structure Confined (own : Handle → Prop) (start : Catalog) (reach : Handle → Prop) (d : Desk) :
    Prop where
  popWord : d.console.interpreter.popWord = "dot"
  printed : d.console.interpreter.machine.printed = ""
  stack : ∀ h, .item h ∈ d.console.interpreter.machine.stack → reach h
  held : ∀ h, d.studio.player.Holds h → reach h
  reach : ∀ h, reach h → h < d.studio.catalog.items.size ∧ ¬own h
  own : ∀ h, own h → h < d.studio.catalog.items.size ∧ d.studio.catalog.get h = start.get h

def Shown (reach : Handle → Prop) (h k : Handle) : Prop := h = k ∧ reach h

namespace Confined

variable {own : Handle → Prop} {start : Catalog} {reach : Handle → Prop}

theorem tie {v : Value} (hv : ∀ h, v = .item h → reach h) : Tie (Shown reach) v v := by
  cases v with
  | literal text => exact .literal text
  | item h => exact .item ⟨rfl, hv h rfl⟩

theorem eq_of_tie {v w : Value} (h : Tie (Shown reach) v w) :
    v = w ∧ ∀ h, v = .item h → reach h := by
  cases h with
  | literal text => exact ⟨rfl, by simp⟩
  | item hr =>
      obtain ⟨rfl, hr⟩ := hr
      exact ⟨rfl, by rintro h ⟨⟩; exact hr⟩

theorem player {f : Player → Player} (hf : ∀ p k, (f p).Holds k → p.Holds k ∨ reach k) :
    Pairs (Within (Confined own start reach)) Eq (Act.player f) (Act.player f) := by
  refine .modify ?_
  rintro d _ ⟨rfl, hd⟩
  exact ⟨rfl, { hd with held := fun k hk => (hf _ k hk).elim (hd.held k) id }⟩

theorem grip : Grip (Within (Confined own start reach)) (Shown reach) where
  same := by
    rintro d _ h _ ⟨rfl, -⟩ ⟨rfl, -⟩
    rfl
  defined := by
    rintro d _ ⟨rfl, -⟩
    rfl
  pop := by
    rintro d _ ⟨rfl, hd⟩
    rw [Meets, run_pop_eq hd.popWord hd.printed]
    have hs := hd.stack
    cases hstack : d.console.interpreter.machine.stack with
    | nil => exact ⟨.error _, rfl, { hd with }⟩
    | cons v stack =>
        rw [hstack] at hs
        refine ⟨.ok (tie fun h he => hs h (he ▸ List.mem_cons_self)), rfl, ?_⟩
        exact { hd with printed := rfl, stack := fun h hh => hs h (List.mem_cons_of_mem _ hh) }
  push := by
    intro v w hv d _ hd
    obtain ⟨rfl, hd⟩ := hd
    obtain ⟨rfl, hreach⟩ := eq_of_tie hv
    refine ⟨.ok rfl, rfl, { hd with printed := rfl, stack := fun h hh => ?_ }⟩
    rcases List.mem_cons.1 hh with he | hh
    · exact hreach h he.symm
    · exact hd.stack h hh
  write text := .modify fun d _ ⟨he, hd⟩ => he ▸ ⟨rfl, { hd with }⟩
  player f hf := player fun p k hk => .inl (hf p k hk)
  collect given := .modify fun d _ ⟨he, hd⟩ => he ▸ ⟨rfl, { hd with }⟩
  signal s := .modify fun d _ ⟨he, hd⟩ => he ▸ ⟨rfl, { hd with }⟩
  logLevel level := .modify fun d _ ⟨he, hd⟩ => he ▸ ⟨rfl, { hd with }⟩

theorem writeItems (hs : List Handle) :
    Pairs (Within (Confined own start reach)) Eq (Console.writeItems hs) (Console.writeItems hs) := by
  rw [writeItems_eq]
  refine .forM (fun handle => .catalog fun d e hd => ?_) hs
  obtain ⟨rfl, -⟩ := hd
  exact grip.write _

theorem seekNow (position : Int) :
    Pairs (Within (Confined own start reach)) Eq (Console.seekNow position)
      (Console.seekNow position) := by
  rintro d _ ⟨rfl, hd⟩
  rw [Meets, run_seekNow, catalog_seek]
  exact ⟨.ok rfl, rfl, { hd with held := fun k hk => hd.held k hk.seek }⟩

theorem giveUp {d : Desk} (hd : Confined own start reach d) {found : Option Handle} {deck : Deck}
    (hdeck : ∀ k ∈ deck.timeline, k ∈ d.studio.player.deck.timeline)
    (hfound : ∀ k, found = some k → k ∈ d.studio.player.deck.timeline) :
    Agrees (Within (Confined own start reach))
      (do
        Act.deck fun _ => deck
        match found with
        | some h => Act.push (.item h)
        | none => return) d d := by
  have hleft : Confined own start reach ((Act.deck fun _ => deck).run d).2 :=
    { hd with held := fun k hk => hd.held k (hk.imp_left (hdeck k)) }
  refine Agrees.bind ⟨rfl, rfl, hleft⟩ fun _ _ => ?_
  cases found with
  | none => exact Respects.pure _ ⟨rfl, hleft⟩
  | some h =>
      exact meets_eq_iff.1
        (grip.push (.item ⟨rfl, hd.held h (.inl (hfound h rfl))⟩) ⟨rfl, hleft⟩)

theorem word {w : Word} (hpush : w.pushes = false) (push : String → Act Unit) :
    Pairs (Within (Confined own start reach)) Eq (w.run push) (w.run push) := by
  have hdeck {f : Deck → Deck} {h : Handle} (hr : reach h)
      (hf : ∀ d, ∀ k ∈ (f d).timeline, k ∈ d.timeline ∨ k ∈ [h]) :
      Pairs (Within (Confined own start reach)) Eq (Act.deck f) (Act.deck f) := by
    refine player fun p k hk => (hk.onDeck (hf _)).imp_right fun hk => ?_
    rwa [List.mem_singleton.1 hk]
  by_cases hg : w ≠ .play ∧ w.publishes = false
  · exact grip.word hg.1 hpush hg.2 push
  cases w with
  | play =>
      refine grip.pop.bind fun v w hv => .catalog fun d e hd => ?_
      obtain ⟨rfl, hreach⟩ := eq_of_tie hv
      obtain ⟨rfl, -⟩ := hd
      cases v with
      | item h =>
          dsimp only
          split
          · exact hdeck (hreach h rfl) fun d _ => (Deck.spliced_set h d).mem
          · exact grip.write _
      | literal text =>
          dsimp only
          split
          · exact grip.write _
          · exact .pure rfl
  | add =>
      refine (grip.popItem _).bind fun h k hk => .catalog fun d e hd => ?_
      obtain ⟨rfl, hr⟩ := hk
      obtain ⟨rfl, -⟩ := hd
      split
      · exact hdeck hr fun d _ => (Deck.spliced_add h d).mem
      · exact .pure rfl
  | insert =>
      refine (grip.popInteger _).bind fun index _ he => he ▸ (grip.popItem _).bind fun h k hk => ?_
      obtain ⟨rfl, hr⟩ := hk
      exact hdeck hr fun d _ => (Deck.spliced_insert index h d).mem
  | grab =>
      refine (grip.popInteger _).bind fun index _ he => he ▸ .look fun d e hd => ?_
      obtain ⟨rfl, hd⟩ := hd
      have hmem {k : Handle} (hk) := d.studio.player.deck.grab_mem index (k := k) hk
      exact meets_eq_iff.2 (giveUp hd (fun k hk => hmem (.inl hk)) fun k hk => hmem (.inr hk))
  | seek => exact (grip.popInteger _).bind fun position _ he => he ▸ seekNow position
  | speed | position | generation =>
      refine .look fun d e hd => ?_
      obtain ⟨rfl, hd⟩ := hd
      exact grip.pushText _ ⟨rfl, hd⟩
  | playing | playlist | previous =>
      refine .look fun d e hd => ?_
      obtain ⟨rfl, hd⟩ := hd
      exact writeItems _ ⟨rfl, hd⟩
  | includeScript => exact .modify fun d _ ⟨he, hd⟩ => he ▸ ⟨rfl, { hd with }⟩
  | status => cases hpush
  | _ => exact absurd ⟨by simp, rfl⟩ hg

theorem lead (w : Word) : Respects (Within (Confined own start reach)) w.lead := by
  refine Pairs.respects ?_
  by_cases hw : w.pushes = true
  · cases w with
    | status =>
        refine .look fun d e hd => ?_
        obtain ⟨rfl, hd⟩ := hd
        exact (Pairs.forM (fun n => grip.pushText _) _).bind (fun _ _ _ => .pure rfl) ⟨rfl, hd⟩
    | clone =>
        refine (grip.popItem _).bind fun h k hk => .catalog fun d e hd => ?_
        obtain ⟨rfl, hr⟩ := hk
        obtain ⟨rfl, -⟩ := hd
        exact (grip.push (.item ⟨rfl, hr⟩)).bind fun _ _ _ => .pure rfl
    | _ => cases hw
  · have hw : w.pushes = false := by simpa using hw
    rw [Word.lead_of_not_pushes hw]
    exact (word hw _).bind fun _ _ _ => .pure rfl

theorem forward (token : String) {d : Desk} (hd : Confined own start reach d) :
    Confined own start (fun h => reach h ∨ h = d.studio.catalog.items.size ∧
        h < ((Act.forward token).run d).2.studio.catalog.items.size)
      ((Act.forward token).run d).2 := by
  have he := d.console.interpreter.effect_push token d.studio.catalog
  have hout {h : Handle} (hh : own h) :
      .item h ∉ d.console.interpreter.machine.stack := fun hs => (hd.reach h (hd.stack h hs)).2 hh
  rw [Act.forward, run_interpreter]
  constructor
  · exact hd.popWord
  · rfl
  · exact fun h hh => (he.mem_stack hh).imp_left (hd.stack h)
  · exact fun h hh => .inl (hd.held h hh)
  · rintro h (hr | ⟨rfl, hlt⟩)
    · exact ⟨Nat.lt_of_lt_of_le (hd.reach h hr).1 he.size_le, (hd.reach h hr).2⟩
    · exact ⟨hlt, fun hh => Nat.lt_irrefl _ (hd.own _ hh).1⟩
  · intro h hh
    obtain ⟨hlt, hget⟩ := hd.own h hh
    exact ⟨Nat.lt_of_lt_of_le hlt he.size_le, (he.get_eq hlt (hout hh)).trans hget⟩

end Confined

/-- The items of `own` are as they were at the start, and are out of reach. -/
def Spares (own : Handle → Prop) (start : Catalog) (d : Desk) : Prop :=
  ∃ reach, Confined own start reach d

namespace Spares

variable {own : Handle → Prop} {start : Catalog}

theorem of_console {studio : Studio} {c c' : Console} (h : Spares own start ⟨studio, c⟩)
    (hi : c'.interpreter = c.interpreter) : Spares own start ⟨studio, c'⟩ := by
  obtain ⟨reach, h⟩ := h
  exact ⟨reach, { h with
    popWord := hi ▸ h.popWord, printed := hi ▸ h.printed, stack := hi ▸ h.stack }⟩

theorem of_confined {α : Type} {act : Act α}
    (h : ∀ reach, Respects (Within (Confined own start reach)) act) :
    Respects (Within (Spares own start)) act :=
  .of_keeps fun _ ⟨reach, hd⟩ => ⟨reach, (h reach).keeps hd⟩

theorem openAt (token : String) {d : Desk} (hd : Spares own start d) :
    Spares own start (Console.openAt token d).2 := by
  have hforward : Respects (Within (Spares own start)) (Act.forward token) :=
    .of_keeps fun d hd => hd.elim fun reach hd => ⟨_, hd.forward token⟩
  have hopening := respects_opening hforward (fun w => of_confined fun _ => Confined.lead w)
    (fun given => of_confined fun _ => (Confined.grip.assignStore given).respects)
    (fun p => .of_keeps fun d hd => hd.of_console rfl)
  exact (hopening _ _).keeps (hd.of_console rfl)

/-- Whatever is said at a console, with words inside words and scripts inside scripts. -/
theorem kept : Kept (fun _ => True) (Spares own start) where
  console hd hi _ := hd.of_console hi
  opens hd _ := hd.openAt _
  hands _ _ _ := Agenda.says_true _

theorem define (line : String) : Respects (Within (Spares own start)) (Console.define line) :=
  kept.define fun _ _ _ _ => trivial

end Spares

end Console

end Playout
