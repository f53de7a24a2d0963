import Playout.Proofs.Console.Making
import Playout.Proofs.Console.Placing
import Playout.Proofs.Token.Rejoin

namespace Playout

open Media Stack

namespace Console

open Act

/-- As the desk was at the start, with one more item, which is on top. -/
structure Upon (start : Desk) (item : Item) (d : Desk) : Prop where
  studio : d.studio = { start.studio with catalog := (start.studio.catalog.add item).2 }
  stack : d.console.interpreter.machine.stack =
    .item start.studio.catalog.items.size :: start.console.interpreter.machine.stack
  console : d.console = { start.console with interpreter := d.console.interpreter }

theorem upon_place (item : Item) (start : Desk) : Upon start item (start.place item) :=
  ⟨rfl, rfl, rfl⟩

/-- The line that an item is printed as puts a new item on top that has the same URI, frames and
properties, and leaves what there was as it was. -/
def Redefines (item : Item) (start : Desk) : Prop :=
  ∃ made d, (Console.define item.render).run start = (.ok (), d) ∧ Upon start made d ∧
    made.uri = item.uri ∧ made.frames = item.frames ∧ made.properties = item.properties

theorem redefines_of_ofLine {item : Item} {start : Desk} (hi : Sound item)
    (hp : start.console.pending = none) (hd : start.console.defined = [])
    (hl : Token.ofLine item.render = .ok (item.uri :: item.assignments)) :
    Redefines item start := by
  have hrun : ((item.uri :: item.assignments).forM Console.push).run start =
      (.ok (), start.place { item with position := 0 }) :=
    run_pushAt_spelled hp hd (levels - 1) hi
  refine ⟨{ item with position := 0 }, start.place { item with position := 0 }, ?_,
    upon_place _ start, rfl, rfl, rfl⟩
  rw [define, defineWith, hl, run_orIdle]
  dsimp only
  rw [hrun]

/-- The tokens that come up at a new desk without being said. -/
def familiar : List String := [".", "dot"] ++ initialTokens

theorem representable_of_mem_familiar {t : String} (h : t ∈ familiar) :
    Token.Representable t.toList := by
  have hplain : ∀ t ∈ familiar, ' ' ∉ t.toList ∧ '"' ∉ t.toList := by decide
  obtain ⟨hs, hq⟩ := hplain t h
  refine (Token.representable_iff_unquoted_or_paired _).2 (.inl ⟨hq, fun hm => hs ?_⟩)
  exact hm.subset (by simp)

theorem worded_new {V : String → Prop} (hv : ∀ t ∈ familiar, V t) :
    Worded V (Spelled V) ⟨{}, {}⟩ where
  items _ := (making_spelled fun t ht => hv t (by simp [familiar, ht])).unopened
  popWord := hv "dot" (by decide)
  defined := nofun
  scripts path script hs := absurd hs (Files.readText_empty path script)

/-- At a new desk an item is spelled with tokens that were said, or with familiar ones. -/
theorem spelled_of_define {line : String} {us : List String} (hl : Token.ofLine line = .ok us)
    (k : Handle) :
    Spelled (fun t => t ∈ us ∨ t ∈ familiar)
      (((Console.define line).run ⟨{}, {}⟩).2.studio.catalog.get k) := by
  have hv : ∀ t ∈ familiar, t ∈ us ∨ t ∈ familiar := fun _ => .inr
  have hm := making_spelled (V := fun t => t ∈ us ∨ t ∈ familiar) fun t ht =>
    hv t (by simp [familiar, ht])
  have hsaid (ts : List String) (ht : Token.ofLine line = .ok ts) :
      ∀ t ∈ ts, t ∈ us ∨ t ∈ familiar := by
    rw [hl] at ht
    cases ht
    exact fun _ => .inl
  have hkept := (kept_worded hm (hv "." (by decide))).define hsaid
  exact (hkept.keeps (worded_new hv)).items k

/-- What is not said at a new desk is not in an item there. So a line that defines the item again says
all its tokens. -/
theorem ofLine_of_redefines {item : Item} (h : Redefines item ⟨{}, {}⟩) :
    Token.ofLine item.render = .ok (item.uri :: item.assignments) := by
  obtain ⟨made, d, hrun, hd, huri, -, hprops⟩ := h
  cases hl : Token.ofLine item.render with
  | error fault =>
      rw [define, defineWith, hl] at hrun
      cases hrun
  | ok us =>
      have hspelled := spelled_of_define hl 0
      have hget : d.studio.catalog.get 0 = made := by
        rw [hd.studio]
        exact Catalog.get_add_self _ _
      rw [hrun, hget, Spelled, Item.assignments, huri, hprops, ← Item.assignments] at hspelled
      rw [← hl]
      rw [Item.render, Token.ofLine_toLine] at hl ⊢
      rw [Token.scan_join_iff]
      refine Token.representable_of_scan_join hl (List.forall_mem_map.2 fun t ht => ?_)
      exact (hspelled t ht).imp List.mem_map_of_mem representable_of_mem_familiar

/-- The line of an item defines it again wherever no word is waited for and none is defined, exactly
if its URI and every assignment are tokens that a line can hold. -/
theorem redefines_iff {item : Item} (h : Built item) :
    (∀ start : Desk, start.console.pending = none → start.console.defined = [] →
        Redefines item start) ↔
      ∀ t ∈ item.uri :: item.assignments, Token.Unquoted t.toList ∨ Token.Paired t.toList := by
  have hread : Token.ofLine item.render = .ok (item.uri :: item.assignments) ↔
      ∀ t ∈ item.uri :: item.assignments, Token.Unquoted t.toList ∨ Token.Paired t.toList := by
    rw [Item.render, Token.ofLine_toLine, Token.scan_join_iff, List.forall_mem_map]
    exact forall₂_congr fun t _ => Token.representable_iff_unquoted_or_paired t.toList
  rw [← hread]
  exact ⟨fun hr => ofLine_of_redefines (hr ⟨{}, {}⟩ rfl rfl),
    fun hl start hp hd => redefines_of_ofLine h.sound hp hd hl⟩

theorem redefines_quoted :
    let item : Item :=
      { uri := "colour:\"b  c\"", kind := .colour, position := 0, frames := 1
        properties := [("@note", "d  e"), ("colour", "black"), ("fps", "25"), ("frames", "1")] }
    Built item ∧ ∀ start : Desk, start.console.pending = none → start.console.defined = [] →
      Redefines item start := by
  intro item
  have hi : Uri.openItem item.uri = .ok (.fresh item.uri .colour) := by decide +kernel
  have ht : Machine.assignment? "@note=d  e" = some ("@note", "d  e") := by decide
  have hs : (Item.fresh item.uri .colour).set "@note" "d  e" = .ok item := rfl
  have hb : Built item := .assigned (.opened (by decide) (by decide) hi) ht hs
  have hl : ∀ t ∈ item.uri :: item.assignments, Token.Representable t.toList := by
    rw [← List.forall_mem_map, ← Token.scan_join_iff]
    decide +kernel
  exact ⟨hb, (redefines_iff hb).2 fun t ht =>
    (Token.representable_iff_unquoted_or_paired _).1 (hl t ht)⟩

theorem not_redefines_commented :
    let item : Item :=
      { uri := "test:x", kind := .testPattern, position := 0, frames := 250
        properties := [("@note", "a #b"), ("fps", "25"), ("frames", "250")] }
    Built item ∧
      ∀ start : Desk, ((Console.define item.render).run start).1 =
          .error (.parse (.unterminatedQuote "\"@note=a")) ∧ ¬Redefines item start := by
  intro item
  have hi : Uri.openItem item.uri = .ok (.fresh item.uri .testPattern) := by decide +kernel
  have ht : Machine.assignment? "@note=a #b" = some ("@note", "a #b") := by decide
  have hs : (Item.fresh item.uri .testPattern).set "@note" "a #b" = .ok item := rfl
  have hl : Token.ofLine item.render = .error (.unterminatedQuote "\"@note=a") := by
    decide +kernel
  have hr (start : Desk) : ((Console.define item.render).run start).1 =
      .error (.parse (.unterminatedQuote "\"@note=a")) := by
    rw [define, defineWith, hl]
    rfl
  refine ⟨.assigned (.opened (by decide) (by decide) hi) ht hs, fun start => ⟨hr start, ?_⟩⟩
  rintro ⟨made, d, h, -⟩
  have herror := hr start
  rw [h] at herror
  cases herror

end Console

end Playout
