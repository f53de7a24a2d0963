import Mathlib.Data.List.TakeWhile
import Playout.Proofs.Media.Properties
import Playout.Proofs.Stack.Effect

namespace Playout

open Media

namespace Text

theorem cut?_eq_some_iff (sep : Char) (text a b : List Char) :
    cut? sep text = some (a, b) ↔ text = a ++ sep :: b ∧ sep ∉ a := by
  constructor
  · intro h
    have hj := List.takeWhile_append_dropWhile (p := (· ≠ sep)) (l := text)
    unfold cut? at h
    cases hd : text.dropWhile (· ≠ sep) with
    | nil =>
        rw [hd] at h
        cases h
    | cons c rest =>
        rw [hd] at h hj
        cases h
        have hc := List.head_dropWhile_not (p := (· ≠ sep)) (l := text) (by simp only [hd]; simp)
        simp only [hd, List.head_cons, decide_eq_false_iff_not, Decidable.not_not] at hc
        rw [hc] at hj
        refine ⟨hj.symm, fun hm => ?_⟩
        simpa using List.mem_takeWhile_imp hm
  · rintro ⟨rfl, ha⟩
    have hp : ∀ c ∈ a, decide (c ≠ sep) = true := fun c hc =>
      decide_eq_true (ne_of_mem_of_not_mem hc ha)
    rw [cut?, List.dropWhile_append_of_pos hp, List.takeWhile_append_of_pos hp]
    simp

end Text

namespace Stack

theorem Machine.assignment?_eq_some_iff (token name value : String) :
    assignment? token = some (name, value) ↔
      token = name ++ "=" ++ value ∧ name ≠ "" ∧ '=' ∉ name.toList := by
  have hjoin (a b : List Char) : token.toList = a ++ '=' :: b ↔
      token = String.ofList a ++ "=" ++ String.ofList b := by
    rw [← String.toList_inj]
    simp
  constructor
  · intro h
    unfold assignment? at h
    split at h
    · rename_i c rest b hc
      obtain ⟨ht, hm⟩ := (Text.cut?_eq_some_iff _ _ _ _).1 hc
      cases h
      exact ⟨(hjoin _ _).1 ht, by simp [← String.toList_inj], by simpa using hm⟩
    · cases h
  · rintro ⟨ht, hne, hm⟩
    have hc : Text.cut? '=' token.toList = some (name.toList, value.toList) := by
      rw [Text.cut?_eq_some_iff, hjoin]
      simpa using ⟨ht, hm⟩
    have hcons : name.toList ≠ [] := fun he => hne (String.toList_inj.1 he)
    obtain ⟨c, rest, hn⟩ := List.exists_cons_of_ne_nil hcons
    have hname : String.ofList (c :: rest) = name := by rw [← hn, String.ofList_toList]
    rw [assignment?, hc, hn]
    dsimp only
    rw [hname, String.ofList_toList]

/-- What tokens make: an item that one opens, changed by assignments, and played or not. -/
inductive Built : Item → Prop
  | opened {token : String} {item : Item} (hn : Machine.assignment? token = none)
      (hu : Uri.isUri token.toList = true) (hi : Uri.openItem token = .ok item) : Built item
  | assigned {token name value : String} {item changed : Item} (h : Built item)
      (ht : Machine.assignment? token = some (name, value))
      (hs : item.set name value = .ok changed) : Built changed
  | placed {item : Item} (position : Nat) (h : Built item) : Built { item with position }

/-- What there is to know of such an item: its URI opens a fresh one of the kind, of which it has all
properties; each property is one that a token may set, and the frame count is what its property
says. -/
structure Sound (item : Item) : Prop where
  noAssignment : Machine.assignment? item.uri = none
  isUri : Uri.isUri item.uri.toList = true
  opens : Uri.openItem item.uri = .ok (.fresh item.uri item.kind)
  sorted : item.properties.Sorted
  assignments : ∀ p ∈ item.properties, Machine.assignment? (p.1 ++ "=" ++ p.2) = some p
  accepted : ∀ p ∈ item.properties, (item.set p.1 p.2).isOk = true
  frames : ∃ v, item.properties.get? "frames" = some v ∧
    Number.integer? v.toList = some (Int.ofNat item.frames)
  base : ∀ n, ((Item.fresh item.uri item.kind).properties.get? n).isSome →
    (item.properties.get? n).isSome

theorem sound_fresh {uri : String} {kind : Kind} (hn : Machine.assignment? uri = none)
    (hu : Uri.isUri uri.toList = true) (hi : Uri.openItem uri = .ok (.fresh uri kind)) :
    Sound (.fresh uri kind) := by
  have hp := Item.properties_fresh uri kind
  have hset : ∀ p ∈ (Item.fresh uri kind).properties,
      Machine.assignment? (p.1 ++ "=" ++ p.2) = some p ∧
        ((Item.fresh uri kind).set p.1 p.2).isOk = true := by
    rw [hp]
    cases kind <;>
      simp only [List.forall_mem_cons, List.not_mem_nil, false_implies, implies_true, and_true]
    · exact ⟨⟨rfl, rfl⟩, ⟨rfl, rfl⟩⟩
    · exact ⟨⟨rfl, rfl⟩, ⟨rfl, rfl⟩, ⟨rfl, rfl⟩⟩
  refine ⟨hn, hu, hi, ?_, fun p hp => (hset p hp).1, fun p hp => (hset p hp).2, ?_, fun _ => id⟩
  · cases kind <;> rw [hp, Properties.Sorted] <;> decide
  · cases kind <;> exact ⟨_, rfl, rfl⟩

theorem Sound.set {name value token : String} {item changed : Item} (h : Sound item)
    (ht : Machine.assignment? token = some (name, value))
    (hs : item.set name value = .ok changed) : Sound changed := by
  have hok (p : String × String) := Item.isOk_set (Item.kind_set hs) p.1 p.2
  have hnew : (item.set name value).isOk = true := by rw [hs]; rfl
  obtain ⟨position, frames, rfl, hf⟩ := Item.set_eq_ok hs
  obtain ⟨rfl, -, -⟩ := (Machine.assignment?_eq_some_iff token name value).1 ht
  refine ⟨h.noAssignment, h.isUri, h.opens, h.sorted.set name value, fun p hp => ?_,
    fun p hp => (hok p).trans ?_, ?_, fun n hn => ?_⟩
  · rcases Properties.mem_of_mem_set hp with rfl | hp
    · exact ht
    · exact h.assignments p hp
  · rcases Properties.mem_of_mem_set hp with rfl | hp
    · exact hnew
    · exact h.accepted p hp
  · simp only [Properties.get?_set]
    by_cases hn : name = "frames"
    · rw [if_pos hn] at hf
      exact ⟨value, by rw [if_pos hn.symm], hf⟩
    · rw [if_neg hn] at hf
      rw [if_neg (Ne.symm hn), hf]
      exact h.frames
  · simp only [Properties.get?_set]
    split
    · rfl
    · exact h.base n hn

theorem Sound.setAll {item : Item} (h : Sound item) {props : Properties}
    (hp : ∀ p ∈ props, Machine.assignment? (p.1 ++ "=" ++ p.2) = some p ∧
      (item.set p.1 p.2).isOk = true) :
    ∃ made, item.setAll props = .ok made ∧ Sound made ∧ made.uri = item.uri ∧
      made.kind = item.kind ∧ made.position ≤ item.position ∧
      made.properties = props.setAll item.properties := by
  induction props generalizing item with
  | nil => exact ⟨item, rfl, h, rfl, rfl, Nat.le_refl _, rfl⟩
  | cons p props ih =>
      obtain ⟨⟨ht, hset⟩, hp⟩ := List.forall_mem_cons.1 hp
      cases hs : item.set p.1 p.2 with
      | error cause =>
          rw [hs] at hset
          cases hset
      | ok changed =>
          have hkind := Item.kind_set hs
          have hok (q : String × String) := Item.isOk_set hkind q.1 q.2
          obtain ⟨made, hall, hm, huri, hk, hpos, hmade⟩ := ih (h.set ht hs)
            fun q hq => ⟨(hp q hq).1, (hok q).trans (hp q hq).2⟩
          have hle := Item.position_set_le hs
          obtain ⟨position, frames, rfl, -⟩ := Item.set_eq_ok hs
          exact ⟨made, (Item.setAll_cons hs props).trans hall, hm, huri, hk.trans hkind,
            Nat.le_trans hpos hle, hmade⟩

theorem Sound.frames_eq {item made : Item} (hi : Sound item) (hm : Sound made)
    (hp : made.properties = item.properties) : made.frames = item.frames := by
  obtain ⟨v, hv, hn⟩ := hi.frames
  obtain ⟨w, hw, hk⟩ := hm.frames
  rw [hp, hv] at hw
  cases hw
  rw [hn] at hk
  exact (Int.ofNat.inj (Option.some.inj hk)).symm

/-- A fresh item of the URI with all properties set is the item at its first frame. -/
theorem Sound.rebuild {item : Item} (h : Sound item) :
    (Item.fresh item.uri item.kind).setAll item.properties = .ok { item with position := 0 } := by
  have hfresh := sound_fresh h.noAssignment h.isUri h.opens
  have hkind : (Item.fresh item.uri item.kind).kind = item.kind := rfl
  obtain ⟨made, hall, hm, huri, hk, hpos, hprops⟩ := hfresh.setAll fun p hp =>
    ⟨h.assignments p hp, (Item.isOk_set hkind _ _).trans (h.accepted p hp)⟩
  have hsame : made.properties = item.properties :=
    hprops.trans (Properties.setAll_eq_self h.sorted hfresh.sorted h.base)
  have hframes := h.frames_eq hm hsame
  have hzero : made.position = 0 := Nat.le_zero.1 hpos
  obtain ⟨uri, kind, position, frames, properties⟩ := made
  obtain rfl : uri = item.uri := huri
  obtain rfl : kind = item.kind := hk
  obtain rfl : position = 0 := hzero
  obtain rfl : frames = item.frames := hframes
  obtain rfl : properties = item.properties := hsame
  exact hall

/-- A property of items that tokens of one kind keep. What has it is spelled with tokens of the kind
again. -/
structure Making (V : String → Prop) (P : Item → Prop) : Prop where
  unopened : P (.testPattern 0)
  opened : ∀ {token item}, V token → Machine.assignment? token = none →
    Uri.isUri token.toList = true → Uri.openItem token = .ok item → P item
  assigned : ∀ {token name value item changed}, P item → V token →
    Machine.assignment? token = some (name, value) → item.set name value = .ok changed → P changed
  spelled : ∀ {item}, P item → ∀ t ∈ item.uri :: item.assignments, V t

theorem built_testPattern : Built (.testPattern 0) := by
  have hi : Uri.openItem "test:" = .ok (.fresh "test:" .testPattern) := rfl
  have ht : Machine.assignment? "frames=0" = some ("frames", "0") := by decide
  have hs : (Item.fresh "test:" .testPattern).set "frames" "0" = .ok (.testPattern 0) := rfl
  exact .assigned (.opened (by decide) (by decide) hi) ht hs

theorem making_built : Making (fun _ => True) Built where
  unopened := built_testPattern
  opened _ hn hu hi := .opened hn hu hi
  assigned h _ ht hs := .assigned h ht hs
  spelled _ _ _ := trivial

def Spelled (V : String → Prop) (item : Item) : Prop := ∀ t ∈ item.uri :: item.assignments, V t

def initialTokens : List String :=
  ["test:", "frames=0", "frames=1", "frames=250", "fps=25", "colour=black"]

theorem making_spelled {V : String → Prop} (hv : ∀ t ∈ initialTokens, V t) :
    Making V (Spelled V) where
  unopened t ht := hv t (by revert t; decide)
  opened {token item} ht _ _ hi := by
    rw [Uri.openItem_eq_ok hi]
    refine List.forall_mem_cons.2 ⟨ht, fun given hg => hv given ?_⟩
    revert given
    rw [Item.assignments, Item.properties_fresh]
    cases item.kind <;> decide
  assigned {token name value item changed} hp hv ht hs := by
    obtain ⟨huri, hgiven⟩ := List.forall_mem_cons.1 hp
    obtain ⟨position, frames, rfl, -⟩ := Item.set_eq_ok hs
    obtain ⟨rfl, -⟩ := (Machine.assignment?_eq_some_iff token name value).1 ht
    refine List.forall_mem_cons.2 ⟨huri, fun given hg => ?_⟩
    obtain ⟨p, hp, rfl⟩ := List.mem_map.1 hg
    rcases Properties.mem_of_mem_set hp with rfl | hp
    · exact hv
    · exact hgiven _ (List.mem_map.2 ⟨p, hp, rfl⟩)
  spelled := id

section Making

variable {V : String → Prop} {P : Item → Prop} (hm : Making V P) {token : String} (ht : V token)
  {catalog : Catalog} (hc : ∀ h, P (catalog.get h))

include hm ht hc

theorem Making.assign {name value : String} (ha : Machine.assignment? token = some (name, value))
    (m : Machine) (h : Handle) : P ((m.assign name value catalog).2.get h) := by
  unfold Machine.assign
  split
  · split
    · rename_i hs
      rw [Catalog.get_put]
      split
      · exact hm.assigned (hc _) ht ha hs
      · exact hc h
    · exact hc h
  · exact hc h

theorem Making.enter (m : Machine) (h : Handle) : P ((m.enter token catalog).2.1.get h) := by
  unfold Machine.enter
  split
  · exact hc h
  · split
    · exact hm.assign ht hc ‹_› m h
    · rename_i ha
      split
      · rename_i hu
        split
        · exact hc h
        · rename_i hi
          rw [Catalog.get_add]
          split
          · exact hm.opened ht ha hu hi
          · exact hc h
      · exact hc h

theorem Making.push (i : Interpreter) (h : Handle) : P ((i.push token catalog).2.1.get h) := by
  change P ((i.machine.execute token catalog).2.1.get h)
  unfold Machine.execute
  split
  · exact hc h
  · exact hm.enter ht hc i.machine h

end Making

theorem Built.sound {item : Item} (h : Built item) : Sound item := by
  induction h with
  | @opened token item hn hu hi =>
      have he := Uri.openItem_eq_ok hi
      rw [he] at hi ⊢
      exact sound_fresh hn hu hi
  | assigned h ht hs ih => exact ih.set ht hs
  | @placed item position h ih =>
      have hkind : ({ item with position } : Item).kind = item.kind := rfl
      exact { ih with accepted := fun p hp => (Item.isOk_set hkind _ _).trans (ih.accepted p hp) }

end Stack

end Playout
