import Playout.Proofs.Media.Item
import Playout.Proofs.Media.Properties
import Playout.Proofs.Number.Reading

namespace Playout.Media

def Named (kind : Kind) (name : String) : Prop :=
  name = "frames" ∨ name = "fps" ∨ (name = "colour" ∧ kind = .colour) ∨
    name.toList.head? = some '@'

namespace Item

/-- What holds of an item at all times. -/
structure Wellformed (item : Item) : Prop where
  inside : item.Inside
  fits : Number.Fits item.frames
  sorted : item.properties.Sorted
  frames : ∃ v, item.properties.get? "frames" = some v ∧
    Number.integer? v.toList = some (item.frames : Int)
  rate : ∃ v n, item.properties.get? "fps" = some v ∧ Number.integer? v.toList = some n ∧ 0 < n
  colour : (item.properties.get? "colour").isSome ↔ item.kind = .colour
  named : ∀ name, (item.properties.get? name).isSome → Named item.kind name

/-- An item as it comes about: one that a URI opens, or a test pattern of some length. -/
inductive Made : Item → Prop
  | opened {uri : String} {item : Item} (h : Uri.openItem uri = .ok item) : Made item
  | generated {frames : Int} (h : Number.Fits frames) : Made (.testPattern frames)

theorem named_of_set {name value : String} {item changed : Item}
    (h : item.set name value = .ok changed) : Named item.kind name := by
  unfold Item.set at h
  dsimp only at h
  split at h
  · exact .inl ‹_›
  · split at h
    · exact .inr (.inl ‹_›)
    · split at h
      · exact .inr (.inr (.inl ‹_›))
      · split at h
        · exact .inr (.inr (.inr ‹_›))
        · cases h

theorem rate_of_set {value : String} {item changed : Item}
    (h : item.set "fps" value = .ok changed) :
    ∃ n, Number.integer? value.toList = some n ∧ 0 < n := by
  unfold Item.set at h
  rw [if_neg (by decide), if_pos rfl] at h
  split at h
  · rename_i n hn
    split at h
    · exact ⟨n, hn, ‹_›⟩
    · cases h
  · cases h

theorem wellformed_fresh (uri : String) (kind : Kind) : (fresh uri kind).Wellformed where
  inside := inside_fresh uri kind
  fits := by
    have h : Number.Fits (defaultFrames kind) := by cases kind <;> decide
    exact h
  sorted := by rw [properties_fresh, Properties.Sorted]; cases kind <;> decide
  frames := by cases kind <;> exact ⟨_, rfl, rfl⟩
  rate := by cases kind <;> exact ⟨_, _, rfl, rfl, by decide⟩
  colour := by
    have h : ((fresh "" kind).properties.get? "colour").isSome ↔ kind = .colour := by
      cases kind <;> decide
    exact h
  named := by
    intro name hname
    rw [properties_fresh] at hname
    cases kind <;> simp only [Properties.get?_cons, Properties.get?_nil] at hname <;>
      grind [Named, fresh]

theorem Wellformed.seek {item : Item} (h : item.Wellformed) (target : Int) :
    (item.seek target).Wellformed :=
  { h with inside := inside_seek target item }

theorem Wellformed.set {item changed : Item} (h : item.Wellformed) {name value : String}
    (hs : item.set name value = .ok changed) : changed.Wellformed := by
  have hname := named_of_set hs
  have hinside := h.inside.set hs
  have hset := hs
  obtain ⟨position, frames, rfl, hf⟩ := set_eq_ok hs
  refine ⟨hinside, ?_, h.sorted.set name value, ?_, ?_, ?_, fun other => ?_⟩
  · split at hf
    · exact Number.fits_of_integer? hf
    · exact hf ▸ h.fits
  · rw [Properties.get?_set]
    split
    · rename_i hn
      rw [if_pos hn.symm] at hf
      exact ⟨value, rfl, hf⟩
    · rename_i hn
      rw [if_neg (Ne.symm hn)] at hf
      exact hf ▸ h.frames
  · rw [Properties.get?_set]
    split
    · rename_i hn
      obtain rfl := hn
      obtain ⟨n, hn⟩ := rate_of_set hset
      exact ⟨value, n, rfl, hn⟩
    · exact h.rate
  · rw [Properties.get?_set]
    split
    · rename_i hn
      obtain rfl := hn
      have hkind : item.kind = .colour := by
        rcases hname with hn | hn | ⟨-, hk⟩ | hn
        · exact absurd hn (by decide)
        · exact absurd hn (by decide)
        · exact hk
        · exact absurd hn (by decide)
      exact iff_of_true rfl hkind
    · exact h.colour
  · rw [Properties.get?_set]
    split
    · rename_i hn
      exact fun _ => hn ▸ hname
    · exact h.named other

theorem set_fresh_frames {frames : Int} (h : Number.Fits frames) :
    (fresh "test:" .testPattern).set "frames" (Number.ofInteger frames.toNat) =
      .ok (testPattern frames) := by
  have hfits : Number.Fits (frames.toNat : Int) := by
    rw [Number.fits_iff] at h ⊢
    omega
  have hread := Number.integer?_ofInteger hfits
  rw [Item.set, if_pos rfl, hread]
  simp [testPattern, fresh]

theorem Made.wellformed {item : Item} (h : item.Made) : item.Wellformed := by
  cases h with
  | opened h =>
      rw [Uri.openItem_eq_ok h]
      exact wellformed_fresh _ _
  | generated h => exact (wellformed_fresh _ _).set (set_fresh_frames h)

end Item

structure Cells where
  position : Int
  frames : Int
  properties : Properties
  deriving DecidableEq, Repr

def Item.cells (item : Item) : Cells := ⟨item.position, item.frames, item.properties⟩

inductive Touch where
  | seek (target : Int)
  | seekBy (distance : Int)
  | set (name value : String)
  | fetch

inductive Answer where
  | done
  | refused (cause : MediaFault)
  | shown (frame : Option Frame)
  deriving DecidableEq, Repr

def Touch.apply (item : Item) : Touch → Answer × Item
  | seek target => (.done, item.seek target)
  | seekBy distance => (.done, item.seekBy distance)
  | set name value =>
    match item.set name value with
    | .ok changed => (.done, changed)
    | .error cause => (.refused cause, item)
  | fetch => (.shown item.fetch?, item)

namespace Cells

def saturated (n : Int) : Int := max Number.least64 (min n Number.greatest64)

def moveTo (target : Int) (cells : Cells) : Option Cells := do
  let last ← Number.checked (cells.frames - 1)
  return { cells with position := max 0 (min target (max last 0)) }

def store (name value : String) (cells : Cells) : Answer × Cells :=
  (.done, { cells with properties := cells.properties.set name value })

def set (kind : Kind) (name value : String) (cells : Cells) : Option (Answer × Cells) :=
  if name = "frames" then
    match Number.integer? value.toList with
    | none => some (.refused (.frameCount value), cells)
    | some frames =>
      if frames < 0 then some (.refused (.frameCount value), cells)
      else do
        let cells := { cells with frames }
        let last ← Number.checked (cells.frames - 1)
        let cells := { cells with position := min cells.position (max last 0) }
        return cells.store name value
  else if name = "fps" then
    match Number.integer? value.toList with
    | none => some (.refused (.frameRate value), cells)
    | some rate =>
      if rate ≤ 0 then some (.refused (.frameRate value), cells)
      else some (cells.store name value)
  else if name = "colour" ∧ kind = .colour then some (cells.store name value)
  else if name.toList.head? = some '@' then some (cells.store name value)
  else some (.refused (.unknownProperty name), cells)

end Cells

/-- The same on the cells, one after the other; none if a result does not fit in 64 bits. -/
def Touch.perform (uri : String) (kind : Kind) (cells : Cells) : Touch → Option (Answer × Cells)
  | seek target => (cells.moveTo target).map fun cells => (.done, cells)
  | seekBy distance =>
    (cells.moveTo (Cells.saturated (cells.position + distance))).map fun cells => (.done, cells)
  | set name value => cells.set kind name value
  | fetch =>
    some (.shown (if 0 ≤ cells.position ∧ cells.position < cells.frames then
      some ⟨cells.position.toNat, uri⟩ else none), cells)

namespace Item

variable {item : Item}

theorem Wellformed.moveTo (h : item.Wellformed) (target : Int) :
    item.cells.moveTo target = some (item.seek target).cells := by
  have hfits := (Number.fits_iff _).1 h.fits
  have hlast : Number.checked (item.cells.frames - 1) = some ((item.frames : Int) - 1) :=
    Number.checked_of_fits ((Number.fits_iff _).2 (by simp only [cells]; omega))
  have hposition : max 0 (min target (max ((item.frames : Int) - 1) 0)) =
      ((item.seek target).position : Int) := by
    simp only [Item.seek, last]
    omega
  simp only [Cells.moveTo, hlast, Option.bind_eq_bind, Option.bind_some, Option.pure_def, hposition]
  rfl

/-- What is held back by the range of a sum is beyond the ends of the item anyway. -/
theorem Wellformed.moveTo_saturated (h : item.Wellformed) (distance : Int) :
    item.cells.moveTo (Cells.saturated (item.cells.position + distance)) =
      some (item.seekBy distance).cells := by
  have hfits := (Number.fits_iff _).1 h.fits
  have hsame : item.seek (Cells.saturated (item.cells.position + distance)) =
      item.seekBy distance := by
    have hposition : min (Cells.saturated (item.cells.position + distance)).toNat item.last =
        min (item.position + distance).toNat item.last := by
      simp only [cells, Cells.saturated, Number.least64, Number.greatest64, last]
      omega
    rw [seekBy, Item.seek, Item.seek, hposition]
  rw [h.moveTo, hsame]

theorem cells_set (item : Item) (name value : String) :
    item.cells.set item.kind name value =
      some (((Touch.set name value).apply item).1, ((Touch.set name value).apply item).2.cells) := by
  rw [Cells.set, Touch.apply, Item.set]
  split
  · cases hv : Number.integer? value.toList with
    | none => rfl
    | some n =>
        cases n with
        | negSucc n =>
            have hn : Int.negSucc n < 0 := Int.negSucc_lt_zero n
            simp only [if_pos hn]
        | ofNat n =>
            have hfits : Number.Fits (n : Int) := Number.fits_of_integer? hv
            rw [Number.fits_iff] at hfits
            have hlast : Number.checked ((n : Int) - 1) = some ((n : Int) - 1) :=
              Number.checked_of_fits ((Number.fits_iff _).2 (by omega))
            have hposition : min (item.position : Int) (max ((n : Int) - 1) 0) =
                (min item.position (n - 1) : Nat) := by
              omega
            simp only [Int.ofNat_eq_natCast, Int.not_ofNat_neg, if_false, hlast,
              Option.bind_eq_bind, Option.bind_some, Option.pure_def, Cells.store, cells, hposition]
  split
  · cases hv : Number.integer? value.toList with
    | none => rfl
    | some n =>
        by_cases hn : 0 < n
        · simp only [Int.not_le.2 hn, hn, if_true, if_false]
          rfl
        · simp only [Int.not_lt.1 hn, hn, if_true, if_false]
  split
  · rfl
  · split <;> rfl

theorem Wellformed.perform (h : item.Wellformed) (t : Touch) :
    t.perform item.uri item.kind item.cells = some ((t.apply item).1, (t.apply item).2.cells) := by
  cases t with
  | seek target => rw [Touch.perform, h.moveTo, Option.map_some, Touch.apply]
  | seekBy distance =>
      rw [Touch.perform, h.moveTo_saturated, Option.map_some, Touch.apply]
  | set name value => exact cells_set item name value
  | fetch => simp [Touch.perform, Touch.apply, cells, fetch?]

theorem Wellformed.apply (h : item.Wellformed) (t : Touch) : (t.apply item).2.Wellformed := by
  cases t with
  | seek target => exact h.seek target
  | seekBy distance => exact h.seek _
  | set name value =>
      rw [Touch.apply]
      split
      · exact h.set ‹_›
      · exact h
  | fetch => exact h

theorem kept_apply (item : Item) (t : Touch) :
    (t.apply item).2.uri = item.uri ∧ (t.apply item).2.kind = item.kind := by
  cases t with
  | seek target | seekBy distance | fetch => exact ⟨rfl, rfl⟩
  | set name value =>
      rw [Touch.apply]
      split
      · exact ⟨uri_set ‹_›, kind_set ‹_›⟩
      · exact ⟨rfl, rfl⟩

theorem apply_of_refused {t : Touch} {cause : MediaFault}
    (h : (t.apply item).1 = .refused cause) : (t.apply item).2 = item := by
  cases t with
  | seek | seekBy | fetch => cases h
  | set name value =>
      rw [Touch.apply] at h ⊢
      split
      · rename_i hs
        rw [hs] at h
        cases h
      · rfl

def after (item : Item) (touches : List Touch) : Item :=
  touches.foldl (fun item t => (t.apply item).2) item

theorem Wellformed.after (h : item.Wellformed) (touches : List Touch) :
    (item.after touches).Wellformed ∧ (item.after touches).uri = item.uri ∧
      (item.after touches).kind = item.kind ∧
      touches.foldlM (fun cells t => (t.perform item.uri item.kind cells).map (·.2)) item.cells =
        some (item.after touches).cells := by
  induction touches generalizing item with
  | nil => exact ⟨h, rfl, rfl, rfl⟩
  | cons t touches ih =>
      obtain ⟨huri, hkind⟩ := kept_apply item t
      obtain ⟨hafter, hu, hk, hrun⟩ := ih (h.apply t)
      rw [huri, hkind] at hrun
      refine ⟨hafter, hu.trans huri, hk.trans hkind, ?_⟩
      rw [List.foldlM_cons, h.perform]
      exact hrun

/-- Whatever is done with an item, it stays what it was opened as and well formed, at a frame between
the first and the last, which is the one it shows. Done on its cells in 64 bits, every step has a
result, and it is the same one; a step that is refused leaves the cells as they were. -/
theorem after_wellformed {item : Item} (h : item.Made) (touches : List Touch) :
    let made := item.after touches
    made.Wellformed ∧ made.uri = item.uri ∧ made.kind = item.kind ∧
    (0 ≤ made.cells.frames ∧ 0 ≤ made.cells.position ∧
      made.cells.position ≤ max (made.cells.frames - 1) 0) ∧
    made.fetch? = (if 0 < made.frames then some ⟨made.position, item.uri⟩ else none) ∧
    touches.foldlM (fun cells t => (t.perform item.uri item.kind cells).map (·.2)) item.cells =
      some made.cells ∧
    ∀ t : Touch,
      t.perform item.uri item.kind made.cells =
        some ((t.apply made).1, (t.apply made).2.cells) ∧
      ∀ cause cells, t.perform item.uri item.kind made.cells = some (.refused cause, cells) →
        cells = made.cells := by
  intro made
  obtain ⟨hmade, huri, hkind, hrun⟩ := h.wellformed.after touches
  have hperform (t : Touch) : t.perform item.uri item.kind made.cells =
      some ((t.apply made).1, (t.apply made).2.cells) := by
    rw [← huri, ← hkind]
    exact hmade.perform t
  refine ⟨hmade, huri, hkind, ⟨Int.natCast_nonneg _, Int.natCast_nonneg _, ?_⟩, ?_, hrun,
    fun t => ⟨hperform t, fun cause cells hr => ?_⟩⟩
  · have hinside : made.position ≤ made.frames - 1 := hmade.inside
    simp only [cells]
    omega
  · rw [hmade.inside.fetch, huri]
  · rw [hperform] at hr
    obtain ⟨hcause, rfl⟩ := Prod.mk.inj (Option.some.inj hr)
    rw [apply_of_refused hcause]

theorem after_wellformed_shortened :
    let item := fresh "colour:red" .colour
    let touches : List Touch := [.set "frames" "9", .seekBy Number.greatest64, .set "fps" "0",
      .seekBy (-3), .set "frames" "+3", .set "colour" "blue", .set "@note" "", .set "note" "x"]
    let made := item.after touches
    item.Made ∧ made.Wellformed ∧ made.fetch? = some ⟨2, "colour:red"⟩ ∧
      Touch.perform "colour:red" .colour made.cells (.set "frames" "-1") =
        some (.refused (.frameCount "-1"), made.cells) := by
  intro item touches made
  have hi : item.Made := .opened (show Uri.openItem "colour:red" = .ok item from rfl)
  obtain ⟨hmade, -, -, -, hfetch, -, hperform⟩ := after_wellformed hi touches
  have hplace : made.frames = 3 ∧ made.position = 2 := by decide +kernel
  rw [hplace.1, hplace.2] at hfetch
  exact ⟨hi, hmade, hfetch, (hperform (.set "frames" "-1")).1⟩

end Item

end Playout.Media
