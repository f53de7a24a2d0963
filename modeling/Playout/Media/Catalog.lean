import Playout.Media.Item

namespace Playout.Media

abbrev Handle := Nat

structure Catalog where
  items : Array Item := #[]

namespace Catalog

/-- The item of a handle. A handle that was never given out shows an empty item. -/
def get (catalog : Catalog) (h : Handle) : Item :=
  catalog.items.getD h (.testPattern 0)

def add (catalog : Catalog) (item : Item) : Handle × Catalog :=
  (catalog.items.size, ⟨catalog.items.push item⟩)

def put (catalog : Catalog) (h : Handle) (item : Item) : Catalog :=
  ⟨catalog.items.setIfInBounds h item⟩

def modify (catalog : Catalog) (h : Handle) (f : Item → Item) : Catalog :=
  catalog.put h (f (catalog.get h))

theorem get_put_self {catalog : Catalog} {h : Handle} (hh : h < catalog.items.size) (item : Item) :
    (catalog.put h item).get h = item := by
  simp [get, put, hh]

theorem get_put_of_ne (catalog : Catalog) {h k : Handle} (hk : h ≠ k) (item : Item) :
    (catalog.put h item).get k = catalog.get k := by
  simp [get, put, hk]

theorem get_put (catalog : Catalog) (h k : Handle) (item : Item) :
    (catalog.put h item).get k = if h = k ∧ h < catalog.items.size then item else catalog.get k := by
  by_cases hk : h = k
  · subst hk
    by_cases hh : h < catalog.items.size
    · simp [hh, get_put_self hh]
    · simp [get, put, hh]
  · simp [hk, get_put_of_ne catalog hk]

theorem get_put_congr {α : Type} (f : Item → α) (catalog : Catalog) {h : Handle} {item : Item}
    (hi : f item = f (catalog.get h)) (k : Handle) :
    f ((catalog.put h item).get k) = f (catalog.get k) := by
  rw [get_put]
  split
  · rename_i hk
    rw [hi, hk.1]
  · rfl

theorem get_modify_congr {α : Type} (f : Item → α) (catalog : Catalog) (h : Handle)
    (g : Item → Item) (hg : ∀ item, f (g item) = f item) (k : Handle) :
    f ((catalog.modify h g).get k) = f (catalog.get k) :=
  get_put_congr f catalog (hg _) k

theorem lt_size_of_frames_pos {catalog : Catalog} {h : Handle} (hf : 0 < (catalog.get h).frames) :
    h < catalog.items.size := by
  by_cases hh : h < catalog.items.size
  · exact hh
  · simp [get, Array.getD, hh, Item.testPattern] at hf

theorem position_modify_seek_zero (catalog : Catalog) (h : Handle) :
    ((catalog.modify h (Item.seek 0)).get h).position = 0 := by
  rw [modify, get_put]
  split
  · simp [Item.seek]
  · rename_i hh
    simp only [true_and] at hh
    simp [get, Array.getD, hh, Item.testPattern, Item.fresh]

theorem get_add_self (catalog : Catalog) (item : Item) :
    (catalog.add item).2.get (catalog.add item).1 = item := by
  simp [get, add]

theorem get_add_of_lt {catalog : Catalog} {k : Handle} (hk : k < catalog.items.size) (item : Item) :
    (catalog.add item).2.get k = catalog.get k := by
  simp [get, add, Array.getElem?_push, Nat.ne_of_lt hk]

end Catalog

end Playout.Media
