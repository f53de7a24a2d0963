import Playout.Media.Catalog
import Playout.Media.Uri

namespace Playout.Media

/-- A property that is set shows in nothing else, but for the frame count: it is what its property
says, and the play position follows the end. -/
theorem Item.set_cases {name value : String} {item changed : Item}
    (h : item.set name value = .ok changed) :
    (name = "frames" ∧ ∃ n, Number.integer? value.toList = some (Int.ofNat n) ∧
      changed = { item with
        properties := item.properties.set name value
        frames := n
        position := min item.position (n - 1) }) ∨
    (name ≠ "frames" ∧
      changed = { item with properties := item.properties.set name value }) := by
  unfold Item.set at h
  dsimp only at h
  split at h
  · rename_i hn
    split at h
    · cases h
      exact .inl ⟨hn, _, ‹_›, rfl⟩
    · cases h
  · rename_i hn
    refine .inr ⟨hn, ?_⟩
    split at h
    · split at h
      · split at h <;> cases h
        rfl
      · cases h
    · split at h
      · cases h
        rfl
      · split at h <;> cases h
        rfl

theorem Item.set_eq_ok {name value : String} {item changed : Item}
    (h : item.set name value = .ok changed) :
    ∃ position frames, changed =
        { item with properties := item.properties.set name value, position, frames } ∧
      if name = "frames" then Number.integer? value.toList = some (Int.ofNat frames)
      else frames = item.frames := by
  rcases set_cases h with ⟨hn, n, hf, rfl⟩ | ⟨hn, rfl⟩
  · exact ⟨_, _, rfl, by rwa [if_pos hn]⟩
  · exact ⟨_, _, rfl, by rw [if_neg hn]⟩

theorem Item.uri_set {name value : String} {item changed : Item}
    (h : item.set name value = .ok changed) : changed.uri = item.uri := by
  obtain ⟨position, frames, rfl, -⟩ := set_eq_ok h
  rfl

theorem Item.kind_set {name value : String} {item changed : Item}
    (h : item.set name value = .ok changed) : changed.kind = item.kind := by
  obtain ⟨position, frames, rfl, -⟩ := set_eq_ok h
  rfl

def Item.setAll (props : Properties) (item : Item) : Except MediaFault Item :=
  props.foldlM (fun item p => item.set p.1 p.2) item

theorem Item.setAll_cons {p : String × String} {item changed : Item}
    (h : item.set p.1 p.2 = .ok changed) (props : Properties) :
    item.setAll (p :: props) = changed.setAll props := by
  rw [setAll, List.foldlM_cons, h]
  rfl

theorem Item.isOk_set {item other : Item} (hk : other.kind = item.kind) (name value : String) :
    (other.set name value).isOk = (item.set name value).isOk := by
  unfold Item.set
  rw [hk]
  split
  · split <;> rfl
  · split
    · split
      · split <;> rfl
      · rfl
    · split
      · rfl
      · split <;> rfl

def Item.Inside (item : Item) : Prop := item.position ≤ item.last

theorem Item.inside_seek (target : Int) (item : Item) : (item.seek target).Inside :=
  Nat.min_le_right _ _

theorem Item.inside_fresh (uri : String) (kind : Kind) : (fresh uri kind).Inside := Nat.zero_le _

theorem Item.inside_testPattern (frames : Int) : (testPattern frames).Inside := Nat.zero_le _

theorem Item.position_set_le {name value : String} {item changed : Item}
    (h : item.set name value = .ok changed) : changed.position ≤ item.position := by
  rcases set_cases h with ⟨-, n, -, rfl⟩ | ⟨-, rfl⟩
  · exact Nat.min_le_left _ _
  · exact Nat.le_refl _

theorem Item.Inside.set {name value : String} {item changed : Item} (hi : item.Inside)
    (h : item.set name value = .ok changed) : changed.Inside := by
  rcases set_cases h with ⟨-, n, -, rfl⟩ | ⟨-, rfl⟩
  · exact Nat.min_le_right _ _
  · exact hi

theorem Item.Inside.fetch {item : Item} (hi : item.Inside) :
    item.fetch? = if 0 < item.frames then some ⟨item.position, item.uri⟩ else none := by
  have hp : item.position < item.frames ↔ 0 < item.frames := by
    rw [Inside, last] at hi
    omega
  simp only [fetch?, hp]

theorem Item.properties_fresh (uri : String) (kind : Kind) :
    (fresh uri kind).properties =
      match kind with
      | .testPattern => [("fps", "25"), ("frames", "250")]
      | .colour => [("colour", "black"), ("fps", "25"), ("frames", "1")] := by
  cases kind <;> rfl

theorem Uri.openItem_eq_ok {uri : String} {item : Item} (h : openItem uri = .ok item) :
    item = .fresh uri item.kind := by
  unfold openItem at h
  split at h
  · cases h
    rfl
  · cases h

theorem Uri.uri_openItem {uri : String} {item : Item} (h : openItem uri = .ok item) :
    item.uri = uri := by
  rw [openItem_eq_ok h]
  rfl

theorem Catalog.get_add (catalog : Catalog) (item : Item) (k : Handle) :
    (catalog.add item).2.get k = if k = catalog.items.size then item else catalog.get k := by
  simp only [get, add, Array.getD_eq_getD_getElem?, Array.getElem?_push]
  split <;> rfl

theorem Catalog.put_add (catalog : Catalog) (item other : Item) :
    (catalog.add item).2.put catalog.items.size other = (catalog.add other).2 := by
  simp [put, add, ← Array.toList_inj]

end Playout.Media
