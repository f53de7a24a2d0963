import Playout.Proofs.Media.Item
import Playout.Stack.Interpreter

namespace Playout

open Media

namespace Stack

/-- From one catalog and stack to another, by one token. -/
inductive Effect (catalog : Catalog) (stack : List Value) : Catalog → List Value → Prop
  | moved {stack' : List Value} (h : ∀ k, .item k ∈ stack' → .item k ∈ stack) :
    Effect catalog stack catalog stack'
  | changed {k : Handle} {below : List Value} {name value : String} {item : Item}
    (hs : stack = .item k :: below) (hi : (catalog.get k).set name value = .ok item) :
    Effect catalog stack (catalog.put k item) stack
  | opened {token : String} {item : Item} (hu : Uri.isUri token.toList = true)
    (hi : Uri.openItem token = .ok item) :
    Effect catalog stack (catalog.add item).2 (.item catalog.items.size :: stack)

/-- What is no URI is the URI of no item that a token opens. -/
theorem Effect.uri_ne {catalog catalog' : Catalog} {stack stack' : List Value} {text : String}
    (h : Effect catalog stack catalog' stack') (ht : Uri.isUri text.toList = false)
    (hc : ∀ k, (catalog.get k).uri ≠ text) (k : Handle) : (catalog'.get k).uri ≠ text := by
  cases h with
  | moved h => exact hc k
  | changed hs hi =>
      rw [Catalog.get_put_congr Item.uri _ (Item.uri_set hi)]
      exact hc k
  | @opened token item hu hi =>
      rw [Catalog.get_add]
      split
      · rw [Uri.uri_openItem hi]
        rintro rfl
        rw [ht] at hu
        cases hu
      · exact hc k

section Effect

variable {catalog catalog' : Catalog} {stack stack' : List Value}
  (h : Effect catalog stack catalog' stack') {k : Handle}

include h

theorem Effect.size_le : catalog.items.size ≤ catalog'.items.size := by
  cases h with
  | moved => exact Nat.le_refl _
  | changed => simp [Catalog.put]
  | opened => simp [Catalog.add]

theorem Effect.uri_eq (hk : k < catalog.items.size) : (catalog'.get k).uri = (catalog.get k).uri := by
  cases h with
  | moved => rfl
  | changed hs hi => exact Catalog.get_put_congr Item.uri catalog (Item.uri_set hi) k
  | opened => rw [Catalog.get_add_of_lt hk]

theorem Effect.get_eq (hk : k < catalog.items.size) (hn : .item k ∉ stack) :
    catalog'.get k = catalog.get k := by
  cases h with
  | moved => rfl
  | @changed k' below _ _ _ hs hi =>
      refine Catalog.get_put_of_ne catalog ?_ _
      rintro rfl
      exact hn (hs ▸ List.mem_cons_self)
  | opened => exact Catalog.get_add_of_lt hk _

theorem Effect.mem_stack (hk : .item k ∈ stack') :
    .item k ∈ stack ∨ k = catalog.items.size ∧ k < catalog'.items.size := by
  cases h with
  | moved h => exact .inl (h k hk)
  | changed => exact .inl hk
  | opened =>
      rcases List.mem_cons.1 hk with he | hk
      · cases he
        exact .inr ⟨rfl, by simp [Catalog.add]⟩
      · exact .inl hk

end Effect

namespace Machine

theorem number_stack (catalog : Catalog) (m : Machine) {v : Value}
    (hv : v ∈ (m.number catalog).2.stack) : v ∈ m.stack := by
  unfold number at hv
  split at hv
  · exact hv
  · rename_i hs
    rw [hs]
    exact List.mem_cons_of_mem _ hv

theorem arithmetic_stack (word : Word) (catalog : Catalog) (m : Machine) {k : Handle}
    (hk : .item k ∈ (m.arithmetic word catalog).2.stack) : .item k ∈ m.stack := by
  unfold arithmetic at hk
  have h₁ {v : Value} := number_stack (v := v) catalog m
  generalize m.number catalog = x at hk h₁
  obtain ⟨_ | y, m₁⟩ := x
  · exact h₁ hk
  · have h₂ {v : Value} := number_stack (v := v) catalog m₁
    dsimp only at hk
    generalize m₁.number catalog = x at hk h₂
    obtain ⟨_ | x, m₂⟩ := x
    · exact h₁ (h₂ hk)
    · dsimp only at hk
      split at hk
      · exact h₁ (h₂ hk)
      · rcases List.mem_cons.1 hk with he | hk
        · cases he
        · exact h₁ (h₂ hk)

theorem run_stack (word : Word) (catalog : Catalog) (m : Machine) {k : Handle}
    (hk : .item k ∈ (m.run word catalog).2.stack) : .item k ∈ m.stack := by
  have ha := arithmetic_stack word catalog m (k := k)
  obtain ⟨stack, slot, printed, fault⟩ := m
  cases word with
  | print | take | drop =>
      cases stack with
      | nil => exact hk
      | cons v stack => exact List.mem_cons_of_mem _ hk
  | dup =>
      cases stack with
      | nil => exact hk
      | cons v stack => simpa [run] using hk
  | swap | copyBelow =>
      rcases stack with _ | ⟨v, _ | ⟨w, stack⟩⟩
      · exact hk
      · exact hk
      · simp only [run, List.mem_cons] at hk ⊢
        grind
  | clear => cases hk
  | depth => simpa [run, place] using hk
  | dict => exact hk
  | add | sub | mul | div => exact ha hk

theorem effect_assign (name value : String) (catalog : Catalog) (m : Machine) :
    Effect catalog m.stack (m.assign name value catalog).2 m.stack := by
  unfold assign
  split
  · rename_i hs
    split
    · exact .changed hs ‹_›
    · exact .moved fun _ => id
  · exact .moved fun _ => id

theorem effect_enter (token : String) (catalog : Catalog) (m : Machine) :
    Effect catalog m.stack (m.enter token catalog).2.1 (m.enter token catalog).2.2.stack := by
  have hliteral : Effect catalog m.stack catalog (m.place (.literal token)).stack :=
    .moved fun k hk => by simpa [place] using hk
  unfold enter
  split
  · exact hliteral
  · split
    · exact effect_assign _ _ catalog m
    · split
      · rename_i hu
        split
        · exact .moved fun _ => id
        · exact .opened hu ‹_›
      · exact hliteral

theorem effect_execute (token : String) (catalog : Catalog) (m : Machine) :
    Effect catalog m.stack (m.execute token catalog).2.1 (m.execute token catalog).2.2.stack := by
  unfold execute
  split
  · exact .moved fun k => run_stack _ catalog m
  · exact effect_enter token catalog m

end Machine

namespace Interpreter

theorem effect_push (token : String) (catalog : Catalog) (i : Interpreter) :
    Effect catalog i.machine.stack (i.push token catalog).2.1
      (i.push token catalog).2.2.machine.stack :=
  i.machine.effect_execute token catalog

theorem effect_pop (catalog : Catalog) (i : Interpreter) :
    Effect catalog i.machine.stack (i.pop catalog).2.1 (i.pop catalog).2.2.machine.stack := by
  have h := effect_push i.popWord catalog i
  unfold pop
  generalize i.push i.popWord catalog = x at h ⊢
  obtain ⟨_ | _, _, _⟩ := x <;> exact h

end Interpreter

end Stack

end Playout
