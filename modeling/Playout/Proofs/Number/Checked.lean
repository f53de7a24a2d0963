import Playout.Number.Integer

namespace Playout.Number

def Fits (n : Int) : Prop := least64 ≤ n ∧ n ≤ greatest64

instance : DecidablePred Fits := fun n => inferInstanceAs (Decidable (least64 ≤ n ∧ n ≤ greatest64))

theorem fits_iff (n : Int) : Fits n ↔ -9223372036854775808 ≤ n ∧ n ≤ 9223372036854775807 := Iff.rfl

def checked (n : Int) : Option Int := if Fits n then some n else none

theorem checked_of_fits {n : Int} (h : Fits n) : checked n = some n := if_pos h

def checkedSub (m n : Nat) : Option Nat := if n ≤ m then some (m - n) else none

theorem checkedSub_of_le {m n : Nat} (h : n ≤ m) : checkedSub m n = some (m - n) := if_pos h

end Playout.Number
