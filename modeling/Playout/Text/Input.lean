import Playout.Text.Split
import Playout.Text.Utf8

namespace Playout.Text

def takeLineFrom (seen : List UInt8) : List UInt8 → List UInt8 × List UInt8
  | [] => (seen.reverse, [])
  | b :: rest => if b = 10 then ((b :: seen).reverse, rest) else takeLineFrom (b :: seen) rest

theorem length_takeLineFrom (seen bytes : List UInt8) :
    (takeLineFrom seen bytes).2.length ≤ bytes.length := by
  induction bytes generalizing seen with
  | nil => simp [takeLineFrom]
  | cons b rest ih =>
    rw [takeLineFrom]
    split
    · simp
    · exact Nat.le_succ_of_le (ih _)

def takeLine? : List UInt8 → Option (List UInt8 × List UInt8)
  | [] => none
  | b :: rest => some (if b = 10 then ([b], rest) else takeLineFrom [b] rest)

theorem length_takeLine? {bytes line rest : List UInt8} (h : takeLine? bytes = some (line, rest)) :
    rest.length < bytes.length := by
  cases bytes with
  | nil => simp [takeLine?] at h
  | cons b bytes =>
    simp only [takeLine?, Option.some.injEq] at h
    split at h
    · cases h
      simp
    · have h2 := length_takeLineFrom [b] bytes
      rw [h] at h2
      exact Nat.lt_succ_of_le h2

def lineText (line : List UInt8) : Except Utf8.Fault String :=
  (Utf8.decode line).map fun text => String.ofList (dropLineEnd text.toList)

end Playout.Text
