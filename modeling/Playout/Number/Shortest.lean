import Playout.Number.Binary

namespace Playout.Number.Shortest

/-- A positive value with the numbers that read back to it: `low` to `high`, in units of a quarter
of the last place, that is of `unit / den`. -/
structure Target where
  value : Nat
  low : Nat
  high : Nat
  closed : Bool
  unit : Nat
  den : Nat

def target (m : Nat) (q : Int) : Target :=
  { value := 4 * m
    low := if m = Binary.firstBit ∧ q > -1074 then 4 * m - 1 else 4 * m - 2
    high := 4 * m + 2
    closed := m % 2 = 0
    unit := if q < 2 then 1 else Nat.pow 2 (q - 2).natAbs
    den := if q < 2 then Nat.pow 2 (q - 2).natAbs else 1 }

def Target.accepts (t : Target) (n : Nat) (k : Int) : Bool :=
  let num := (if k < 0 then n else n * Nat.pow 10 k.natAbs) * t.den
  let scale := (if k < 0 then Nat.pow 10 k.natAbs else 1) * t.unit
  if t.closed then t.low * scale ≤ num && num ≤ t.high * scale
  else t.low * scale < num && num < t.high * scale

/-- The multiple of `10^k` below the value, and whether the one above is as near to it or nearer. -/
def Target.below (t : Target) (k : Int) : Nat × Bool :=
  let num := t.value * t.unit * (if k < 0 then Nat.pow 10 k.natAbs else 1)
  let den := t.den * (if k < 0 then 1 else Nat.pow 10 k.natAbs)
  (num / den, den ≤ 2 * (num % den))

def Target.pick? (t : Target) (k : Int) : Option (Nat × Int) :=
  let (n, up) := t.below k
  match t.accepts n k, t.accepts (n + 1) k with
  | true, true => some (if up then n + 1 else n, k)
  | true, false => some (n, k)
  | false, true => some (n + 1, k)
  | false, false => none

def Target.leading (t : Target) : Int :=
  let whole := t.value * t.unit / t.den
  if whole > 0 then (Nat.toDigits 10 whole).length - 1
  else
    let rec search (k : Nat) : Nat → Int
      | 0 => -k
      | fuel + 1 => if t.value * t.unit * Nat.pow 10 k ≥ t.den then -k else search (k + 1) fuel
    search 1 325

/-- Nine tenths and more of a power of ten may go up to the power itself. -/
def carry : Nat × Int → Nat × Int
  | (n, k) => if n % 10 = 0 then (n / 10, k + 1) else (n, k)

def decimal (m : Nat) (q : Int) : Nat × Int :=
  let t := target m q
  let top := t.leading
  let found := (List.range 17).findSome? fun (n : Nat) => t.pick? (top - (n : Int))
  carry (found.getD ((t.below (top - 16)).1, top - 16))

end Playout.Number.Shortest
