namespace Playout.Number.Binary

inductive Reading where
  | nan
  | infinite (negative : Bool)
  | finite (negative : Bool) (m : Nat) (q : Int)
  deriving DecidableEq, Repr

def signBit : Nat := Nat.pow 2 63

def firstBit : Nat := Nat.pow 2 52

def topExponent : Nat := 2047

def read (x : Float) : Reading :=
  let bits := x.toBits.toNat
  let negative := bits / signBit = 1
  let exponent : Nat := bits / firstBit % (topExponent + 1)
  let fraction := bits % firstBit
  if exponent = topExponent then if fraction = 0 then .infinite negative else .nan
  else if exponent = 0 then .finite negative fraction (-1074)
  else .finite negative (fraction + firstBit) ((exponent : Int) - 1075)

def scale (num den : Nat) (q : Int) : Nat × Nat :=
  if q < 0 then (num * Nat.pow 2 q.natAbs, den) else (num, den * Nat.pow 2 q.natAbs)

def roundDiv (num den : Nat) : Nat :=
  let floor := num / den
  let rest := 2 * (num % den)
  if rest > den ∨ (rest = den ∧ floor % 2 = 1) then floor + 1 else floor

def lastPlace (num den : Nat) : Int :=
  let q : Int := (num.log2 : Int) - den.log2 - 52
  let (n, d) := scale num den q
  max (-1074) (if n / d < firstBit then q - 1 else q)

/-- The bits of the value nearest to a positive fraction, at equal distance the even one; beyond
the greatest value those of infinity. -/
def nearestBits (num den : Nat) : Nat :=
  let q := lastPlace num den
  let (n, d) := scale num den q
  let m := roundDiv n d
  let bits := if m < firstBit then m else (q + 1075).toNat * firstBit + (m - firstBit)
  min bits (topExponent * firstBit)

def ofBits (negative : Bool) (bits : Nat) : Float :=
  Float.ofBits (UInt64.ofNat (if negative then bits + signBit else bits))

def infinity (negative : Bool) : Float := ofBits negative (topExponent * firstBit)

def nan : Float := ofBits false (topExponent * firstBit + firstBit / 2)

/-- The value nearest to `mantissa · 10^exponent`. No digits reach the values beyond 310 places on
either side of the point but for the smallest ones, which end 324 places behind it. -/
def ofDecimal (negative : Bool) (mantissa : Nat) (exponent : Int) : Float :=
  let places : Int := (Nat.toDigits 10 mantissa).length + exponent
  if mantissa = 0 ∨ places < -330 then ofBits negative 0
  else if places > 310 then infinity negative
  else if exponent < 0 then ofBits negative (nearestBits mantissa (Nat.pow 10 exponent.natAbs))
  else ofBits negative (nearestBits (mantissa * Nat.pow 10 exponent.natAbs) 1)

end Playout.Number.Binary
