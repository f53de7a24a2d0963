import Playout.Number.Integer
import Playout.Number.Shortest

namespace Playout.Number

inductive Magnitude where
  | nan
  | infinity
  | decimal (mantissa : Nat) (exponent : Int)
  deriving DecidableEq, Repr

def exponent? : List Char → Option Int
  | [] => some 0
  | mark :: rest =>
    if mark = 'e' ∨ mark = 'E' then
      let (negative, digits) := sign rest
      (natural? digits).map fun n => if negative then -(n : Int) else n
    else none

/-- Digits, a point with digits, an exponent; a digit must stand before or behind the point. -/
def decimal? (text : List Char) : Option Magnitude :=
  let whole := text.takeWhile isDigit
  let rest := text.dropWhile isDigit
  let (fraction, rest) :=
    match rest with
    | '.' :: more => (more.takeWhile isDigit, more.dropWhile isDigit)
    | rest => ([], rest)
  if whole ++ fraction = [] then none
  else (exponent? rest).map fun e =>
    .decimal (digitsValue (whole ++ fraction)) (e - fraction.length)

def magnitude? (text : List Char) : Option Magnitude :=
  let name := text.map Char.toLower
  if name = "inf".toList ∨ name = "infinity".toList then some .infinity
  else if name = "nan".toList then some .nan
  else decimal? text

def Magnitude.toFloat (negative : Bool) : Magnitude → Float
  | nan => Binary.nan
  | infinity => Binary.infinity negative
  | decimal mantissa exponent => Binary.ofDecimal negative mantissa exponent

def real? (text : List Char) : Option Float :=
  let (negative, unsigned) := sign text
  (magnitude? unsigned).map (Magnitude.toFloat negative)

def positional (n : Nat) (k : Int) : List Char :=
  let digits := naturalText n
  if 0 ≤ k then digits ++ List.replicate k.natAbs '0'
  else
    let places := k.natAbs
    if digits.length ≤ places then
      '0' :: '.' :: List.replicate (places - digits.length) '0' ++ digits
    else digits.take (digits.length - places) ++ '.' :: digits.drop (digits.length - places)

def signed (negative : Bool) (text : List Char) : List Char :=
  if negative then '-' :: text else text

def realText (x : Float) : List Char :=
  match Binary.read x with
  | .nan => "NaN".toList
  | .infinite negative => signed negative "inf".toList
  | .finite negative 0 _ => signed negative ['0']
  | .finite negative m q =>
    let (n, k) := Shortest.decimal m q
    signed negative (positional n k)

def ofReal (x : Float) : String := String.ofList (realText x)

def whole? (x : Float) : Option Int :=
  match Binary.read x with
  | .finite negative m q =>
    let size : Option Nat :=
      if 0 ≤ q then some (m * Nat.pow 2 q.natAbs)
      else if m % Nat.pow 2 q.natAbs = 0 then some (m / Nat.pow 2 q.natAbs)
      else none
    size.map fun n => if negative then -(n : Int) else n
  | _ => none

def resultText (x : Float) : List Char :=
  match whole? x with
  | some n => if n.natAbs ≤ greatest64.natAbs then integerText n else realText x
  | none => realText x

end Playout.Number
