namespace Playout.Number

def isDigit (c : Char) : Bool := '0' ≤ c && c ≤ '9'

def digitsValue (digits : List Char) : Nat :=
  digits.foldl (fun value c => value * 10 + (c.toNat - '0'.toNat)) 0

def natural? (text : List Char) : Option Nat :=
  if text ≠ [] ∧ text.all isDigit then some (digitsValue text) else none

def sign : List Char → Bool × List Char
  | '-' :: rest => (true, rest)
  | '+' :: rest => (false, rest)
  | text => (false, text)

def least64 : Int := -9223372036854775808
def greatest64 : Int := 9223372036854775807

def integer? (text : List Char) : Option Int :=
  let (negative, digits) := sign text
  (natural? digits).bind fun n =>
    let value : Int := if negative then -(n : Int) else n
    if least64 ≤ value ∧ value ≤ greatest64 then some value else none

def below? (limit : Nat) : List Char → Option Nat
  | '-' :: _ => none
  | text => (natural? (sign text).2).bind fun n => if n < limit then some n else none

def portLimit : Nat := 65536

def port? (text : List Char) : Option Nat := below? portLimit text

def naturalText (n : Nat) : List Char := Nat.toDigits 10 n

def integerText (n : Int) : List Char :=
  if n < 0 then '-' :: naturalText n.natAbs else naturalText n.natAbs

def ofInteger (n : Int) : String := String.ofList (integerText n)

end Playout.Number
