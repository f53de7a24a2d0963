import Playout.Text.Utf8

namespace Playout.Text.Percent

def hexValue? (b : UInt8) : Option UInt8 :=
  if 48 ≤ b && b ≤ 57 then some (b - 48)
  else if 65 ≤ b && b ≤ 70 then some (b - 55)
  else if 97 ≤ b && b ≤ 102 then some (b - 87)
  else none

def decode : List UInt8 → List UInt8
  | 37 :: h :: l :: rest =>
    match hexValue? h, hexValue? l with
    | some high, some low => (high * 16 + low) :: decode rest
    | _, _ => 37 :: decode (h :: l :: rest)
  | b :: rest => b :: decode rest
  | [] => []

def hexDigit (n : UInt8) : UInt8 := if n < 10 then n + 48 else n + 55

def encode (bytes : List UInt8) : List UInt8 :=
  bytes.flatMap fun b => [37, hexDigit (b / 16), hexDigit (b % 16)]

end Playout.Text.Percent
