namespace Playout.Text.Utf8

/-- Where well-formed text stops: `extent` bytes from `start` fit no character, or the text ends
inside one. -/
inductive Fault where
  | malformed (start extent : Nat)
  | truncated (start : Nat)
  deriving DecidableEq, Repr

def Fault.message : Fault → String
  | .malformed start extent =>
    "invalid utf-8 sequence of " ++ toString extent ++ " bytes from index " ++ toString start
  | .truncated start => "incomplete utf-8 byte sequence from index " ++ toString start

def isTail (b : UInt8) : Bool := 0x80 ≤ b && b ≤ 0xBF

def shape? (b : UInt8) : Option (Nat × UInt8 × UInt8) :=
  if b < 0x80 then some (0, 0x80, 0xBF)
  else if b < 0xC2 then none
  else if b < 0xE0 then some (1, 0x80, 0xBF)
  else if b == 0xE0 then some (2, 0xA0, 0xBF)
  else if b == 0xED then some (2, 0x80, 0x9F)
  else if b < 0xF0 then some (2, 0x80, 0xBF)
  else if b == 0xF0 then some (3, 0x90, 0xBF)
  else if b < 0xF4 then some (3, 0x80, 0xBF)
  else if b == 0xF4 then some (3, 0x80, 0x8F)
  else none

inductive Step where
  | char (c : Char) (extent : Nat) (rest : List UInt8)
  | malformed (extent : Nat) (rest : List UInt8)
  | truncated
  deriving Repr

def low (b : UInt8) : Nat := b.toNat % 64

/-- The bytes after the second one of a character that has `owed` more. -/
def tails (owed : Nat) (value extent : Nat) (bytes : List UInt8) : Step :=
  match owed, bytes with
  | 0, rest => .char (Char.ofNat value) extent rest
  | _ + 1, [] => .truncated
  | owed + 1, b :: rest =>
    if isTail b then tails owed (value * 64 + low b) (extent + 1) rest
    else .malformed extent (b :: rest)

def first (b : UInt8) (rest : List UInt8) : Step :=
  match shape? b with
  | none => .malformed 1 rest
  | some (0, _, _) => .char (Char.ofNat b.toNat) 1 rest
  | some (owed + 1, lo, hi) =>
    match rest with
    | [] => .truncated
    | c :: more =>
      if lo ≤ c && c ≤ hi then
        tails owed (b.toNat % (if owed = 0 then 32 else if owed = 1 then 16 else 8) * 64 + low c) 2
          more
      else .malformed 1 (c :: more)

def Step.rest : Step → List UInt8
  | .char _ _ rest | .malformed _ rest => rest
  | .truncated => []

theorem length_rest_tails (owed value extent : Nat) (bytes : List UInt8) :
    (tails owed value extent bytes).rest.length ≤ bytes.length := by
  induction owed generalizing value extent bytes with
  | zero => simp [tails, Step.rest]
  | succ owed ih =>
    cases bytes with
    | nil => simp [tails, Step.rest]
    | cons b rest =>
      rw [tails]
      split
      · have := ih (value * 64 + low b) (extent + 1) rest
        simp only [List.length_cons]; omega
      · simp [Step.rest]

theorem length_rest_first (b : UInt8) (rest : List UInt8) :
    (first b rest).rest.length ≤ rest.length := by
  unfold first
  split
  · simp [Step.rest]
  · simp [Step.rest]
  · split
    · simp [Step.rest]
    · split
      · rename_i owed _ _ _ _ c more _
        have := length_rest_tails owed
          (b.toNat % (if owed = 0 then 32 else if owed = 1 then 16 else 8) * 64 + low c) 2 more
        simp only [List.length_cons]; omega
      · simp [Step.rest]

/-- Every malformed stretch becomes one replacement character. -/
def lossyFrom (done : List Char) : List UInt8 → List Char
  | [] => done.reverse
  | b :: bytes =>
    match h : first b bytes with
    | .char c _ rest =>
      have : rest.length ≤ bytes.length := by simpa [h, Step.rest] using length_rest_first b bytes
      lossyFrom (c :: done) rest
    | .malformed _ rest =>
      have : rest.length ≤ bytes.length := by simpa [h, Step.rest] using length_rest_first b bytes
      lossyFrom ('\uFFFD' :: done) rest
    | .truncated => ('\uFFFD' :: done).reverse
  termination_by bytes => bytes.length

def lossy (bytes : List UInt8) : String := String.ofList (lossyFrom [] bytes)

def decodeFrom (start : Nat) (done : List Char) : List UInt8 → Except Fault (List Char)
  | [] => .ok done.reverse
  | b :: bytes =>
    match h : first b bytes with
    | .char c extent rest =>
      have : rest.length ≤ bytes.length := by simpa [h, Step.rest] using length_rest_first b bytes
      decodeFrom (start + extent) (c :: done) rest
    | .malformed extent _ => .error (.malformed start extent)
    | .truncated => .error (.truncated start)
  termination_by bytes => bytes.length

def decode (bytes : List UInt8) : Except Fault String :=
  (decodeFrom 0 [] bytes).map String.ofList

def encode (text : String) : List UInt8 := text.toUTF8.toList

end Playout.Text.Utf8
