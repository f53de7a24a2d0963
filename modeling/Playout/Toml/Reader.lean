import Playout.Number.Real

namespace Playout.Toml

abbrev Reader := StateT (List Char) Option

namespace Reader

def satisfying (p : Char → Bool) : Reader Char := fun
  | c :: rest => if p c then some (c, rest) else none
  | [] => none

def char (c : Char) : Reader Unit := discard (satisfying (· = c))

def string (s : String) : Reader Unit := s.toList.forM char

def takeWhile (p : Char → Bool) : Reader (List Char) := fun text =>
  some (text.takeWhile p, text.dropWhile p)

def ended : Reader Unit := fun text => if text = [] then some ((), []) else none

def many {α : Type} (r : Reader α) (text : List Char) : Option (List α × List Char) :=
  match r text with
  | none => some ([], text)
  | some (a, rest) =>
    if rest.length < text.length then (many r rest).map fun (more, rest) => (a :: more, rest)
    else some ([a], rest)
  termination_by text.length

def many1 {α : Type} (r : Reader α) : Reader (List α) := do return (← r) :: (← many r)

def written (r : Reader Unit) : Reader (List Char) := fun text =>
  (r text).map fun (_, rest) => (text.take (text.length - rest.length), rest)

def require (b : Bool) : Reader Unit := if b then pure () else failure

end Reader

open Reader

def isSpace (c : Char) : Bool := c = ' ' || c = '\t'

def isText (c : Char) : Bool := c = '\t' || (0x20 ≤ c.toNat && c.toNat ≠ 0x7F)

def spaces : Reader Unit := discard (takeWhile isSpace)

def newline : Reader Unit := string "\n" <|> string "\r\n"

def comment : Reader Unit := do
  char '#'
  discard (takeWhile isText)

def lineEnd : Reader Unit := do
  spaces
  discard (optional comment)
  newline <|> ended

def gap : Reader Unit := do
  spaces
  discard (many (do discard (optional comment); newline; spaces))

def hexDigit? (c : Char) : Option Nat :=
  if '0' ≤ c ∧ c ≤ '9' then some (c.toNat - '0'.toNat)
  else if 'a' ≤ c ∧ c ≤ 'f' then some (c.toNat - 'a'.toNat + 10)
  else if 'A' ≤ c ∧ c ≤ 'F' then some (c.toNat - 'A'.toNat + 10)
  else none

def inBase? (base : Nat) (digits : List Char) : Option Nat :=
  digits.foldlM (fun n c => (hexDigit? c).map (n * base + ·)) 0

def scalar? (digits : List Char) : Option Char :=
  (inBase? 16 digits).bind fun n => if n.isValidChar then some (Char.ofNat n) else none

def escape? : Char → Option Char
  | 'b' => some '\x08'
  | 't' => some '\t'
  | 'n' => some '\n'
  | 'f' => some '\x0c'
  | 'r' => some '\r'
  | '"' => some '"'
  | '\\' => some '\\'
  | _ => none

def closing? (quote : Char) (text : List Char) : Option (List Char × List Char) :=
  let run := (text.takeWhile (· = quote)).length
  let own := min (run - 3) 2
  if 3 ≤ run then some (List.replicate own quote, text.drop (own + 3)) else none

def startsNewline : List Char → Bool
  | '\n' :: _ | '\r' :: '\n' :: _ => true
  | _ => false

/-- A string behind its opening quotes. Escapes stand in double quotes only. Of several lines, a
backslash at the end of one skips to the next character that is not blank. -/
def stringBody (quote : Char) (severalLines skipping : Bool) (done : List Char) :
    List Char → Option (List Char × List Char)
  | [] => none
  | c :: rest =>
    if c = '\\' ∧ quote = '"' then
      match rest with
      | 'u' :: d1 :: d2 :: d3 :: d4 :: more =>
        (scalar? [d1, d2, d3, d4]).bind fun e =>
          stringBody quote severalLines false (e :: done) more
      | 'U' :: d1 :: d2 :: d3 :: d4 :: d5 :: d6 :: d7 :: d8 :: more =>
        (scalar? [d1, d2, d3, d4, d5, d6, d7, d8]).bind fun e =>
          stringBody quote severalLines false (e :: done) more
      | e :: more =>
        match escape? e with
        | some e => stringBody quote severalLines false (e :: done) more
        | none =>
          if severalLines ∧ startsNewline ((e :: more).dropWhile isSpace) then
            stringBody quote severalLines true done (e :: more)
          else none
      | [] => none
    else if c = quote then
      if severalLines then
        match closing? quote (c :: rest) with
        | some (own, after) => some (done.reverse ++ own, after)
        | none => stringBody quote severalLines false (c :: done) rest
      else some (done.reverse, rest)
    else if severalLines ∧ c = '\r' ∧ startsNewline (c :: rest) then
      stringBody quote severalLines skipping done rest
    else if severalLines ∧ c = '\n' then
      stringBody quote severalLines skipping (if skipping then done else c :: done) rest
    else if skipping ∧ isSpace c then stringBody quote severalLines true done rest
    else if isText c then stringBody quote severalLines false (c :: done) rest
    else none

def quoted (quote : Char) : Reader String := do
  char quote
  return String.ofList (← stringBody quote false false [])

def quotedLines (quote : Char) : Reader String := do
  (List.replicate 3 quote).forM char
  discard (optional newline)
  return String.ofList (← stringBody quote true false [])

def isBareKey (c : Char) : Bool := c.isAlphanum || c = '_' || c = '-'

def bareKey : Reader String := do
  let cs ← takeWhile isBareKey
  require (cs ≠ [])
  return String.ofList cs

/-- The digits after the first one; an underscore may stand between two. -/
def moreDigits (isDigit : Char → Bool) : List Char → List Char × List Char
  | '_' :: c :: rest =>
    if isDigit c then
      let (digits, rest) := moreDigits isDigit rest
      (c :: digits, rest)
    else ([], '_' :: c :: rest)
  | c :: rest =>
    if isDigit c then
      let (digits, rest) := moreDigits isDigit rest
      (c :: digits, rest)
    else ([], c :: rest)
  | [] => ([], [])

def digitsOf (isDigit : Char → Bool) : Reader (List Char) := do
  let first ← satisfying isDigit
  let more ← fun text => some (moreDigits isDigit text)
  return first :: more

def sign : Reader (List Char) := do
  return (← optional (satisfying fun c => c = '+' || c = '-')).toList

def wholePart : Reader (List Char) :=
  (do char '0'; return ['0']) <|> digitsOf Number.isDigit

def inBase (mark : String) (base : Nat) : Reader Int := do
  string mark
  let digits ← digitsOf fun c => (hexDigit? c).any (· < base)
  let n ← (inBase? base digits : Option Nat)
  require (n ≤ Number.greatest64)
  return n

def decimalInteger : Reader Int := do
  let text := (← sign) ++ (← wholePart)
  (Number.integer? text : Option Int)

def integer : Reader Int :=
  inBase "0x" 16 <|> inBase "0o" 8 <|> inBase "0b" 2 <|> decimalInteger

def exponent : Reader (List Char) := do
  discard (satisfying fun c => c = 'e' || c = 'E')
  return 'e' :: (← sign) ++ (← digitsOf Number.isDigit)

def fraction : Reader (List Char) := do
  char '.'
  return '.' :: (← digitsOf Number.isDigit)

def real : Reader Float := do
  let s ← sign
  (do
    let whole ← wholePart
    let f ← optional fraction
    let e ← if f.isSome then optional exponent else some <$> exponent
    let x ← (Number.real? (s ++ whole ++ f.getD [] ++ e.getD []) : Option Float)
    require (!(x.isInf && 0 < x))
    return x) <|>
  (do
    let name ← ["inf", "nan"].firstM fun name => do string name; return name
    (Number.real? (s ++ name.toList) : Option Float))

def place (count least greatest : Nat) : Reader Nat := fun text =>
  let digits := text.take count
  (Number.natural? digits).bind fun n =>
    if digits.length = count ∧ least ≤ n ∧ n ≤ greatest then some (n, text.drop count) else none

def daysIn (year month : Nat) : Nat :=
  if month = 2 then
    if year % 4 = 0 ∧ (year % 100 ≠ 0 ∨ year % 400 = 0) then 29 else 28
  else if month = 4 ∨ month = 6 ∨ month = 9 ∨ month = 11 then 30
  else 31

def date : Reader Unit := do
  let year ← place 4 0 9999
  char '-'
  let month ← place 2 1 12
  char '-'
  discard (place 2 1 (daysIn year month))

def hourMinute : Reader Unit := do
  discard (place 2 0 23)
  char ':'
  discard (place 2 0 59)

def time : Reader Unit := do
  hourMinute
  char ':'
  discard (place 2 0 60)
  discard (optional (do char '.'; many1 (satisfying Number.isDigit)))

def offset : Reader Unit :=
  discard (satisfying fun c => c = 'Z' || c = 'z') <|>
    (do discard (satisfying fun c => c = '+' || c = '-'); hourMinute)

def moment : Reader String := do
  let text ← written
    ((do
      date
      discard (optional (do
        discard (satisfying fun c => c = 'T' || c = 't' || c = ' ')
        time
        optional offset))) <|> time)
  return String.ofList text

end Playout.Toml
