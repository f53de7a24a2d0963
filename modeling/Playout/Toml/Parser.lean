import Playout.Toml.Node
import Playout.Toml.Reader

namespace Playout.Toml

open Reader

def limit : Nat := 80

def keyPart : Reader String := do
  spaces
  let part ← quoted '"' <|> quoted '\'' <|> bareKey
  spaces
  return part

def key : Reader Key := do
  let first ← keyPart
  let more ← many (do char '.'; keyPart)
  require (more.length + 1 < limit)
  return ⟨(first :: more).dropLast, (first :: more).getLast (by simp)⟩

def scalar : Reader Node :=
  (do return .text (← quotedLines '"' <|> quotedLines '\'' <|> quoted '"' <|> quoted '\'')) <|>
  (do string "true"; return .boolean true) <|>
  (do string "false"; return .boolean false) <|>
  (do return .moment (← moment)) <|>
  (do return .real (← real)) <|>
  (do return .integer (← integer))

def array (value : Reader Node) : Reader Node := do
  char '['
  let item : Reader Node := do
    gap
    let v ← value
    gap
    return v
  let first ← optional item
  let more ← if first.isSome then many (do char ','; item) else pure []
  discard (if first.isSome then optional (char ',') else pure none)
  gap
  char ']'
  return .array (first.toList ++ more)

def pair (value : Reader Node) : Reader (Key × Node) := do
  let k ← key
  char '='
  spaces
  let v ← value
  spaces
  return (k, v)

def inlineTable (value : Reader Node) : Reader Node := do
  char '{'
  let first ← optional (pair value)
  let more ← if first.isSome then many (do char ','; pair value) else pure []
  spaces
  char '}'
  let entries ← ((first.toList ++ more).foldlM
    (fun (entries : Entries) (k, v) => entries.add k.path k.last v) [] : Option Entries)
  return .table .braces entries

def value (levels : Nat) : Reader Node :=
  scalar <|>
    match levels with
    | 0 => failure
    | levels + 1 => array (value levels) <|> inlineTable (value levels)

def entryLine : Reader Line := do
  let k ← key
  char '='
  spaces
  let v ← value (limit - 1)
  lineEnd
  return .entry k v

def tableLine : Reader Line := do
  char '['
  let k ← key
  char ']'
  lineEnd
  return .table k

def nextTableLine : Reader Line := do
  string "[["
  let k ← key
  string "]]"
  lineEnd
  return .nextTable k

def line : Reader (Option Line) := do
  spaces
  let l ← some <$> nextTableLine <|> some <$> tableLine <|> some <$> entryLine <|>
    (do newline; return none) <|> (do comment; newline <|> ended; return none)
  return l

def document : Reader (List Line) := do
  discard (optional (char '\uFEFF'))
  let lines ← many line
  spaces
  ended
  return lines.filterMap id

def parse? (text : String) : Option Entries :=
  (document text.toList).bind fun (lines, _) => rootOf lines

end Playout.Toml
