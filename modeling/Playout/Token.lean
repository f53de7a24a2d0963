import Playout.Fault
import Playout.Text.Split

namespace Playout.Token

def quotes (token : List Char) : Nat := token.count '"'

def isOpen (token : List Char) : Bool := quotes token % 2 = 1

def continues (token : List Char) : Bool := isOpen token || token.getLast? = some '\\'

def isWrapped (quote : Char) (token : List Char) : Bool :=
  2 ≤ token.length && token.head? = some quote && token.getLast? = some quote

def unwrap (token : List Char) : List Char := token.tail.dropLast

/-- One layer of quotes around the token goes; without one its backslashes go and its double quotes
become single ones. -/
def finish (token : List Char) : List Char :=
  if isWrapped '"' token || isWrapped '\'' token then unwrap token
  else (token.filter (· ≠ '\\')).map fun c => if c = '"' then '\'' else c

/-- Takes one more piece into the tokens found so far, of which the last comes first. -/
def glue : List (List Char) → List Char → List (List Char)
  | last :: found, piece =>
    if continues last then (last ++ ' ' :: piece) :: found
    else if piece = [] then last :: found
    else piece :: last :: found
  | [], piece => if piece = [] then [] else [piece]

def startsComment (piece : List Char) : Bool := piece.head? = some '#'

def merged (line : List Char) : List (List Char) :=
  ((Text.pieces ' ' line).takeWhile (!startsComment ·)).foldl glue []

def scan (line : List Char) : Except ParseFault (List (List Char)) :=
  let found := merged line
  match found.head?.filter isOpen with
  | some last => .error (.unterminatedQuote (String.ofList last))
  | none => .ok (found.reverse.map finish)

def ofLine (line : String) : Except ParseFault (List String) :=
  (scan line.toList).map (·.map String.ofList)

def isBare (token : List Char) : Bool :=
  token ≠ [] && token.head? ≠ some '#' && !isWrapped '\'' token &&
    !token.any fun c => c = ' ' || c = '"' || c = '\\'

def write (token : List Char) : List Char :=
  if isBare token then token
  else if '"' ∈ token then '\'' :: token ++ ['\'']
  else '"' :: token ++ ['"']

def join (tokens : List (List Char)) : List Char :=
  List.intercalate [' '] (tokens.map write)

def toLine (tokens : List String) : String :=
  String.ofList (join (tokens.map String.toList))

end Playout.Token
