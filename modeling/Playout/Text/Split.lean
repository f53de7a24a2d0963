namespace Playout.Text

/-- The pieces between the separators, one more than there are separators. -/
def pieces (sep : Char) (text : List Char) : List (List Char) :=
  text.foldr (fun c ps => if c = sep then [] :: ps else ps.modifyHead (c :: ·)) [[]]

theorem pieces_nil (sep : Char) : pieces sep [] = [[]] := rfl

theorem pieces_sep (sep : Char) (text : List Char) :
    pieces sep (sep :: text) = [] :: pieces sep text := by
  simp [pieces]

theorem pieces_cons {sep c : Char} (h : c ≠ sep) (text : List Char) :
    pieces sep (c :: text) = (pieces sep text).modifyHead (c :: ·) := by
  simp [pieces, h]

def dropReturn (line : List Char) : List Char :=
  if line.getLast? = some '\r' then line.dropLast else line

/-- A line ends in a line feed, before which one carriage return is dropped. What follows the last
line feed is a line unless it is empty. -/
def lines (text : List Char) : List (List Char) :=
  let ps := pieces '\n' text
  ps.dropLast.map dropReturn ++ ps.getLast?.toList.filter (· ≠ [])

def linesOf (text : String) : List String :=
  (lines text.toList).map String.ofList

def cut? (sep : Char) (text : List Char) : Option (List Char × List Char) :=
  match text.dropWhile (· ≠ sep) with
  | [] => none
  | _ :: rest => some (text.takeWhile (· ≠ sep), rest)

def cutLast? (sep : Char) (text : List Char) : Option (List Char × List Char) :=
  (cut? sep text.reverse).map fun (after, before) => (before.reverse, after.reverse)

def dropLineEnd (text : List Char) : List Char :=
  text.reverse.dropWhile (fun c => c = '\r' || c = '\n') |>.reverse

def fill (value : List Char) : List Char → List Char
  | '%' :: 's' :: rest => value ++ fill value rest
  | c :: rest => c :: fill value rest
  | [] => []

def hasSlot : List Char → Bool
  | '%' :: 's' :: _ => true
  | _ :: rest => hasSlot rest
  | [] => false

def column (width : Nat) (text : String) : String :=
  text ++ String.ofList (List.replicate (width - text.length) ' ')

end Playout.Text
