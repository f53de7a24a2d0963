import Playout.Media.Item

namespace Playout.Media.Uri

def isLetter (c : Char) : Bool := ('a' ≤ c && c ≤ 'z') || ('A' ≤ c && c ≤ 'Z')

def isSchemeChar (c : Char) : Bool :=
  isLetter c || ('0' ≤ c && c ≤ '9') || c = '+' || c = '-' || c = '.'

def scheme? (token : List Char) : Option (List Char) := (Text.cut? ':' token).map (·.1)

def isUri (token : List Char) : Bool :=
  match scheme? token with
  | some (c :: rest) => isLetter c && rest.all isSchemeChar
  | _ => false

def kind? (scheme : List Char) : Option Kind :=
  let name := String.ofList (scheme.map Char.toLower)
  if name = "test" then some .testPattern
  else if name = "colour" ∨ name = "color" then some .colour
  else none

def openItem (uri : String) : Except MediaFault Item :=
  match (scheme? uri.toList).bind kind? with
  | some kind => .ok (.fresh uri kind)
  | none => .error (.unopenable uri)

end Playout.Media.Uri
