import Playout.Fault
import Playout.Text.Split

namespace Playout

structure Files where
  entries : List (List String × Option (List UInt8)) := []
  /-- The directory in which the program works. -/
  here : List String := []

namespace Files

def names (path : String) : List String :=
  (Text.pieces '/' path.toList).map String.ofList

def spelled (here : List String) (path : String) : List String :=
  (names path).foldl
    (fun at_ name =>
      if name = "" ∨ name = "." then at_ else if name = ".." then at_.dropLast else at_ ++ [name])
    (if path.startsWith "/" then [] else here)

/-- A path that ends in a slash makes an empty directory; directories on the way come by themselves.
Unless it is told where, the program works in a directory whose name no path spells. -/
def ofList (files : List (String × List UInt8)) (here : List String := [""]) : Files where
  entries := files.map fun (path, bytes) =>
    (spelled here path, if path.endsWith "/" then none else some bytes)
  here := here

def file? (files : Files) (at_ : List String) : Option (List UInt8) :=
  (files.entries.findSome? fun (names, content) => if names = at_ then some content else none).join

def isDirectory (files : Files) (at_ : List String) : Bool :=
  at_.isPrefixOf files.here || files.entries.any fun (names, content) =>
    at_.isPrefixOf names && (at_.length < names.length || content.isNone)

/-- One name further. Above the root is the root. -/
def enter (files : Files) (name : String) (at_ : List String) : Except FileFault (List String) :=
  if name = "." then .ok at_
  else if name = ".." then .ok at_.dropLast
  else if 255 < name.utf8ByteSize then .error .nameTooLong
  else
    let there := at_ ++ [name]
    if (files.file? there).isSome ∨ files.isDirectory there then .ok there
    else .error .notFound

def walk (files : Files) (at_ : List String) : List String → Except FileFault (List String)
  | [] => .ok at_
  | name :: rest =>
    if !files.isDirectory at_ then .error .notDirectory
    else do walk files (← files.enter name at_) rest

def steps (path : String) : List String :=
  let named := (names path).filter (· ≠ "")
  if path.endsWith "/" then named ++ ["."] else named

def locate (files : Files) (path : String) : Except FileFault (List String) :=
  if '\x00' ∈ path.toList then .error .nulInName
  else if path = "" then .error .notFound
  else if 4096 ≤ path.utf8ByteSize then .error .nameTooLong
  else files.walk (if path.startsWith "/" then [] else files.here) (steps path)

def exists? (files : Files) (path : String) : Bool := (files.locate path).isOk

def read (files : Files) (path : String) : Except FileFault (List UInt8) := do
  let there ← files.locate path
  ((files.file? there).map .ok).getD (.error .isDirectory)

def readText (files : Files) (path : String) : Except FileFault String := do
  match Text.Utf8.decode (← files.read path) with
  | .ok text => .ok text
  | .error _ => .error .notUtf8

def join (dir name : String) : String :=
  if name.startsWith "/" ∨ dir = "" then name
  else if dir.endsWith "/" then dir ++ name
  else dir ++ "/" ++ name

end Files

end Playout
