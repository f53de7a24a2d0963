import Playout.Text.Quoted

namespace Playout

inductive Signal where
  | startServer (port : Nat)
  | exit
  deriving DecidableEq, Repr

inductive Pending where
  | script
  | assignments (given : List String)
  deriving DecidableEq, Repr

namespace Signal

def shown : Signal → String
  | startServer port => "StartServer \x7b port: " ++ toString port ++ " \x7d"
  | exit => "Exit"

def shownList (signals : List Signal) : String :=
  "[" ++ String.intercalate ", " (signals.map shown) ++ "]"

end Signal

namespace Pending

def shown : Pending → String
  | script => "Include"
  | assignments given =>
    "Store \x7b props: [" ++ String.intercalate ", " (given.map Text.Quoted.shown) ++ "] \x7d"

end Pending

end Playout
