import Playout.Media.Catalog

namespace Playout.Stack

open Media

inductive Value where
  | literal (text : String)
  | item (h : Handle)
  deriving DecidableEq, Repr

namespace Value

def text (catalog : Catalog) : Value → String
  | literal text => text
  | item h => (catalog.get h).uri

def render (catalog : Catalog) : Value → String
  | literal text => text
  | item h => (catalog.get h).render

end Value

end Playout.Stack
