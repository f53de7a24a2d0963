namespace Playout.Console

inductive Word where
  | pow
  | play
  | add
  | clone
  | cos
  | exit
  | generation
  | grab
  | help
  | includeScript
  | insert
  | logLevel
  | next
  | playing
  | playlist
  | position
  | prev
  | previous
  | props
  | render
  | seek
  | server
  | sin
  | setSpeed
  | speed
  | status
  | store
  | tan
  deriving DecidableEq, Repr

structure Entry where
  name : String
  usage : String
  description : String
  deriving DecidableEq, Repr

namespace Word

def entry : Word → Entry
  | pow => ⟨"**", "(x y -- x**y)", "Raise x to the power y"⟩
  | play => ⟨".", "(x --)", "Play the top of stack now, or print it if it has no frames"⟩
  | add => ⟨"add", "(item --)", "Append an item to the playlist"⟩
  | clone => ⟨"clone", "(item -- item copy)", "Push an independent copy of the top item"⟩
  | cos => ⟨"cos", "(x -- y)", "Cosine of x (radians)"⟩
  | exit => ⟨"exit", "(--)", "Leave the shell or close the connection"⟩
  | generation => ⟨"generation?", "(-- n)", "Push the coordinator's change counter"⟩
  | grab =>
    ⟨"grab", "(index -- item?)",
      "Take an item from the playlist (0..), current (-1) or history (-2..)"⟩
  | help => ⟨"help", "(--)", "List engine words and shell extensions"⟩
  | includeScript => ⟨"include", "include <path>", "Run each line of a script"⟩
  | insert =>
    ⟨"insert", "(item index --)", "Insert an item into the playlist (appends when out of range)"⟩
  | logLevel => ⟨"log_level", "(n --)", "Set the log level (0 off, 1 error .. 5 trace)"⟩
  | next => ⟨"next", "(--)", "Move to the next playlist entry"⟩
  | playing => ⟨"playing", "(--)", "Print the current item"⟩
  | playlist => ⟨"playlist", "(--)", "Print the queued items"⟩
  | position =>
    ⟨"position?", "(-- n)", "Push the position of the current item (-1 before the first play)"⟩
  | prev => ⟨"prev", "(--)", "Return to the most recently played item"⟩
  | previous => ⟨"previous", "(--)", "Print the recently played items, oldest first"⟩
  | props => ⟨"props", "(item -- item)", "Print the properties of the top item as JSON"⟩
  | render => ⟨"render", "(x -- x)", "Print the top of stack without removing it"⟩
  | seek => ⟨"seek", "(position --)", "Seek the current item (negative counts from the end)"⟩
  | server =>
    ⟨"server", "(port --)", "Start the network server on a port (auxiliary endpoint on port + 1)"⟩
  | sin => ⟨"sin", "(x -- y)", "Sine of x (radians)"⟩
  | setSpeed =>
    ⟨"speed", "(n --)", "Set the playout speed (0 pauses, negative plays backwards)"⟩
  | speed => ⟨"speed?", "(-- n)", "Push the playout speed"⟩
  | status => ⟨"status?", "(--)", "Print speed, position and frame count of the current item"⟩
  | store =>
    ⟨"store", "store name=value ... .",
      "Collect name=value tokens until '.' and apply them to the first store"⟩
  | tan => ⟨"tan", "(x -- y)", "Tangent of x (radians)"⟩

def name (w : Word) : String := w.entry.name

def all : List Word :=
  [pow, play, add, clone, cos, exit, generation, grab, help, includeScript, insert, logLevel, next,
    playing, playlist, position, prev, previous, props, render, seek, server, sin, setSpeed, speed,
    status, store, tan]

def ofName? (token : String) : Option Word := all.find? (·.name = token)

end Word

end Playout.Console
