import Playout.Number.Integer

namespace Playout

structure ServerSettings where
  bind : String := "0.0.0.0"
  port : Nat := 55378
  auxEndpoint : Bool := true
  pollIntervalMs : Nat := 10
  readChunk : Nat := 1024
  deriving DecidableEq, Repr

def defaultPort : Nat := ({} : ServerSettings).port

namespace ServerSettings

def pollInterval (s : ServerSettings) : Nat := max s.pollIntervalMs 1

def auxPort? (s : ServerSettings) : Option Nat :=
  if s.auxEndpoint ∧ s.port + 1 < Number.portLimit then some (s.port + 1) else none

def chunk (s : ServerSettings) : Nat := max s.readChunk 1

end ServerSettings

structure PlayerSettings where
  historyCapacity : Nat := 10
  seekTimeoutMs : Nat := 250
  idleWaitMs : Nat := 100
  frameRate : Nat := 25
  deriving DecidableEq, Repr

def PlayerSettings.idleWait (s : PlayerSettings) : Nat := max s.idleWaitMs 1

structure ShellSettings where
  prompt : String := "cuebox> "
  includeDirs : List String := []
  startup : List String := []
  deriving DecidableEq, Repr

structure Settings where
  server : ServerSettings := {}
  player : PlayerSettings := {}
  shell : ShellSettings := {}
  deriving DecidableEq, Repr

end Playout
