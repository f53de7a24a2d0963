import Playout.Media.Item

namespace Playout

open Media (Frame)

/-- The answers a scripted store gives to its n-th `init` and `push`, and the properties it has. -/
structure Store.Script where
  onInit : Nat → Bool
  onPush : Nat → Bool
  hasProperty : String → Bool

inductive Store where
  | null (pushed completed : Nat)
  | clock (fps delivered : Nat)
  | scripted (script : Store.Script) (inits pushes : Nat)

namespace Store

def ofRate (fps : Nat) : Store := .clock (max fps 1) 0

def init : Store → Bool × Store
  | null p c => (true, null p c)
  | clock f d => (true, clock f d)
  | scripted s i p => (s.onInit i, scripted s (i + 1) p)

def push (_ : Frame) : Store → Bool × Store
  | null p c => (true, null (p + 1) c)
  | clock f d => (true, clock f (d + 1))
  | scripted s i p => (s.onPush p, scripted s i (p + 1))

def complete : Store → Bool × Store
  | null p c => (true, null p (c + 1))
  | clock f d => (true, clock f d)
  | scripted s i p => (true, scripted s i p)

/-- A clock has its rate for a property; the other values it refuses. -/
def set (name value : String) : Store → Bool × Store
  | null p c => (false, null p c)
  | clock f d =>
    match if name = "fps" then Number.below? 4294967296 value.toList else none with
    | some (n + 1) => (true, clock (n + 1) d)
    | _ => (false, clock f d)
  | scripted s i p => (s.hasProperty name, scripted s i p)

inductive Call where
  | init (store : Nat) (ok : Bool)
  | push (store : Nat) (ok : Bool) (frame : Frame)
  | complete (store : Nat)
  | set (store : Nat) (ok : Bool) (name value : String)
  deriving DecidableEq, Repr

def Call.store : Call → Nat
  | init i _ | push i _ _ | complete i | set i _ _ _ => i

end Store

end Playout
