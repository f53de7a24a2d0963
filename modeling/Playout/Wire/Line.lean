import Playout.Text.Utf8

namespace Playout.Wire

def lineEnd : List UInt8 := [13, 10]

/-- Bytes cut into lines so far: the finished ones, and the start of the next. Both are kept
backwards, the newest in front. -/
structure Framing where
  finished : List (List UInt8) := []
  started : List UInt8 := []
  deriving DecidableEq, Repr

def Framing.feed (f : Framing) (b : UInt8) : Framing :=
  match f.started with
  | 13 :: line =>
    if b = 10 then ⟨line.reverse :: f.finished, []⟩ else { f with started := b :: 13 :: line }
  | started => { f with started := b :: started }

def extract (buffer : List UInt8) : List (List UInt8) × List UInt8 :=
  let f := buffer.foldl Framing.feed {}
  (f.finished.reverse, f.started.reverse)

def portions (size : Nat) (bytes : List UInt8) : List (List UInt8) :=
  if bytes = [] then []
  else bytes.take (max size 1) :: portions size (bytes.drop (max size 1))
  termination_by bytes.length
  decreasing_by
    have : bytes.length ≠ 0 := by simp_all
    simp only [List.length_drop]
    omega

end Playout.Wire
