import Mathlib.Data.List.DropRight
import Playout.Proofs.Text.Utf8
import Playout.Text.Input

namespace Playout.Text

open Utf8

theorem Utf8.encode_feed : encode "\n" = [10] := by
  rw [encode_eq]
  rfl

theorem Utf8.encode_return : encode "\r" = [13] := by
  rw [encode_eq]
  rfl

theorem takeLine?_of_not_mem {front : List UInt8} (h : 10 ∉ front) (back : List UInt8) :
    takeLine? (front ++ 10 :: back) = some (front ++ [10], back) := by
  have hf (bytes : List UInt8) (hb : 10 ∉ bytes) (done : List UInt8) :
      takeLineFrom done (bytes ++ 10 :: back) = (done.reverse ++ bytes ++ [10], back) := by
    induction bytes generalizing done with
    | nil => simp [takeLineFrom]
    | cons b bytes ih =>
        simp only [List.mem_cons, not_or] at hb
        rw [List.cons_append, takeLineFrom, if_neg (Ne.symm hb.1), ih hb.2]
        simp
  cases front with
  | nil => simp [takeLine?]
  | cons b front =>
      simp only [List.mem_cons, not_or] at h
      rw [List.cons_append, takeLine?, if_neg (Ne.symm h.1), hf front h.2]
      simp

theorem takeLine?_encode {text : String} (h : '\n' ∉ text.toList) (back : List UInt8) :
    takeLine? (encode text ++ 10 :: back) = some (encode (text ++ "\n"), back) := by
  have hb : (10 : UInt8) ∉ encode text := fun hm =>
    h ((mem_encode_iff (show '\n'.toNat < 128 by decide)).1 hm)
  rw [takeLine?_of_not_mem hb, encode_append, encode_feed]

theorem dropLineEnd_feed (cs : List Char) :
    dropLineEnd (cs ++ ['\n']) = dropLineEnd cs := by
  simp [dropLineEnd]

theorem dropLineEnd_return (cs : List Char) :
    dropLineEnd (cs ++ ['\r']) = dropLineEnd cs := by
  simp [dropLineEnd]

theorem lineText_encode (text : String) :
    lineText (encode text) = .ok (String.ofList (dropLineEnd text.toList)) := by
  rw [lineText, decode_encode]
  rfl

theorem takeLine?_last {bytes : List UInt8} (h : 10 ∉ bytes) (hne : bytes ≠ []) :
    takeLine? bytes = some (bytes, []) := by
  have hf (bytes : List UInt8) (hb : 10 ∉ bytes) (done : List UInt8) :
      takeLineFrom done bytes = (done.reverse ++ bytes, []) := by
    induction bytes generalizing done with
    | nil => simp [takeLineFrom]
    | cons b bytes ih =>
        simp only [List.mem_cons, not_or] at hb
        rw [takeLineFrom, if_neg (Ne.symm hb.1), ih hb.2]
        simp
  cases bytes with
  | nil => exact absurd rfl hne
  | cons b bytes =>
      simp only [List.mem_cons, not_or] at h
      rw [takeLine?, if_neg (Ne.symm h.1), hf bytes h.2]
      rfl

def OneLine (line : String) : Prop := '\r' ∉ line.toList ∧ '\n' ∉ line.toList

theorem dropLineEnd_of_oneLine {line : String} (h : OneLine line) :
    dropLineEnd line.toList = line.toList := by
  refine List.rdropWhile_eq_self_iff.2 fun hne hlast => ?_
  have hm := List.getLast_mem hne
  obtain hc | hc : line.toList.getLast hne = '\r' ∨ line.toList.getLast hne = '\n' := by
    simpa using hlast
  · exact h.1 (hc ▸ hm)
  · exact h.2 (hc ▸ hm)

/-- Input that was typed as these lines. The last may lack its line feed. -/
inductive Typed : List UInt8 → List String → Prop
  | nothing : Typed [] []
  | unended {line : String} (oneLine : OneLine line) (nonempty : line ≠ "") : Typed (encode line) [line]
  | line {line : String} {more : List UInt8} {lines : List String} (oneLine : OneLine line)
      (rest : Typed more lines) : Typed (encode line ++ 10 :: more) (line :: lines)

theorem Typed.read {input : List UInt8} {line : String} {lines : List String}
    (h : Typed input (line :: lines)) :
    ∃ bytes more, takeLine? input = some (bytes, more) ∧ lineText bytes = .ok line ∧
      OneLine line ∧ Typed more lines := by
  cases h with
  | unended oneLine nonempty =>
      have hb : (10 : UInt8) ∉ encode line := fun hm =>
        oneLine.2 ((mem_encode_iff (show '\n'.toNat < 128 by decide)).1 hm)
      have hne : encode line ≠ [] := fun he => nonempty ((encode_eq_nil_iff line).1 he)
      refine ⟨_, _, takeLine?_last hb hne, ?_, oneLine, .nothing⟩
      rw [lineText_encode, dropLineEnd_of_oneLine oneLine, String.ofList_toList]
  | line oneLine rest =>
      refine ⟨_, _, takeLine?_encode oneLine.2 _, ?_, oneLine, rest⟩
      have hd : dropLineEnd (line ++ "\n").toList = line.toList := by
        rw [String.toList_append]
        exact (dropLineEnd_feed _).trans (dropLineEnd_of_oneLine oneLine)
      rw [lineText_encode, hd, String.ofList_toList]

end Playout.Text
