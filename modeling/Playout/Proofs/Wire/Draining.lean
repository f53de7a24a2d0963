import Playout.Proofs.Wire.Framing

namespace Playout.Wire

/-- The place where the first line end begins. -/
def endPlace? (buffer : List UInt8) : Option Nat :=
  buffer.tails.findIdx? fun more => lineEnd.isPrefixOf more

theorem clean_of_endPlace? {buffer : List UInt8} (h : endPlace? buffer = none) : Clean buffer := by
  intro hi
  obtain ⟨more, hm, hs⟩ := List.infix_iff_prefix_suffix.1 hi
  have hn := List.findIdx?_eq_none_iff.1 h more ((List.mem_tails _ _).2 hs)
  simp [List.isPrefixOf_iff_prefix.2 hm] at hn

/-- No line end begins before the place, so none is in what stands before it. -/
theorem cut_of_endPlace? {buffer : List UInt8} {i : Nat} (h : endPlace? buffer = some i) :
    Clean (buffer.take i) ∧ buffer = buffer.take i ++ lineEnd ++ buffer.drop (i + 2) := by
  obtain ⟨hi, hp, hfirst⟩ := List.findIdx?_eq_some_iff_getElem.1 h
  simp only [List.getElem_tails, List.isPrefixOf_iff_prefix] at hp hfirst
  obtain ⟨more, hm⟩ := hp
  constructor
  · rintro ⟨front, back, hb⟩
    have hlt : front.length < i := by
      have hl := congrArg List.length hb
      simp only [lineEnd, List.length_append, List.length_cons, List.length_take] at hl
      omega
    have hd : buffer.drop front.length = lineEnd ++ (back ++ buffer.drop i) := by
      nth_rewrite 1 [← List.take_append_drop i buffer]
      rw [← hb]
      simp
    exact hfirst front.length hlt ⟨_, hd.symm⟩
  · have hd : buffer.drop (i + 2) = more := by
      rw [← List.drop_drop, ← hm]
      rfl
    rw [hd, List.append_assoc, hm, List.take_append_drop]

theorem length_drop_lt {buffer : List UInt8} {i : Nat} (h : endPlace? buffer = some i) :
    (buffer.drop (i + 2)).length < buffer.length := by
  have hl := congrArg List.length (cut_of_endPlace? h).2
  simp only [lineEnd, List.length_append, List.length_cons] at hl
  omega

/-- The lines of a buffer as a loop takes them off it, one after another. -/
def drain (buffer : List UInt8) : List (List UInt8) × List UInt8 :=
  match h : endPlace? buffer with
  | none => ([], buffer)
  | some i =>
    have := length_drop_lt h
    let (lines, rest) := drain (buffer.drop (i + 2))
    (buffer.take i :: lines, rest)
  termination_by buffer.length

theorem extract_eq_drain (buffer : List UInt8) : extract buffer = drain buffer := by
  fun_induction drain buffer with
  | case1 buffer h => exact extract_of_clean (clean_of_endPlace? h)
  | case2 buffer i h _ lines rest hd ih =>
      obtain ⟨hc, hb⟩ := cut_of_endPlace? h
      have he := extract_line hc (buffer.drop (i + 2))
      rw [← hb, ih, hd] at he
      exact he

/-- What is extracted is the one way to cut a buffer into lines, each with its end behind it and
none inside, and a rest without one. The loop that drains the buffer finds it. Extracted at two
times, with bytes that come in between, it is the same. -/
theorem extract_exact :
    (∀ buffer lines rest, extract buffer = (lines, rest) ↔ Framed buffer lines rest) ∧
      (∀ buffer, extract buffer = drain buffer) ∧
      ∀ x y, extract (x ++ y) =
        ((extract x).1 ++ (extract ((extract x).2 ++ y)).1, (extract ((extract x).2 ++ y)).2) :=
  ⟨extract_eq_iff, extract_eq_drain, extract_append⟩

end Playout.Wire
