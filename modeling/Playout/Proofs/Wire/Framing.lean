import Mathlib.Data.List.Infix
import Playout.Wire.Line

namespace Playout.Wire

def Clean (bytes : List UInt8) : Prop := ¬lineEnd <:+: bytes

structure Framed (bytes : List UInt8) (lines : List (List UInt8)) (rest : List UInt8) : Prop where
  joined : bytes = lines.flatMap (· ++ lineEnd) ++ rest
  lines : ∀ line ∈ lines, Clean line
  rest : Clean rest

theorem Clean.sub {l m : List UInt8} (h : Clean m) (hl : l <:+: m) : Clean l :=
  fun hm => h (hm.trans hl)

theorem clean_nil : Clean [] := by
  simp [Clean, lineEnd]

theorem lineEnd_suffix_iff (l : List UInt8) (b : UInt8) :
    lineEnd <:+ l ++ [b] ↔ l.getLast? = some 13 ∧ b = 10 := by
  constructor
  · rintro ⟨front, hf⟩
    have hs : (front ++ [13]) ++ [10] = l ++ [b] := by simpa [lineEnd] using hf
    obtain ⟨hl, hb⟩ := List.append_inj' hs rfl
    subst hl
    exact ⟨by simp, by simpa using hb.symm⟩
  · rintro ⟨hl, rfl⟩
    obtain ⟨front, rfl⟩ := List.getLast?_eq_some_iff.1 hl
    exact ⟨front, by simp [lineEnd]⟩

theorem clean_concat_iff (l : List UInt8) (b : UInt8) :
    Clean (l ++ [b]) ↔ Clean l ∧ ¬(l.getLast? = some 13 ∧ b = 10) := by
  rw [Clean, List.infix_concat_iff, lineEnd_suffix_iff, Clean]
  tauto

namespace Framing

def bytes (f : Framing) : List UInt8 :=
  f.finished.reverse.flatMap (· ++ lineEnd) ++ f.started.reverse

def Inv (f : Framing) : Prop := Framed f.bytes f.finished.reverse f.started.reverse

theorem feed_end (finished : List (List UInt8)) (line : List UInt8) :
    Framing.feed ⟨finished, 13 :: line⟩ 10 = ⟨line.reverse :: finished, []⟩ := rfl

theorem feed_other {f : Framing} {b : UInt8} (h : ¬(f.started.head? = some 13 ∧ b = 10)) :
    f.feed b = { f with started := b :: f.started } := by
  obtain ⟨finished, started⟩ := f
  unfold feed
  split
  · rename_i line hs
    simp only at hs
    subst hs
    rw [if_neg fun hb => h ⟨rfl, hb⟩]
  · rfl

theorem feed_inv {f : Framing} (h : f.Inv) (b : UInt8) :
    (f.feed b).Inv ∧ (f.feed b).bytes = f.bytes ++ [b] := by
  obtain ⟨finished, started⟩ := f
  by_cases hb : started.head? = some 13 ∧ b = 10
  · obtain ⟨hs, rfl⟩ := hb
    obtain ⟨line, rfl⟩ := List.head?_eq_some_iff.1 hs
    have hbytes : Framing.bytes ⟨line.reverse :: finished, []⟩ =
        Framing.bytes ⟨finished, 13 :: line⟩ ++ [10] := by
      simp [bytes, lineEnd]
    rw [feed_end]
    refine ⟨⟨by simp [bytes], fun l hl => ?_, clean_nil⟩, hbytes⟩
    simp only [List.reverse_cons, List.mem_append, List.mem_singleton] at hl
    obtain hl | rfl := hl
    · exact h.lines l hl
    · exact h.rest.sub ⟨[], [13], by simp⟩
  · rw [feed_other hb]
    refine ⟨⟨rfl, h.lines, ?_⟩, by simp [bytes]⟩
    have hc := (clean_concat_iff started.reverse b).2 ⟨h.rest, by simpa using hb⟩
    simpa using hc

theorem foldl_feed_inv (bs : List UInt8) {f : Framing} (h : f.Inv) :
    (bs.foldl feed f).Inv ∧ (bs.foldl feed f).bytes = f.bytes ++ bs := by
  induction bs generalizing f with
  | nil => exact ⟨h, by simp⟩
  | cons b bs ih =>
      obtain ⟨hi, hb⟩ := feed_inv h b
      obtain ⟨hr, hbs⟩ := ih hi
      exact ⟨hr, by rw [List.foldl_cons, hbs, hb, List.append_assoc, List.singleton_append]⟩

/-- Bytes that end no line extend the one that was started. -/
theorem foldl_feed_clean (finished : List (List UInt8)) (bs started : List UInt8)
    (h : Clean (started.reverse ++ bs)) :
    bs.foldl feed ⟨finished, started⟩ = ⟨finished, bs.reverse ++ started⟩ := by
  induction bs generalizing started with
  | nil => rfl
  | cons b bs ih =>
      have hb : ¬(started.head? = some 13 ∧ b = 10) := by
        have hc : Clean (started.reverse ++ [b]) := h.sub ⟨[], bs, by simp⟩
        simpa using ((clean_concat_iff _ b).1 hc).2
      rw [List.foldl_cons, feed_other hb, ih (b :: started) (by simpa using h)]
      simp

theorem foldl_feed_line (finished : List (List UInt8)) {line : List UInt8} (h : Clean line)
    (bs : List UInt8) :
    (line ++ lineEnd ++ bs).foldl feed ⟨finished, []⟩ = bs.foldl feed ⟨line :: finished, []⟩ := by
  have hc : Clean (line ++ [13]) := (clean_concat_iff _ _).2 ⟨h, by simp⟩
  have hl := foldl_feed_clean finished (line ++ [13]) [] (by simpa using hc)
  have hb : line ++ lineEnd ++ bs = (line ++ [13]) ++ 10 :: bs := by simp [lineEnd]
  rw [hb, List.foldl_append, hl, List.foldl_cons]
  simp [feed_end]

end Framing

theorem extract_framed (buffer : List UInt8) :
    Framed buffer (extract buffer).1 (extract buffer).2 := by
  have h0 : Framing.Inv {} := ⟨rfl, by simp, clean_nil⟩
  obtain ⟨hi, hb⟩ := Framing.foldl_feed_inv buffer h0
  have he : (buffer.foldl Framing.feed {}).bytes = buffer := by simpa [Framing.bytes] using hb
  rw [Framing.Inv, he] at hi
  exact hi

theorem extract_of_framed {bytes rest : List UInt8} {lines : List (List UInt8)}
    (h : Framed bytes lines rest) : extract bytes = (lines, rest) := by
  have hf (finished : List (List UInt8)) :
      bytes.foldl Framing.feed ⟨finished, []⟩ = ⟨lines.reverse ++ finished, rest.reverse⟩ := by
    obtain ⟨rfl, hl, hr⟩ := h
    induction lines generalizing finished with
    | nil => simpa using Framing.foldl_feed_clean finished rest [] (by simpa using hr)
    | cons line lines ih =>
        have hline := Framing.foldl_feed_line finished (hl line (by simp))
          (lines.flatMap (· ++ lineEnd) ++ rest)
        rw [List.flatMap_cons, List.append_assoc, hline,
          ih (line :: finished) (fun l hm => hl l (by simp [hm]))]
        simp
  simp [extract, hf []]

theorem extract_eq_iff (bytes : List UInt8) (lines : List (List UInt8)) (rest : List UInt8) :
    extract bytes = (lines, rest) ↔ Framed bytes lines rest := by
  constructor
  · intro h
    have hf := extract_framed bytes
    rwa [h] at hf
  · exact extract_of_framed

theorem Framed.append {x y rest rest' : List UInt8} {lines lines' : List (List UInt8)}
    (h : Framed x lines rest) (h' : Framed (rest ++ y) lines' rest') :
    Framed (x ++ y) (lines ++ lines') rest' := by
  refine ⟨?_, fun l hl => ?_, h'.rest⟩
  · rw [h.joined, List.append_assoc, h'.joined, List.flatMap_append, List.append_assoc]
  · exact (List.mem_append.1 hl).elim (h.lines l) (h'.lines l)

/-- What is extracted at once is what is extracted at two times. -/
theorem extract_append (x y : List UInt8) :
    extract (x ++ y) =
      ((extract x).1 ++ (extract ((extract x).2 ++ y)).1, (extract ((extract x).2 ++ y)).2) :=
  extract_of_framed ((extract_framed x).append (extract_framed _))

theorem extract_line {line : List UInt8} (h : Clean line) (more : List UInt8) :
    extract (line ++ lineEnd ++ more) = (line :: (extract more).1, (extract more).2) := by
  have he : extract (line ++ lineEnd) = ([line], []) :=
    extract_of_framed ⟨by simp, by simpa using h, clean_nil⟩
  rw [extract_append, he]
  rfl

theorem clean_of_not_mem {bytes : List UInt8} (h : 13 ∉ bytes) : Clean bytes :=
  fun hi => h (hi.subset (by simp [lineEnd]))

theorem extract_of_clean {bytes : List UInt8} (h : Clean bytes) : extract bytes = ([], bytes) :=
  extract_of_framed ⟨by simp, by simp, h⟩

theorem extract_of_not_mem {bytes : List UInt8} (h : 13 ∉ bytes) : extract bytes = ([], bytes) :=
  extract_of_clean (clean_of_not_mem h)

end Playout.Wire
