import Playout.Proofs.Console.Output
import Playout.Proofs.Text.Utf8
import Playout.Proofs.Wire.Framing
import Playout.Wire.Reply

namespace Playout.Wire

open Text.Utf8

theorem eq_of_mem_encodeChar {c d : Char} (hd : d.toNat < 128)
    (h : UInt8.ofNat d.toNat ∈ String.utf8EncodeChar c) :
    c = d ∧ String.utf8EncodeChar c = [UInt8.ofNat d.toNat] := by
  have hn := toNat_ofNat_of_lt (show d.toNat < 256 by omega)
  obtain ⟨he, hc⟩ := encodeChar_of_mem h (by omega)
  exact ⟨Char.toNat_inj.1 (hc.trans hn), he⟩

theorem eq_cons_of_encodeChars {cs : List Char} {d : Char} {bytes : List UInt8}
    (hd : d.toNat < 128) (h : cs.flatMap String.utf8EncodeChar = UInt8.ofNat d.toNat :: bytes) :
    ∃ ds, cs = d :: ds := by
  cases cs with
  | nil => simp at h
  | cons c cs =>
      obtain ⟨b, more, hb⟩ := List.exists_cons_of_ne_nil (String.utf8EncodeChar_ne_nil (c := c))
      rw [List.flatMap_cons, hb, List.cons_append] at h
      obtain ⟨rfl, -⟩ := eq_of_mem_encodeChar (c := c) hd (by simp [hb, (List.cons.inj h).1])
      exact ⟨cs, rfl⟩

theorem lineEnd_infix_encode_iff (cs : List Char) :
    lineEnd <:+: cs.flatMap String.utf8EncodeChar ↔ ['\r', '\n'] <:+: cs := by
  constructor
  · intro h
    induction cs with
    | nil => simp [lineEnd] at h
    | cons c cs ih =>
        obtain ⟨front, back, h⟩ := h
        rw [List.flatMap_cons, List.append_assoc, List.append_eq_append_iff] at h
        obtain ⟨m, hc, hr⟩ | ⟨m, hc, hr⟩ := h
        · cases m with
          | nil =>
              have hi := ih ⟨[], back, by simpa using hr⟩
              exact hi.trans (List.suffix_cons c cs).isInfix
          | cons b m =>
              -- The line end starts inside the character, which then is the carriage return.
              obtain ⟨rfl, hr⟩ := List.cons.inj hr
              obtain ⟨rfl, he⟩ := eq_of_mem_encodeChar (c := c) (d := '\r') (by decide)
                (by rw [hc]; simp)
              obtain rfl : m = [] := by
                rw [he] at hc
                cases front <;> simp_all
              have ht : cs.flatMap String.utf8EncodeChar = UInt8.ofNat '\n'.toNat :: back := by
                simpa [lineEnd] using hr.symm
              obtain ⟨ds, rfl⟩ := eq_cons_of_encodeChars (by decide) ht
              exact ⟨[], ds, rfl⟩
        · have hi := ih ⟨m, back, by simpa using hr.symm⟩
          exact hi.trans (List.suffix_cons c cs).isInfix
  · rintro ⟨front, back, rfl⟩
    exact ⟨front.flatMap String.utf8EncodeChar, back.flatMap String.utf8EncodeChar,
      by simp [lineEnd, encodeChar_ascii (c := '\r') (by decide),
        encodeChar_ascii (c := '\n') (by decide)]⟩

theorem clean_encode_iff (text : String) : Clean (encode text) ↔ ¬['\r', '\n'] <:+: text.toList := by
  rw [Clean, encode_eq, lineEnd_infix_encode_iff]

theorem clean_encode_of_not_mem {text : String} (h : '\n' ∉ text.toList) : Clean (encode text) := by
  rw [clean_encode_iff]
  intro hi
  exact h (hi.subset (by simp))

theorem clean_failed_iff (reason : String) :
    Clean (encode (Verdict.failed reason).line) ↔ ¬['\r', '\n'] <:+: reason.toList := by
  have hm : (Verdict.failed reason).line.toList = "ERROR: ".toList ++ reason.toList := by
    simp [Verdict.line, errorMark]
  rw [clean_encode_iff, hm]
  simp [List.infix_cons_iff, List.cons_prefix_cons]

theorem framed_lines_iff (lines : List String) :
    Framed (lines.flatMap encodeLine) (lines.map encode) [] ↔ ∀ line ∈ lines, Clean (encode line) := by
  constructor
  · intro h line hl
    exact h.lines _ (List.mem_map_of_mem hl)
  · intro h
    refine ⟨?_, by simpa using h, clean_nil⟩
    rw [List.flatMap_map, List.append_nil]
    rfl

theorem mem_lines_iff (r : Reply) (line : String) :
    line ∈ r.lines ↔ line ∈ r.output ∨ line = r.verdict.line := by
  simp [Reply.lines]

/-- Reads the reply back from its bytes. -/
theorem extract_bytes_iff {r : Reply} (h : ∀ line ∈ r.output, '\n' ∉ line.toList) :
    extract r.bytes = (r.lines.map encode, []) ↔
      ∀ reason, r.verdict = .failed reason → ¬['\r', '\n'] <:+: reason.toList := by
  rw [extract_eq_iff, Reply.bytes, framed_lines_iff]
  constructor
  · intro hc reason hr
    have hl := hc r.verdict.line ((mem_lines_iff r _).2 (.inr rfl))
    rwa [hr, clean_failed_iff] at hl
  · intro hr line hl
    obtain hl | rfl := (mem_lines_iff r line).1 hl
    · exact clean_encode_of_not_mem (h line hl)
    · cases hv : r.verdict with
      | ok => exact clean_encode_of_not_mem (by decide)
      | failed reason => exact (clean_failed_iff reason).2 (hr reason hv)

theorem Verdict.line_cases (v : Verdict) : v.line = "OK" ∨ "ERROR: ".toList <+: v.line.toList := by
  cases v with
  | ok => exact .inl rfl
  | failed reason => exact .inr ⟨reason.toList, by simp [Verdict.line, errorMark]⟩

/-- One verdict ends a reply, nothing is left at the desk, and the peer gets the lines as they were
unless the reason for a failure has a line end in it. -/
theorem answer_framed_iff {desk : Desk} (h : desk.console.Unbroken) (line : String) :
    (∃ verdict, (answer line desk).1.lines = (answer line desk).1.output ++ [verdict] ∧
      (verdict = "OK" ∨ "ERROR: ".toList <+: verdict.toList)) ∧
    (∀ text ∈ (answer line desk).1.output, '\n' ∉ text.toList) ∧
    (answer line desk).2.console.interpreter.output = [] ∧
    (answer line desk).2.console.signals = [] ∧
    (extract (answer line desk).1.bytes = ((answer line desk).1.lines.map encode, []) ↔
      ∀ reason, (answer line desk).1.verdict = .failed reason → ¬['\r', '\n'] <:+: reason.toList) := by
  have ho : ∀ text ∈ (answer line desk).1.output, '\n' ∉ text.toList := h.define line
  exact ⟨⟨_, rfl, Verdict.line_cases _⟩, ho, rfl, rfl, extract_bytes_iff ho⟩

theorem answer_framed_iff_failing :
    ({} : Console).Unbroken ∧
      extract (answer "OK . drop" ⟨{}, {}⟩).1.bytes =
        ((answer "OK . drop" ⟨{}, {}⟩).1.lines.map encode, []) := by
  have h : ({} : Console).Unbroken := by simp [Console.Unbroken, Stack.Interpreter.Unbroken]
  have hv : (answer "OK . drop" ⟨{}, {}⟩).1.verdict = .failed "stack underflow (drop)" := by
    decide +kernel
  refine ⟨h, (@answer_framed_iff ⟨{}, {}⟩ h "OK . drop").2.2.2.2.2 fun reason hr => ?_⟩
  obtain rfl := Verdict.failed.inj (hv.symm.trans hr)
  decide

theorem answer_of_hidden_line_end :
    ¬['\r', '\n'] <:+: "nope:\r\\\nx".toList ∧
      (answer "nope:\r\\\nx" ⟨{}, {}⟩).1.lines.length = 1 ∧
      (extract (answer "nope:\r\\\nx" ⟨{}, {}⟩).1.bytes).1.length = 3 := by
  decide +kernel

end Playout.Wire
