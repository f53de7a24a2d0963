import Playout.Proofs.Text.Utf8
import Playout.Text.Percent

namespace Playout.Text.Percent

/-- Every byte stands as a percent sign and its two digits, in small letters or in capitals. -/
inductive Escaped : List UInt8 → List UInt8 → Prop
  | nil : Escaped [] []
  | byte {h l high low : UInt8} {bytes text : List UInt8} (hh : hexValue? h = some high)
      (hl : hexValue? l = some low) (rest : Escaped bytes text) :
      Escaped ((high * 16 + low) :: bytes) (37 :: h :: l :: text)

theorem decode_cons {b : UInt8} (hb : b ≠ 37) (rest : List UInt8) :
    decode (b :: rest) = b :: decode rest := by
  rw [decode]
  simp [hb]

theorem decode_append_of_not_mem {plain : List UInt8} (h : 37 ∉ plain) (more : List UInt8) :
    decode (plain ++ more) = plain ++ decode more := by
  induction plain with
  | nil => rfl
  | cons b plain ih =>
      rw [List.mem_cons, not_or] at h
      rw [List.cons_append, decode_cons (Ne.symm h.1), ih h.2, List.cons_append]

theorem Escaped.decode_append {bytes text : List UInt8} (h : Escaped bytes text)
    (more : List UInt8) : decode (text ++ more) = bytes ++ decode more := by
  induction h with
  | nil => rfl
  | byte hh hl _ ih => simp only [List.cons_append, decode, hh, hl, ih]

theorem hexValue?_hexDigit {n : UInt8} (h : n.toNat < 16) : hexValue? (hexDigit n) = some n := by
  have hd : ∀ i : Fin 16, hexValue? (hexDigit (.ofNat i)) = some (.ofNat i) := by decide
  have hn := hd ⟨n.toNat, h⟩
  rwa [UInt8.ofNat_toNat] at hn

theorem escaped_encode (bytes : List UInt8) : Escaped bytes (encode bytes) := by
  induction bytes with
  | nil => exact .nil
  | cons b bytes ih =>
      have hb := b.toNat_lt
      have hhigh : (b / 16).toNat < 16 := by
        simp only [UInt8.toNat_div, UInt8.reduceToNat]
        omega
      have hlow : (b % 16).toNat < 16 := by
        simp only [UInt8.toNat_mod, UInt8.reduceToNat]
        omega
      have hsum : b / 16 * 16 + b % 16 = b := by
        rw [← UInt8.toNat_inj]
        simp only [UInt8.toNat_add, UInt8.toNat_mul, UInt8.toNat_div, UInt8.toNat_mod,
          UInt8.reduceToNat]
        omega
      have h := Escaped.byte (hexValue?_hexDigit hhigh) (hexValue?_hexDigit hlow) ih
      rwa [hsum] at h

theorem bounds_of_hexValue? {b v : UInt8} (h : hexValue? b = some v) :
    48 ≤ b.toNat ∧ b.toNat ≤ 102 := by
  simp only [hexValue?, Bool.and_eq_true, decide_eq_true_eq, UInt8.le_iff_toNat_le,
    UInt8.reduceToNat] at h
  split at h
  · omega
  · split at h
    · omega
    · split at h
      · omega
      · cases h

theorem Escaped.bounds {bytes text : List UInt8} (h : Escaped bytes text) :
    ∀ b ∈ text, 37 ≤ b.toNat ∧ b.toNat ≤ 102 := by
  induction h with
  | nil => simp
  | byte hh hl _ ih =>
      have hh := bounds_of_hexValue? hh
      have hl := bounds_of_hexValue? hl
      simp only [List.forall_mem_cons]
      exact ⟨by decide, by omega, by omega, ih⟩

def Escapes (source text : String) : Prop := Escaped (Utf8.encode source) (Utf8.encode text)

theorem Escapes.bounds {source text : String} (h : Escapes source text) :
    ∀ c ∈ text.toList, 37 ≤ c.toNat ∧ c.toNat ≤ 102 := by
  intro c hc
  obtain ⟨b, hb⟩ := List.exists_mem_of_ne_nil _ (String.utf8EncodeChar_ne_nil (c := c))
  have hm : b ∈ Utf8.encode text := by
    rw [Utf8.encode_eq]
    exact List.mem_flatMap.2 ⟨c, hc, hb⟩
  obtain ⟨hl, hu⟩ := Escaped.bounds h b hm
  rw [(Utf8.encodeChar_of_mem hb (by omega)).2]
  exact ⟨hl, hu⟩

def escape (source : String) : String :=
  String.ofList ((encode (Utf8.encode source)).map fun b => Char.ofNat b.toNat)

theorem escapes_escape (source : String) : Escapes source (escape source) := by
  have h := escaped_encode (Utf8.encode source)
  have hb := h.bounds
  have he : Utf8.encode (escape source) = encode (Utf8.encode source) := by
    rw [escape, Utf8.encode_eq, String.toList_ofList]
    generalize encode (Utf8.encode source) = text at hb
    induction text with
    | nil => rfl
    | cons b text ih =>
        obtain ⟨hb, ht⟩ := List.forall_mem_cons.1 hb
        have hc : (Char.ofNat b.toNat).toNat = b.toNat := by
          have hv : b.toNat.isValidChar := .inl (by omega)
          rw [Char.ofNat, dif_pos hv]
          rfl
        rw [List.map_cons, List.flatMap_cons, ih ht, Utf8.encodeChar_ascii (by omega), hc,
          UInt8.ofNat_toNat]
        rfl
  rwa [Escapes, he]

end Playout.Text.Percent
