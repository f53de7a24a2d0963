import Mathlib.Data.List.Infix
import Playout.Text.Utf8

namespace Playout.Text.Utf8

theorem toList_loop_eq (bytes : ByteArray) (i : Nat) (done : List UInt8) :
    ByteArray.toList.loop bytes i done = done.reverse ++ bytes.data.toList.drop i := by
  fun_induction ByteArray.toList.loop bytes i done with
  | case1 i done hi ih =>
      have hd : i < bytes.data.toList.length := by simpa using hi
      rw [ih, List.drop_eq_getElem_cons hd]
      simp [ByteArray.get!, hi]
  | case2 i done hi =>
      have hd : bytes.data.toList.length ≤ i := by simpa using hi
      simp [List.drop_eq_nil_of_le hd]

theorem encode_eq (text : String) : encode text = text.toList.flatMap String.utf8EncodeChar := by
  have h : text.toUTF8 = (text.toList.flatMap String.utf8EncodeChar).toByteArray := by
    rw [String.toUTF8_eq_toByteArray, ← String.utf8Encode_toList, List.utf8Encode]
  rw [encode, h, ByteArray.toList, toList_loop_eq]
  simp

theorem encode_append (text more : String) : encode (text ++ more) = encode text ++ encode more := by
  simp [encode_eq]

theorem encode_eq_nil_iff (text : String) : encode text = [] ↔ text = "" := by
  rw [encode_eq, ← String.toList_inj]
  cases text.toList with
  | nil => simp
  | cons c cs => simp [String.utf8EncodeChar_ne_nil]

theorem shape?_one {b : UInt8} (h : b.toNat < 128) : shape? b = some (0, 0x80, 0xBF) := by
  simp [shape?, UInt8.lt_iff_toNat_lt, h]

theorem shape?_two {b : UInt8} (hl : 194 ≤ b.toNat) (hu : b.toNat < 224) :
    shape? b = some (1, 0x80, 0xBF) := by
  have h1 : ¬b.toNat < 128 := by omega
  have h2 : ¬b.toNat < 194 := by omega
  simp [shape?, UInt8.lt_iff_toNat_lt, h1, h2, hu]

theorem between {lo c hi : UInt8} (hl : lo.toNat ≤ c.toNat) (hh : c.toNat ≤ hi.toNat) :
    (lo ≤ c && c ≤ hi) = true := by
  simp [UInt8.le_iff_toNat_le, hl, hh]

theorem shape?_three {b c : UInt8} (hl : 224 ≤ b.toNat) (hu : b.toNat < 240) (hc : 128 ≤ c.toNat)
    (hc' : c.toNat < 192) (hshort : b.toNat = 224 → 160 ≤ c.toNat)
    (hsurrogate : b.toNat = 237 → c.toNat < 160) :
    ∃ lo hi, shape? b = some (2, lo, hi) ∧ (lo ≤ c && c ≤ hi) = true := by
  by_cases he : b.toNat = 224
  · obtain rfl : b = 224 := UInt8.toNat_inj.1 he
    exact ⟨0xA0, 0xBF, rfl, between (hshort rfl) (Nat.le_of_lt_succ hc')⟩
  · by_cases hd : b.toNat = 237
    · obtain rfl : b = 237 := UInt8.toNat_inj.1 hd
      exact ⟨0x80, 0x9F, rfl, between hc (Nat.le_of_lt_succ (hsurrogate rfl))⟩
    · have h1 : ¬b.toNat < 128 := by omega
      have h2 : ¬b.toNat < 194 := by omega
      have h3 : ¬b.toNat < 224 := by omega
      refine ⟨0x80, 0xBF, ?_, between hc (Nat.le_of_lt_succ hc')⟩
      simp [shape?, UInt8.lt_iff_toNat_lt, ← UInt8.toNat_inj, h1, h2, h3, he, hd, hu]

theorem shape?_four {b c : UInt8} (hl : 240 ≤ b.toNat) (hu : b.toNat < 245) (hc : 128 ≤ c.toNat)
    (hc' : c.toNat < 192) (hshort : b.toNat = 240 → 144 ≤ c.toNat)
    (hlast : b.toNat = 244 → c.toNat < 144) :
    ∃ lo hi, shape? b = some (3, lo, hi) ∧ (lo ≤ c && c ≤ hi) = true := by
  by_cases he : b.toNat = 240
  · obtain rfl : b = 240 := UInt8.toNat_inj.1 he
    exact ⟨0x90, 0xBF, rfl, between (hshort rfl) (Nat.le_of_lt_succ hc')⟩
  · by_cases hd : b.toNat = 244
    · obtain rfl : b = 244 := UInt8.toNat_inj.1 hd
      exact ⟨0x80, 0x8F, rfl, between hc (Nat.le_of_lt_succ (hlast rfl))⟩
    · have h1 : ¬b.toNat < 128 := by omega
      have h2 : ¬b.toNat < 194 := by omega
      have h3 : ¬b.toNat < 224 := by omega
      have h4 : b.toNat ≠ 224 := by omega
      have h5 : b.toNat ≠ 237 := by omega
      have h6 : ¬b.toNat < 240 := by omega
      have h7 : b.toNat < 244 := by omega
      refine ⟨0x80, 0xBF, ?_, between hc (Nat.le_of_lt_succ hc')⟩
      simp [shape?, UInt8.lt_iff_toNat_lt, ← UInt8.toNat_inj, h1, h2, h3, h4, h5, h6, h7, he]

theorem toNat_ofNat_of_lt {n : Nat} (h : n < 256) : (UInt8.ofNat n).toNat = n := by
  simp [Nat.mod_eq_of_lt h]

theorem tails_step {v n : Nat} (hn : n < 64) (owed extent : Nat) (more : List UInt8) :
    tails (owed + 1) v extent (UInt8.ofNat (n + 128) :: more) =
      tails owed (v * 64 + n) (extent + 1) more := by
  have ht : isTail (UInt8.ofNat (n + 128)) = true := by
    have hb := toNat_ofNat_of_lt (show n + 128 < 256 by omega)
    exact between (by rw [hb]; simp) (by rw [hb]; simp; omega)
  have hlow : low (UInt8.ofNat (n + 128)) = n := by
    rw [low, toNat_ofNat_of_lt (by omega)]
    omega
  rw [tails, if_pos ht, hlow]

theorem first_step {v n owed : Nat} {b lo hi : UInt8} (hb : shape? b = some (owed + 1, lo, hi))
    (hv : b.toNat % (if owed = 0 then 32 else if owed = 1 then 16 else 8) = v) (hn : n < 64)
    (hc : (lo ≤ UInt8.ofNat (n + 128) && UInt8.ofNat (n + 128) ≤ hi) = true) (more : List UInt8) :
    first b (UInt8.ofNat (n + 128) :: more) = tails owed (v * 64 + n) 2 more := by
  have hlow : low (UInt8.ofNat (n + 128)) = n := by
    rw [low, toNat_ofNat_of_lt (by omega)]
    omega
  simp only [first, hb, hc, if_true, hlow, hv]

/-- A character is read back from its bytes, whatever is behind them. -/
theorem first_encodeChar (c : Char) (more : List UInt8) :
    ∃ b bytes, String.utf8EncodeChar c = b :: bytes ∧
      first b (bytes ++ more) = .char c (bytes.length + 1) more := by
  have hc : Char.ofNat c.val.toNat = c := Char.ofNat_toNat c
  have hvalid : c.val.toNat < 55296 ∨ 57343 < c.val.toNat ∧ c.val.toNat < 1114112 := c.valid
  rw [String.utf8EncodeChar]
  generalize c.val.toNat = v at hc hvalid
  split
  · have hb := toNat_ofNat_of_lt (show v < 256 by omega)
    refine ⟨_, _, rfl, ?_⟩
    simp only [first, shape?_one (show (UInt8.ofNat v).toNat < 128 by omega), hb, hc]
    simp
  split
  · have hb := toNat_ofNat_of_lt (show v / 64 % 32 + 192 < 256 by omega)
    refine ⟨_, _, rfl, ?_⟩
    have h2 := toNat_ofNat_of_lt (show v % 64 + 128 < 256 by omega)
    rw [List.cons_append, first_step (v := v / 64) (shape?_two (by omega) (by omega))
      (by rw [hb]; simp; omega) (by omega) (between (by rw [h2]; simp) (by rw [h2]; simp; omega))]
    rw [show v / 64 * 64 + v % 64 = v by omega, tails, hc]
    rfl
  split
  · have hb := toNat_ofNat_of_lt (show v / 4096 % 16 + 224 < 256 by omega)
    have h2 := toNat_ofNat_of_lt (show v / 64 % 64 + 128 < 256 by omega)
    obtain ⟨lo, hi, hs, hm⟩ := shape?_three (b := UInt8.ofNat (v / 4096 % 16 + 224))
      (c := UInt8.ofNat (v / 64 % 64 + 128)) (by omega) (by omega) (by omega) (by omega) (by omega)
      (by omega)
    refine ⟨_, _, rfl, ?_⟩
    rw [List.cons_append, first_step (v := v / 4096) hs (by rw [hb]; simp; omega) (by omega) hm,
      List.cons_append, tails_step (by omega)]
    rw [show (v / 4096 * 64 + v / 64 % 64) * 64 + v % 64 = v by omega, tails, hc]
    rfl
  · have hb := toNat_ofNat_of_lt (show v / 262144 % 8 + 240 < 256 by omega)
    have h2 := toNat_ofNat_of_lt (show v / 4096 % 64 + 128 < 256 by omega)
    obtain ⟨lo, hi, hs, hm⟩ := shape?_four (b := UInt8.ofNat (v / 262144 % 8 + 240))
      (c := UInt8.ofNat (v / 4096 % 64 + 128)) (by omega) (by omega) (by omega) (by omega) (by omega)
      (by omega)
    refine ⟨_, _, rfl, ?_⟩
    rw [List.cons_append, first_step (v := v / 262144) hs (by rw [hb]; simp; omega) (by omega) hm,
      List.cons_append, tails_step (by omega), List.cons_append, tails_step (by omega)]
    rw [show ((v / 262144 * 64 + v / 4096 % 64) * 64 + v / 64 % 64) * 64 + v % 64 = v by omega,
      tails, hc]
    rfl

theorem lossyFrom_char {b : UInt8} {bytes rest : List UInt8} {c : Char} {extent : Nat}
    (h : first b bytes = .char c extent rest) (done : List Char) :
    lossyFrom done (b :: bytes) = lossyFrom (c :: done) rest := by
  rw [lossyFrom]
  split
  · simp_all
  · simp_all
  · simp_all

theorem decodeFrom_char {b : UInt8} {bytes rest : List UInt8} {c : Char} {extent : Nat}
    (h : first b bytes = .char c extent rest) (start : Nat) (done : List Char) :
    decodeFrom start done (b :: bytes) = decodeFrom (start + extent) (c :: done) rest := by
  rw [decodeFrom]
  split
  · simp_all
  · simp_all
  · simp_all

theorem lossy_encode (text : String) : lossy (encode text) = text := by
  have h (cs done : List Char) :
      lossyFrom done (cs.flatMap String.utf8EncodeChar) = done.reverse ++ cs := by
    induction cs generalizing done with
    | nil => simp [lossyFrom]
    | cons c cs ih =>
        obtain ⟨b, bytes, he, hf⟩ := first_encodeChar c (cs.flatMap String.utf8EncodeChar)
        rw [List.flatMap_cons, he, List.cons_append, lossyFrom_char hf, ih]
        simp
  rw [lossy, encode_eq, h]
  simp

theorem decode_encode (text : String) : decode (encode text) = .ok text := by
  have h (cs done : List Char) (start : Nat) :
      decodeFrom start done (cs.flatMap String.utf8EncodeChar) = .ok (done.reverse ++ cs) := by
    induction cs generalizing done start with
    | nil => simp [decodeFrom]
    | cons c cs ih =>
        obtain ⟨b, bytes, he, hf⟩ := first_encodeChar c (cs.flatMap String.utf8EncodeChar)
        rw [List.flatMap_cons, he, List.cons_append, decodeFrom_char hf, ih]
        simp
  rw [decode, encode_eq, h]
  simp [Except.map]

theorem encodeChar_of_mem {c : Char} {b : UInt8} (h : b ∈ String.utf8EncodeChar c)
    (hb : b.toNat < 128) : String.utf8EncodeChar c = [b] ∧ c.toNat = b.toNat := by
  rw [String.utf8EncodeChar] at h ⊢
  have hc : c.toNat = c.val.toNat := rfl
  rw [hc]
  generalize c.val.toNat = v at h ⊢
  have hhigh {n : Nat} (hn : 128 ≤ n) (hn' : n < 256) : b ≠ UInt8.ofNat n := by
    rintro rfl
    rw [toNat_ofNat_of_lt hn'] at hb
    omega
  split at h
  · rename_i hv
    obtain rfl := List.mem_singleton.1 h
    rw [if_pos hv, toNat_ofNat_of_lt (by omega)]
    exact ⟨rfl, rfl⟩
  split at h
  · simp only [List.mem_cons, List.not_mem_nil, or_false] at h
    obtain h | h := h <;> exact absurd h (hhigh (by omega) (by omega))
  split at h
  · simp only [List.mem_cons, List.not_mem_nil, or_false] at h
    obtain h | h | h := h <;> exact absurd h (hhigh (by omega) (by omega))
  · simp only [List.mem_cons, List.not_mem_nil, or_false] at h
    obtain h | h | h | h := h <;> exact absurd h (hhigh (by omega) (by omega))

theorem encodeChar_ascii {c : Char} (h : c.toNat < 128) :
    String.utf8EncodeChar c = [UInt8.ofNat c.toNat] := by
  rw [String.utf8EncodeChar]
  exact if_pos (show c.toNat ≤ 127 by omega)

theorem mem_encode_iff {text : String} {c : Char} (h : c.toNat < 128) :
    UInt8.ofNat c.toNat ∈ encode text ↔ c ∈ text.toList := by
  have hn := toNat_ofNat_of_lt (show c.toNat < 256 by omega)
  rw [encode_eq, List.mem_flatMap]
  constructor
  · rintro ⟨d, hd, hb⟩
    have he := (encodeChar_of_mem hb (by omega)).2
    rw [hn] at he
    obtain rfl : d = c := Char.toNat_inj.1 he
    exact hd
  · intro hc
    exact ⟨c, hc, by simp [encodeChar_ascii h]⟩

end Playout.Text.Utf8
