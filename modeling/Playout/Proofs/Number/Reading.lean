import Mathlib.Data.List.TakeWhile
import Playout.Number.Real
import Playout.Proofs.Number.Checked

namespace Playout.Number

def isNumeric (c : Char) : Bool := isDigit c || c ∈ ['.', 'e', 'E', '+', '-']

theorem isNumeric_of_isDigit {c : Char} (h : isDigit c = true) : isNumeric c = true := by
  rw [isNumeric, h]
  rfl

theorem numeric_of_natural? {text : List Char} {n : Nat} (h : natural? text = some n) :
    ∀ c ∈ text, isNumeric c = true := by
  unfold natural? at h
  split at h
  · rename_i hd
    exact fun c hc => isNumeric_of_isDigit (List.all_eq_true.1 hd.2 c hc)
  · cases h

theorem numeric_of_sign {text : List Char} (h : ∀ c ∈ (sign text).2, isNumeric c = true) :
    ∀ c ∈ text, isNumeric c = true := by
  unfold sign at h
  split at h
  · exact List.forall_mem_cons.2 ⟨by decide, h⟩
  · exact List.forall_mem_cons.2 ⟨by decide, h⟩
  · exact h

theorem numeric_of_exponent? {text : List Char} {e : Int} (h : exponent? text = some e) :
    ∀ c ∈ text, isNumeric c = true := by
  cases text with
  | nil => simp
  | cons mark rest =>
      by_cases hm : mark = 'e' ∨ mark = 'E'
      · cases hn : natural? (sign rest).2 with
        | none => simp [exponent?, hm, hn] at h
        | some n =>
            refine List.forall_mem_cons.2 ⟨?_, numeric_of_sign (numeric_of_natural? hn)⟩
            rcases hm with rfl | rfl <;> decide
      · simp [exponent?, hm] at h

theorem numeric_of_dropWhile {text : List Char}
    (h : ∀ c ∈ text.dropWhile isDigit, isNumeric c = true) : ∀ c ∈ text, isNumeric c = true := by
  intro c hc
  rw [← List.takeWhile_append_dropWhile (p := isDigit) (l := text), List.mem_append] at hc
  rcases hc with hc | hc
  · exact isNumeric_of_isDigit (List.mem_takeWhile_imp hc)
  · exact h c hc

theorem numeric_of_decimal? {text : List Char} {m : Magnitude} (h : decimal? text = some m) :
    ∀ c ∈ text, isNumeric c = true := by
  refine numeric_of_dropWhile ?_
  have hexponent {rest : List Char} {f : Int → Magnitude}
      (h : (exponent? rest).map f = some m) : ∀ c ∈ rest, isNumeric c = true := by
    obtain ⟨e, he, -⟩ := Option.map_eq_some_iff.1 h
    exact numeric_of_exponent? he
  unfold decimal? at h
  dsimp only at h
  split at h
  · rename_i more hmore
    rw [hmore]
    split at h
    · cases h
    · exact List.forall_mem_cons.2 ⟨by decide, numeric_of_dropWhile (hexponent h)⟩
  · split at h
    · cases h
    · exact hexponent h

/-- What has any other character, and is not in the letters of a name, is no number. -/
theorem real?_eq_none {text : List Char} {c : Char} (hc : c ∈ text)
    (hn : c = '=' ∨ c = ':') : real? text = none := by
  have hnot : isNumeric c = false := by rcases hn with rfl | rfl <;> decide
  have hmem : c ∈ (sign text).2 := by
    unfold sign
    split
    · exact List.mem_of_ne_of_mem (by rintro rfl; exact absurd hnot (by decide)) hc
    · exact List.mem_of_ne_of_mem (by rintro rfl; exact absurd hnot (by decide)) hc
    · exact hc
  have hname (name : String) (h : c ∉ name.toList) :
      (sign text).2.map Char.toLower ≠ name.toList := by
    intro he
    have hm := List.mem_map_of_mem (f := Char.toLower) hmem
    rw [he] at hm
    have hlower : c.toLower = c := by rcases hn with rfl | rfl <;> rfl
    exact h (hlower ▸ hm)
  have hdecimal : decimal? (sign text).2 = none := by
    rw [Option.eq_none_iff_forall_ne_some]
    intro m hm
    rw [numeric_of_decimal? hm c hmem] at hnot
    cases hnot
  have hmagnitude : magnitude? (sign text).2 = none := by
    have hnames : c ∉ "inf".toList ∧ c ∉ "infinity".toList ∧ c ∉ "nan".toList := by
      rcases hn with rfl | rfl <;> decide
    simp only [magnitude?, hname _ hnames.1, hname _ hnames.2.1, hname _ hnames.2.2, or_self,
      if_false, hdecimal]
  simp [real?, hmagnitude]

theorem isDigit_of_mem_naturalText {n : Nat} {c : Char} (h : c ∈ naturalText n) :
    c.isDigit = true :=
  Nat.isDigit_of_mem_toDigits (by decide) (by decide) h

theorem natural?_naturalText (n : Nat) : natural? (naturalText n) = some n := by
  have hd : (naturalText n).all isDigit = true := by
    rw [List.all_eq_true]
    intro c hc
    simpa [isDigit, Char.isDigit, Char.le_def] using isDigit_of_mem_naturalText hc
  have hv : digitsValue (naturalText n) = n := by
    have h := Nat.ofDigitChars_ten_toDigits (n := n)
    rw [Nat.ofDigitChars_eq_foldl] at h
    simpa [digitsValue, naturalText, Nat.mul_comm] using h
  rw [natural?, if_pos ⟨Nat.toDigits_ne_nil, hd⟩, hv]

theorem sign_naturalText (n : Nat) : sign (naturalText n) = (false, naturalText n) := by
  have hd : ∀ c ∈ naturalText n, c.isDigit = true := fun _ => isDigit_of_mem_naturalText
  unfold sign
  split
  · rename_i h
    rw [h] at hd
    exact absurd (hd '-' (List.mem_cons_self ..)) (by decide)
  · rename_i h
    rw [h] at hd
    exact absurd (hd '+' (List.mem_cons_self ..)) (by decide)
  · rfl

theorem integer?_ofInteger {n : Int} (h : Fits n) : integer? (ofInteger n).toList = some n := by
  rw [ofInteger, String.toList_ofList, integerText]
  split
  · rename_i hn
    have hv : -(n.natAbs : Int) = n := by omega
    simp only [integer?, sign, natural?_naturalText, Option.bind_some, if_true, hv]
    exact if_pos h
  · rename_i hn
    have hv : (n.natAbs : Int) = n := by omega
    simp only [integer?, sign_naturalText, natural?_naturalText, Option.bind_some,
      Bool.false_eq_true, if_false, hv]
    exact if_pos h

theorem fits_of_integer? {text : List Char} {n : Int} (h : integer? text = some n) : Fits n := by
  rw [integer?] at h
  generalize sign text = s at h
  obtain ⟨negative, digits⟩ := s
  obtain ⟨m, -, hm⟩ := Option.bind_eq_some_iff.1 h
  dsimp only at hm
  generalize (if negative = true then -(m : Int) else m) = v at hm
  split at hm
  · cases hm
    assumption
  · cases hm

end Playout.Number
