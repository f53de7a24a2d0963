import Mathlib.Algebra.BigOperators.Ring.List
import Mathlib.Algebra.Ring.Nat
import Playout.Proofs.Token.Rejoin

namespace Playout.Token

def untilComment : List Char → List Char
  | [] => []
  | c :: text => if c = ' ' ∧ startsComment text = true then [] else c :: untilComment text

/-- The part of a line that is no comment. A comment begins with a `#` that is the first character of
the line or comes right after a space, within quotes or not. -/
def body (line : List Char) : List Char := if startsComment line then [] else untilComment line

/-- The tokens lie in the text in order, with nothing but spaces before, between and behind them. -/
inductive Spread : List (List Char) → List Char → Prop
  | nil : Spread [] []
  | space {ts : List (List Char)} {text : List Char} (h : Spread ts text) : Spread ts (' ' :: text)
  | token {t : List Char} {ts : List (List Char)} {text : List Char} (hn : t ≠ [])
    (hs : text = [] ∨ ∃ rest, text = ' ' :: rest) (h : Spread ts text) : Spread (t :: ts) (t ++ text)

theorem body_space (line : List Char) :
    body (' ' :: line) = if startsComment line then [] else ' ' :: body line := by
  have hs : startsComment (' ' :: line) = false := rfl
  rw [body, hs, body, untilComment]
  by_cases hc : startsComment line = true <;> simp [hc]

theorem untilComment_append {u behind : List Char}
    (hu : ∀ a b, u = a ++ ' ' :: b → startsComment b = false)
    (hb : behind = [] ∨ ∃ rest, behind = ' ' :: rest) :
    untilComment (u ++ behind) = u ++ untilComment behind := by
  have hstart (v : List Char) : startsComment (v ++ behind) = startsComment v := by
    obtain rfl | ⟨rest, rfl⟩ := hb
    · rw [List.append_nil]
    · exact startsComment_append_space v rest
  induction u with
  | nil => rfl
  | cons c u ih =>
      have hc : ¬(c = ' ' ∧ startsComment (u ++ behind) = true) := by
        rintro ⟨rfl, hc⟩
        rw [hstart, hu [] u rfl] at hc
        cases hc
      rw [List.cons_append, untilComment, if_neg hc, ih fun a b hab => hu (c :: a) b (by simp [hab])]
      rfl

theorem Leading.body {token behind : List Char} (h : Leading token behind) :
    body (token ++ behind) = token ++ body behind := by
  have hb : behind = [] ∨ ∃ rest, behind = ' ' :: rest :=
    h.ends.imp_right fun ⟨rest, hr, _⟩ => ⟨rest, hr⟩
  have hbehind : Token.body behind = untilComment behind := by
    obtain rfl | ⟨rest, rfl⟩ := hb <;> rfl
  have hplain : startsComment (token ++ behind) = false := by
    obtain ⟨c, token, rfl⟩ := List.exists_cons_of_ne_nil h.ne_nil
    exact h.plain
  rw [hbehind, Token.body, hplain, ← untilComment_append (fun a b hab => (h.glued a b hab).2) hb]
  rfl

theorem body_of_comment {line : List Char} (h : startsComment line = true) : body line = [] := by
  rw [body, if_pos h]

theorem body_eq_self {line : List Char} (hc : startsComment line = false) (hu : Uncommented line) :
    body line = line := by
  have hl : untilComment (line ++ []) = line ++ untilComment [] :=
    untilComment_append ((uncommented_iff line).1 hu) (.inl rfl)
  rw [List.append_nil] at hl
  rw [body, hc, if_neg Bool.false_ne_true, hl]
  exact List.append_nil line

theorem spread_merged (line : List Char) : Spread (merged line).reverse (body line) := by
  have hspace {line : List Char} (h : Spread (merged line).reverse (body line)) :
      Spread (merged line).reverse (body (' ' :: line)) := by
    rw [body_space]
    split
    · rename_i hc
      rwa [body_of_comment hc] at h
    · exact .space h
  induction line using line_induction with
  | nil => exact .nil
  | comment line hc =>
      rw [merged_of_comment hc, body_of_comment hc]
      exact .nil
  | space line ih =>
      rw [merged_space]
      exact hspace ih
  | last token hl =>
      have hb := hl.body
      rw [List.append_nil] at hb
      rw [merged_last hl, hb]
      exact .token hl.ne_nil (.inl rfl) .nil
  | leading token rest hl ih =>
      rw [merged_leading hl, merged_space, List.reverse_append, hl.body]
      refine .token hl.ne_nil ?_ (hspace ih)
      rw [body_space]
      split
      · exact .inl rfl
      · exact .inr ⟨_, rfl⟩

namespace Spread

variable {ts : List (List Char)} {text : List Char}

theorem filter_eq (h : Spread ts text) : text.filter (· ≠ ' ') = ts.flatten.filter (· ≠ ' ') := by
  induction h with
  | nil => rfl
  | space _ ih => simpa using ih
  | token _ _ _ ih => rw [List.filter_append, ih, List.flatten_cons, List.filter_append]

theorem quotes_eq (h : Spread ts text) : quotes text = (ts.map quotes).sum := by
  induction h with
  | nil => rfl
  | space _ ih => simpa [quotes] using ih
  | token _ _ _ ih => rw [quotes, List.count_append, List.map_cons, List.sum_cons, ← ih]; rfl

end Spread

/-- All tokens have an even number of quotes when the text before the comment has. -/
theorem isOpen_merged_iff (line : List Char) :
    (∀ t ∈ merged line, isOpen t = false) ↔ isOpen (body line) = false := by
  have heven {ts : List (List Char)} (h : ∀ t ∈ ts, isOpen t = false) :
      2 ∣ (ts.map quotes).sum := by
    refine List.dvd_sum (List.forall_mem_map.2 fun t ht => ?_)
    exact Nat.dvd_of_mod_eq_zero ((isOpen_eq_false_iff t).1 (h t ht))
  have hsum : quotes (body line) = ((merged line).map quotes).sum := by
    rw [(spread_merged line).quotes_eq, List.map_reverse, List.sum_reverse]
  rw [isOpen_eq_false_iff, ← quotes, hsum]
  constructor
  · exact fun h => Nat.mod_eq_zero_of_dvd (heven h)
  · intro h
    have htail (t : List Char) (ht : t ∈ (merged line).tail) : isOpen t = false :=
      isOpen_of_continues (continues_of_mem_tail ht)
    cases hm : merged line with
    | nil => simp
    | cons last found =>
        rw [hm, List.tail_cons] at htail
        rw [hm, List.map_cons, List.sum_cons] at h
        have hlast : isOpen last = false := by
          rw [isOpen_eq_false_iff, ← quotes]
          have := heven htail
          omega
        exact List.forall_mem_cons.2 ⟨hlast, htail⟩

theorem scan_eq_ok_iff_body (line : List Char) (ts : List (List Char)) :
    scan line = .ok ts ↔ isOpen (body line) = false ∧ (merged line).reverse.map finish = ts := by
  rw [scan_eq_ok_iff, isOpen_merged_iff]

/-- Where a comment begins, if there is one. -/
theorem exists_comment (line : List Char) :
    ∃ comment, line = body line ++ comment ∧ startsComment (body line) = false ∧
      Uncommented (body line) ∧
      (comment = [] ∨ (body line = [] ∧ startsComment comment = true) ∨
        ∃ rest, comment = ' ' :: rest ∧ startsComment rest = true) := by
  have huntil (text : List Char) : ∃ comment, text = untilComment text ++ comment ∧
      (∀ u v, untilComment text = u ++ ' ' :: v → startsComment v = false) ∧
      (comment = [] ∨ ∃ rest, comment = ' ' :: rest ∧ startsComment rest = true) := by
    induction text with
    | nil => exact ⟨[], rfl, by simp [untilComment], .inl rfl⟩
    | cons c text ih =>
        rw [untilComment]
        split
        · rename_i hc
          exact ⟨c :: text, rfl, by simp, .inr ⟨text, by rw [hc.1], hc.2⟩⟩
        · rename_i hc
          obtain ⟨comment, ht, hu, hcomment⟩ := ih
          refine ⟨comment, by rw [List.cons_append, ← ht], fun u v huv => ?_, hcomment⟩
          cases u with
          | nil =>
              obtain ⟨rfl, rfl⟩ := List.cons.inj huv
              have hplain : startsComment text = false := by simpa using hc
              rw [ht] at hplain
              exact startsComment_left hplain
          | cons d u => exact hu u v (List.cons.inj huv).2
  by_cases hc : startsComment line = true
  · rw [body_of_comment hc]
    exact ⟨line, rfl, rfl, by simp [Uncommented], .inr (.inl ⟨rfl, hc⟩)⟩
  · obtain ⟨comment, hl, hu, hcomment⟩ := huntil line
    have hplain : startsComment line = false := by simpa using hc
    rw [body, if_neg hc]
    refine ⟨comment, hl, ?_, (uncommented_iff _).2 hu, hcomment.imp_right .inr⟩
    rw [hl] at hplain
    exact startsComment_left hplain

/-- A line is refused exactly when the quotes before its comment are odd in number. Else the tokens,
before they are finished, lie in that part of the line in order, with nothing but spaces around them,
and each of them has an even number of quotes. -/
theorem ofLine_spread (line : String) :
    let text := body line.toList
    let found := (merged line.toList).reverse
    (∃ comment, line.toList = text ++ comment ∧ startsComment text = false ∧ Uncommented text ∧
        (comment = [] ∨ (text = [] ∧ startsComment comment = true) ∨
          ∃ rest, comment = ' ' :: rest ∧ startsComment rest = true)) ∧
      ((∃ fault, ofLine line = .error fault) ↔ text.count '"' % 2 = 1) ∧
      ∀ ts, ofLine line = .ok ts →
        ts = (found.map finish).map String.ofList ∧ Spread found text ∧
          found.flatten.filter (· ≠ ' ') = text.filter (· ≠ ' ') ∧
          ∀ t ∈ found, t.count '"' % 2 = 0 := by
  intro text found
  have hspread : Spread found text := spread_merged line.toList
  have hok (ts : List String) (h : ofLine line = .ok ts) :
      isOpen text = false ∧ found.map finish = ts.map String.toList := by
    rwa [ofLine_eq_ok_iff, scan_eq_ok_iff_body] at h
  refine ⟨exists_comment line.toList, ⟨?_, fun hodd => ?_⟩, fun ts hts => ?_⟩
  · rintro ⟨fault, hf⟩
    by_contra heven
    have hopen : isOpen text = false := (isOpen_eq_false_iff text).2 (by omega)
    have hscan := (scan_eq_ok_iff_body line.toList _).2 ⟨hopen, rfl⟩
    rw [ofLine, hscan] at hf
    cases hf
  · cases hl : ofLine line with
    | error fault => exact ⟨fault, rfl⟩
    | ok ts =>
        have := (isOpen_eq_false_iff text).1 (hok ts hl).1
        omega
  · obtain ⟨hopen, hfinish⟩ := hok ts hts
    have hclosed := (isOpen_merged_iff line.toList).2 hopen
    refine ⟨by simp [hfinish], hspread, hspread.filter_eq.symm, fun t ht => ?_⟩
    exact (isOpen_eq_false_iff t).1 (hclosed t (List.mem_reverse.1 ht))

/-- Spaces behind a backslash and within quotes are the tokens' own; a quote in the comment does not
count. -/
theorem ofLine_spread_glued :
    let line := "  x\\  y \"b  c\"d  #\""
    let text := "  x\\  y \"b  c\"d ".toList
    ofLine line = .ok ["x ", "y", "'b  c'd"] ∧
      Spread ["x\\ ".toList, "y".toList, "\"b  c\"d".toList] text ∧ text.count '"' % 2 = 0 := by
  intro line text
  have hok : ofLine line = .ok ["x ", "y", "'b  c'd"] := by decide +kernel
  have hbody : body line.toList = text := by decide +kernel
  have hfound : (merged line.toList).reverse =
      ["x\\ ".toList, "y".toList, "\"b  c\"d".toList] := by decide +kernel
  obtain ⟨-, -, hspread⟩ := ofLine_spread line
  rw [hbody, hfound] at hspread
  exact ⟨hok, (hspread _ hok).2.1, by decide +kernel⟩

/-- A line at the end of which no token can go on, and no comment. -/
structure Whole (line : List Char) : Prop where
  plain : line.head? ≠ some '#'
  uncommented : Uncommented line
  even : line.count '"' % 2 = 0
  last : line.getLast? ≠ some '\\'

/-- What is behind a space where nothing continues is a line of its own. -/
theorem merged_append {a : List Char} (hc : startsComment a = false) (hu : Uncommented a)
    (he : continues a = false) (b : List Char) : merged (a ++ ' ' :: b) = merged b ++ merged a := by
  rw [uncommented_iff] at hu
  induction a using line_induction with
  | nil => exact (merged_space b).trans (List.append_nil _).symm
  | comment line hl =>
      rw [hl] at hc
      cases hc
  | space line ih =>
      rw [List.cons_append, merged_space, merged_space]
      exact ih (hu [] line rfl) (fun u v huv => hu (' ' :: u) v (by simp [huv]))
        (continues_behind (u := []) he rfl)
  | last token hl =>
      have hl' : Leading token (' ' :: b) := ⟨hl.glued, hl.ne_nil, hl.plain, .inr ⟨b, rfl, .inl he⟩⟩
      rw [merged_leading hl', merged_space, merged_last hl]
  | leading token rest hl ih =>
      have hrest : startsComment rest = false := hu token rest rfl
      have hends : continues token = false := by
        obtain hb | ⟨_, hb, hends⟩ := hl.ends
        · cases hb
        · obtain rfl := (List.cons.inj hb).2
          exact hends.resolve_right (by simp [hrest])
      have hl' : Leading token (' ' :: (rest ++ ' ' :: b)) :=
        ⟨hl.glued, hl.ne_nil, hl.plain, .inr ⟨_, rfl, .inl hends⟩⟩
      have ih := ih hrest (fun u v huv => hu (token ++ ' ' :: u) v (by simp [huv]))
        (continues_behind he (isOpen_of_continues hends))
      rw [List.append_assoc, List.cons_append, merged_leading hl', merged_space, ih,
        merged_leading hl, merged_space, List.append_assoc]

namespace Whole

variable {a : List Char} (h : Whole a)

include h

theorem continues_eq : continues a = false := by
  rw [← Bool.not_eq_true, continues_iff, h.even]
  simp [h.last]

theorem startsComment_eq : startsComment a = false := (startsComment_eq_false_iff a).2 h.plain

theorem scan_eq : scan a = .ok ((merged a).reverse.map finish) := by
  rw [scan_eq_ok_iff_body, body_eq_self h.startsComment_eq h.uncommented]
  exact ⟨isOpen_of_continues h.continues_eq, rfl⟩

/-- Tokens are read from a whole line and from what is behind it as if each stood alone. -/
theorem scan_append (b : List Char) :
    scan (a ++ ' ' :: b) = (scan b).map ((merged a).reverse.map finish ++ ·) := by
  have hm := merged_append h.startsComment_eq h.uncommented h.continues_eq b
  have ha := ((scan_eq_ok_iff a _).1 h.scan_eq).1
  unfold scan
  rw [hm]
  cases hb : merged b with
  | nil =>
      have hnone : (merged a).head?.filter isOpen = none := by
        rw [Option.filter_eq_none_iff]
        intro last hl
        simp [ha last (List.mem_of_mem_head? hl)]
      simp [hnone, Except.map]
  | cons last found =>
      cases ho : isOpen last <;> simp [Option.filter, ho, Except.map]

end Whole

/-- What is behind a whole line and a space is read as it is alone. -/
theorem Whole.ofLine_append {line : String} (h : Whole line.toList) :
    ∃ ts, ofLine line = .ok ts ∧
      ∀ more, ofLine (line ++ " " ++ more) = (ofLine more).map (ts ++ ·) := by
  refine ⟨((merged line.toList).reverse.map finish).map String.ofList, ?_, fun more => ?_⟩
  · rw [ofLine, h.scan_eq]
    rfl
  · have ht : (line ++ " " ++ more).toList = line.toList ++ ' ' :: more.toList := by simp
    rw [ofLine, ht, h.scan_append, ofLine]
    cases scan more.toList <;> simp [Except.map]

end Playout.Token
