import Mathlib.Data.List.Basic
import Playout.Proofs.Token.Glue

namespace Playout.Token

/-- No space in the token has a comment behind it. -/
def Uncommented (token : List Char) : Prop := ¬[' ', '#'] <:+: token

/-- Every space in the token comes after a quote that is open or after a backslash. -/
def Tied (token : List Char) : Prop := ∀ u v, token = u ++ ' ' :: v → continues u = true

theorem tied_iff (token : List Char) :
    Tied token ↔ ∀ i < token.length, token[i]? = some ' ' → continues (token.take i) = true := by
  constructor
  · intro h i hi hs
    obtain ⟨_, hs⟩ := List.getElem?_eq_some_iff.1 hs
    refine h _ (token.drop (i + 1)) ?_
    rw [← hs, ← List.drop_eq_getElem_cons, List.take_append_drop]
  · rintro h u v rfl
    simpa using h u.length (by simp) (by simp)

instance (token : List Char) : Decidable (Uncommented token) :=
  inferInstanceAs (Decidable (¬[' ', '#'] <:+: token))

instance (token : List Char) : Decidable (Tied token) :=
  decidable_of_iff _ (tied_iff token).symm

structure Representable (token : List Char) : Prop where
  uncommented : Uncommented token
  even : isOpen token = false
  tied : '"' ∈ token → Tied token

theorem uncommented_iff (token : List Char) :
    Uncommented token ↔ ∀ u v, token = u ++ ' ' :: v → startsComment v = false := by
  constructor
  · rintro h u v rfl
    rw [← Bool.not_eq_true]
    intro hc
    obtain ⟨v, rfl⟩ := List.head?_eq_some_iff.1 (by simpa [startsComment] using hc)
    exact h ⟨u, v, by simp⟩
  · rintro h ⟨u, v, rfl⟩
    simpa [startsComment] using h u ('#' :: v) (by simp)

def wrap (quote : Char) (token : List Char) : List Char := quote :: token ++ [quote]

theorem wrap_split {quote : Char} {token u v : List Char} (hq : quote ≠ ' ')
    (h : wrap quote token = u ++ ' ' :: v) :
    ∃ u' v', u = quote :: u' ∧ v = v' ++ [quote] ∧ token = u' ++ ' ' :: v' := by
  cases u with
  | nil => exact absurd (List.cons.inj h).1 hq
  | cons c u =>
      obtain ⟨rfl, ht⟩ := List.cons.inj h
      obtain rfl | ⟨v', d, rfl⟩ := List.eq_nil_or_concat' v
      · exact absurd (List.cons.inj (List.append_inj' ht rfl).2).1 hq
      · have ht' : token ++ [quote] = (u ++ ' ' :: v') ++ [d] := by simpa using ht
        obtain ⟨rfl, hd⟩ := List.append_inj' ht' rfl
        obtain rfl : quote = d := by simpa using hd
        exact ⟨u, v', rfl, by simp, rfl⟩

theorem glued_wrap_iff {quote : Char} (hs : quote ≠ ' ') (hc : quote ≠ '#') (token : List Char) :
    Glued (wrap quote token) ↔
      ∀ u v, token = u ++ ' ' :: v → continues (quote :: u) = true ∧ startsComment v = false := by
  have hv (v : List Char) : startsComment (v ++ [quote]) = startsComment v := by
    cases v <;> simp [startsComment, hc]
  constructor
  · rintro h u v rfl
    simpa [hv] using h (quote :: u) (v ++ [quote]) (by simp [wrap])
  · intro h u v hw
    obtain ⟨u, v, rfl, rfl, rfl⟩ := wrap_split hs hw
    simpa [hv] using h u v rfl

theorem getLast?_wrap (quote : Char) (token : List Char) :
    (wrap quote token).getLast? = some quote := List.getLast?_concat

theorem isWrapped_wrap (quote : Char) (token : List Char) :
    isWrapped quote (wrap quote token) = true := by
  rw [isWrapped, getLast?_wrap]
  simp [wrap]

theorem unwrap_wrap (quote : Char) (token : List Char) : unwrap (wrap quote token) = token := by
  simp [unwrap, wrap]

theorem eq_wrap_of_isWrapped {quote : Char} {token : List Char}
    (h : isWrapped quote token = true) : token = wrap quote (unwrap token) := by
  simp only [isWrapped, Bool.and_eq_true, decide_eq_true_eq] at h
  obtain ⟨⟨hl, hh⟩, hg⟩ := h
  obtain ⟨rest, rfl⟩ := List.head?_eq_some_iff.1 hh
  obtain rfl | ⟨front, d, rfl⟩ := List.eq_nil_or_concat' rest
  · simp at hl
  · obtain rfl : d = quote := by
      have hd : (quote :: front ++ [d]).getLast? = some d := List.getLast?_concat
      exact Option.some.inj (hd.symm.trans hg)
    simp [wrap, unwrap]

theorem eq_wrap_finish {token : List Char} (h : '"' ∈ finish token) :
    ∃ quote, token = wrap quote (finish token) := by
  unfold finish at h ⊢
  split at h
  · rename_i hw
    rw [if_pos hw]
    obtain hw | hw := Bool.or_eq_true_iff.1 hw
    · exact ⟨'"', eq_wrap_of_isWrapped hw⟩
    · exact ⟨'\'', eq_wrap_of_isWrapped hw⟩
  · obtain ⟨c, -, hc⟩ := List.mem_map.1 h
    split at hc
    · exact absurd hc (by decide)
    · contradiction

theorem isOpen_wrap (quote : Char) (token : List Char) :
    isOpen (wrap quote token) = isOpen token := by
  have hq : quotes (wrap quote token) = quotes token + if quote = '"' then 2 else 0 := by
    by_cases h : quote = '"' <;> simp [quotes, wrap, h]
  rw [isOpen, isOpen, hq, decide_eq_decide]
  split <;> omega

theorem isOpen_of_not_mem {token : List Char} (h : '"' ∉ token) : isOpen token = false := by
  simp [isOpen, quotes, List.count_eq_zero_of_not_mem h]

theorem isOpen_finish {token : List Char} (h : isOpen token = false) :
    isOpen (finish token) = false := by
  by_cases hq : '"' ∈ finish token
  · obtain ⟨quote, he⟩ := eq_wrap_finish hq
    rwa [he, isOpen_wrap] at h
  · exact isOpen_of_not_mem hq

theorem write_cases (token : List Char) :
    (isBare token = true ∧ write token = token) ∨
      ('"' ∈ token ∧ write token = wrap '\'' token) ∨
      ('"' ∉ token ∧ write token = wrap '"' token) := by
  unfold write
  cases isBare token with
  | true => exact .inl ⟨rfl, rfl⟩
  | false =>
      by_cases hq : '"' ∈ token
      · exact .inr (.inl ⟨hq, by simp [hq, wrap]⟩)
      · exact .inr (.inr ⟨hq, by simp [hq, wrap]⟩)

theorem isBare_iff (token : List Char) :
    isBare token = true ↔ token ≠ [] ∧ token.head? ≠ some '#' ∧ isWrapped '\'' token = false ∧
      ' ' ∉ token ∧ '"' ∉ token ∧ '\\' ∉ token := by
  simp only [isBare, Bool.and_eq_true, decide_eq_true_eq, Bool.not_eq_true', List.any_eq_false,
    Bool.or_eq_true, not_or]
  constructor
  · rintro ⟨⟨⟨hn, hc⟩, hw⟩, ha⟩
    exact ⟨hn, hc, hw, fun h => (ha _ h).1.1 rfl, fun h => (ha _ h).1.2 rfl, fun h => (ha _ h).2 rfl⟩
  · rintro ⟨hn, hc, hw, hs, hq, hb⟩
    refine ⟨⟨⟨hn, hc⟩, hw⟩, fun c hm => ⟨⟨?_, ?_⟩, ?_⟩⟩ <;> rintro rfl <;> contradiction

theorem finish_write (token : List Char) : finish (write token) = token := by
  obtain ⟨hb, hw⟩ | ⟨hq, hw⟩ | ⟨hq, hw⟩ := write_cases token <;> rw [hw]
  · obtain ⟨-, -, hs, -, hq, hb⟩ := (isBare_iff token).1 hb
    have hd : isWrapped '"' token = false := by
      rw [← Bool.not_eq_true]
      intro h
      rw [eq_wrap_of_isWrapped h] at hq
      simp [wrap] at hq
    have hf : token.filter (· ≠ '\\') = token :=
      List.filter_eq_self.2 fun c hc => by
        simp only [ne_eq, decide_eq_true_eq]
        rintro rfl
        contradiction
    rw [finish, hd, hs, hf]
    refine (List.map_congr_left fun c hc => if_neg ?_).trans (List.map_id token)
    rintro rfl
    contradiction
  · simp [finish, isWrapped_wrap, unwrap_wrap]
  · simp [finish, isWrapped_wrap, unwrap_wrap]

theorem write_ne_nil (token : List Char) : write token ≠ [] := by
  obtain ⟨hb, hw⟩ | ⟨-, hw⟩ | ⟨-, hw⟩ := write_cases token <;> rw [hw]
  · exact ((isBare_iff token).1 hb).1
  · simp [wrap]
  · simp [wrap]

theorem head?_write (token : List Char) :
    (write token).head? ≠ some ' ' ∧ startsComment (write token) = false := by
  obtain ⟨hb, hw⟩ | ⟨-, hw⟩ | ⟨-, hw⟩ := write_cases token <;> rw [hw]
  · obtain ⟨-, hc, -, hs, -⟩ := (isBare_iff token).1 hb
    exact ⟨fun h => hs (List.mem_of_mem_head? h), by simpa [startsComment] using hc⟩
  · simp [wrap, startsComment]
  · simp [wrap, startsComment]

theorem getLast?_write (token : List Char) : (write token).getLast? ≠ some '\\' := by
  obtain ⟨hb, hw⟩ | ⟨-, hw⟩ | ⟨-, hw⟩ := write_cases token <;> rw [hw]
  · obtain ⟨-, -, -, -, -, hl⟩ := (isBare_iff token).1 hb
    exact fun h => hl (List.mem_of_getLast? h)
  · simp [getLast?_wrap]
  · simp [getLast?_wrap]

theorem isOpen_write (token : List Char) : isOpen (write token) = isOpen token := by
  obtain ⟨-, hw⟩ | ⟨-, hw⟩ | ⟨-, hw⟩ := write_cases token <;> rw [hw]
  · exact isOpen_wrap _ _
  · exact isOpen_wrap _ _

theorem continues_write {token : List Char} (h : isOpen token = false) :
    continues (write token) = false := by
  simp [continues, isOpen_write, h, getLast?_write]

theorem isOpen_quote {u : List Char} (h : '"' ∉ u) : isOpen ('"' :: u) = true := by
  simp [isOpen, quotes, List.count_eq_zero_of_not_mem h]

theorem continues_single (u : List Char) : continues ('\'' :: u) = continues u := by
  have hq : quotes ('\'' :: u) = quotes u := List.count_cons_of_ne (by decide)
  cases u with
  | nil => rfl
  | cons c u => rw [continues, continues, isOpen, isOpen, hq, List.getLast?_cons_cons]

/-- A token is representable when what is written for it is one token. -/
theorem representable_iff (token : List Char) :
    Representable token ↔ Glued (write token) ∧ isOpen token = false := by
  obtain ⟨hb, hw⟩ | ⟨hq, hw⟩ | ⟨hq, hw⟩ := write_cases token <;> rw [hw]
  · obtain ⟨-, -, -, hs, hq, -⟩ := (isBare_iff token).1 hb
    refine ⟨fun h => ⟨glued_of_not_mem hs, h.even⟩, fun h => ⟨?_, h.2, fun hm => absurd hm hq⟩⟩
    exact fun hm => hs (hm.subset (by simp))
  · rw [glued_wrap_iff (by decide) (by decide)]
    constructor
    · intro h
      refine ⟨fun u v huv => ⟨?_, (uncommented_iff token).1 h.uncommented u v huv⟩, h.even⟩
      rw [continues_single]
      exact h.tied hq u v huv
    · rintro ⟨hg, ho⟩
      refine ⟨(uncommented_iff token).2 fun u v huv => (hg u v huv).2, ho, fun _ u v huv => ?_⟩
      rw [← continues_single]
      exact (hg u v huv).1
  · rw [glued_wrap_iff (by decide) (by decide)]
    constructor
    · intro h
      refine ⟨fun u v huv => ⟨?_, (uncommented_iff token).1 h.uncommented u v huv⟩, h.even⟩
      subst huv
      exact continues_of_isOpen (isOpen_quote fun hm => hq (by simp [hm]))
    · rintro ⟨hg, ho⟩
      exact ⟨(uncommented_iff token).2 fun u v huv => (hg u v huv).2, ho, fun hm => absurd hm hq⟩

def Unquoted (token : List Char) : Prop := '"' ∉ token ∧ Uncommented token

/-- A token with quoted parts: spaces stand in a part or behind a backslash. -/
def Paired (token : List Char) : Prop :=
  '"' ∈ token ∧ token.count '"' % 2 = 0 ∧
    ∀ u v, token = u ++ ' ' :: v →
      (u.count '"' % 2 = 1 ∨ u.getLast? = some '\\') ∧ v.head? ≠ some '#'

theorem continues_iff (token : List Char) :
    continues token = true ↔ token.count '"' % 2 = 1 ∨ token.getLast? = some '\\' := by
  rw [continues, Bool.or_eq_true, isOpen, decide_eq_true_eq, decide_eq_true_eq, quotes]

theorem isOpen_eq_false_iff (token : List Char) :
    isOpen token = false ↔ token.count '"' % 2 = 0 := by
  rw [isOpen, decide_eq_false_iff_not, quotes]
  omega

theorem startsComment_eq_false_iff (token : List Char) :
    startsComment token = false ↔ token.head? ≠ some '#' := by
  simp [startsComment]

theorem representable_iff_unquoted_or_paired (token : List Char) :
    Representable token ↔ Unquoted token ∨ Paired token := by
  constructor
  · intro h
    by_cases hq : '"' ∈ token
    · refine .inr ⟨hq, (isOpen_eq_false_iff token).1 h.even, fun u v huv => ⟨?_, ?_⟩⟩
      · exact (continues_iff u).1 (h.tied hq u v huv)
      · exact (startsComment_eq_false_iff v).1 ((uncommented_iff token).1 h.uncommented u v huv)
    · exact .inl ⟨hq, h.uncommented⟩
  · rintro (⟨hq, hu⟩ | ⟨hq, he, ht⟩)
    · exact ⟨hu, isOpen_of_not_mem hq, fun hm => absurd hm hq⟩
    · refine ⟨(uncommented_iff token).2 fun u v huv => ?_, (isOpen_eq_false_iff token).2 he, ?_⟩
      · exact (startsComment_eq_false_iff v).2 (ht u v huv).2
      · intro _ u v huv
        exact (continues_iff u).2 (ht u v huv).1

theorem Leading.eq_write {found behind token rest : List Char} (h : Leading found behind)
    (ho : isOpen found = false) (hf : finish found = token)
    (hr : rest = [] ∨ ∃ more, rest = ' ' :: more) (hj : write token ++ rest = found ++ behind) :
    found = write token ∧ behind = rest := by
  obtain ⟨gap, hg, hb⟩ | ⟨gap, hg, hb⟩ := List.append_eq_append_iff.1 hj
  · -- nothing is glued to a token that is written
    cases gap with
    | nil => exact ⟨by simpa using hg, by simpa using hb.symm⟩
    | cons c gap =>
        obtain rfl | ⟨more, rfl⟩ := hr
        · simp at hb
        · obtain rfl : ' ' = c := (List.cons.inj hb).1
          have hc := (h.glued _ _ hg).1
          rw [continues_write (hf ▸ isOpen_finish ho)] at hc
          contradiction
  · -- a part of what is written is either open or too short
    cases gap with
    | nil => exact ⟨by simpa using hg.symm, by simpa using hb⟩
    | cons c gap =>
        obtain rfl : c = ' ' := by
          obtain rfl | ⟨more, rfl, -⟩ := h.ends
          · simp at hb
          · exact (List.cons.inj hb).1.symm
        obtain ⟨hbare, hw⟩ | ⟨hq, hw⟩ | ⟨hq, hw⟩ := write_cases token
        · obtain ⟨-, -, -, hs, -⟩ := (isBare_iff token).1 hbare
          rw [hw] at hg
          exact absurd (by simp [hg]) hs
        · obtain ⟨quote, he⟩ := eq_wrap_finish (hf ▸ hq)
          have hl := congrArg List.length hg
          rw [he, hf, hw] at hl
          simp only [wrap, List.length_append, List.length_cons] at hl
          omega
        · obtain ⟨u, v, rfl, -, rfl⟩ := wrap_split (by decide) (hw ▸ hg)
          rw [isOpen_quote fun hm => hq (by simp [hm])] at ho
          contradiction

theorem join_cons (token : List Char) (ts : List (List Char)) :
    ∃ rest, join (token :: ts) = write token ++ rest ∧
      (rest = [] ∨ ∃ more, rest = ' ' :: more) ∧ scan rest = scan (join ts) := by
  cases ts with
  | nil => exact ⟨[], by simp [join], .inl rfl, rfl⟩
  | cons t ts =>
      exact ⟨' ' :: join (t :: ts), by simp [join, List.intercalate_cons_cons], .inr ⟨_, rfl⟩,
        scan_space _⟩

theorem scan_join_cons_iff (token : List Char) (ts us : List (List Char)) :
    scan (join (token :: ts)) = .ok (token :: us) ↔
      Representable token ∧ scan (join ts) = .ok us := by
  obtain ⟨rest, hj, hr, hs⟩ := join_cons token ts
  obtain ⟨hhead, hplain⟩ := head?_write token
  rw [representable_iff, hj, ← hs]
  constructor
  · intro h
    have hne := write_ne_nil token
    have hh : (write token ++ rest).head? = (write token).head? :=
      List.head?_append_of_ne_nil _ hne
    have hn : write token ++ rest ≠ [] := by simp [hne]
    obtain ⟨found, behind, he, hl⟩ := exists_leading hn (by rwa [hh]) (by rwa [startsComment, hh])
    rw [he, hl.scan_eq_ok_iff] at h
    obtain ⟨ho, hf, hb⟩ := h
    obtain ⟨rfl, rfl⟩ := hl.eq_write ho hf hr he
    exact ⟨⟨hl.glued, by rwa [isOpen_write] at ho⟩, hb⟩
  · rintro ⟨⟨hg, ho⟩, hb⟩
    have hl : Leading (write token) rest := by
      refine ⟨hg, write_ne_nil token, hplain, hr.imp id ?_⟩
      rintro ⟨more, rfl⟩
      exact ⟨more, rfl, .inl (continues_write ho)⟩
    exact (hl.scan_eq_ok_iff token us).2 ⟨by rwa [isOpen_write], finish_write token, hb⟩

/-- Tokens read back from the line for them when each of them is representable, whatever its
neighbours are. -/
theorem scan_join_iff (ts : List (List Char)) :
    scan (join ts) = .ok ts ↔ ∀ t ∈ ts, Representable t := by
  induction ts with
  | nil => simp [join, scan, merged, Text.pieces_nil, startsComment, glue]
  | cons t ts ih => rw [scan_join_cons_iff, ih, List.forall_mem_cons]

theorem isOpen_of_mem_scan {line : List Char} {ts : List (List Char)} (h : scan line = .ok ts)
    {t : List Char} (ht : t ∈ ts) : isOpen t = false := by
  obtain ⟨ho, rfl⟩ := (scan_eq_ok_iff line ts).1 h
  obtain ⟨found, hm, rfl⟩ := List.mem_map.1 ht
  exact isOpen_finish (ho found (List.mem_reverse.1 hm))

theorem ofLine_eq_ok_iff (line : String) (ts : List String) :
    ofLine line = .ok ts ↔ scan line.toList = .ok (ts.map String.toList) := by
  unfold ofLine
  cases scan line.toList with
  | error fault => simp [Except.map]
  | ok found =>
      simp only [Except.map, Except.ok.injEq]
      constructor
      · rintro rfl
        simp
      · rintro rfl
        simp

theorem ofLine_toLine (ts us : List String) :
    ofLine (toLine ts) = .ok us ↔
      scan (join (ts.map String.toList)) = .ok (us.map String.toList) := by
  rw [ofLine_eq_ok_iff, toLine, String.toList_ofList]

/-- Any tokens read back from the line for them when each is unquoted or paired. -/
theorem ofLine_toLine_eq_self_iff (ts : List String) :
    ofLine (toLine ts) = .ok ts ↔ ∀ t ∈ ts, Unquoted t.toList ∨ Paired t.toList := by
  rw [ofLine_toLine, scan_join_iff, List.forall_mem_map]
  exact forall₂_congr fun t _ => representable_iff_unquoted_or_paired t.toList

/-- The tokens of a line read back from the line for them when none of them has a comment behind a
space, and those with double quotes have every space behind an open quote or a backslash. -/
theorem ofLine_toLine_iff_of_ofLine {line : String} {ts : List String} (h : ofLine line = .ok ts) :
    ofLine (toLine ts) = .ok ts ↔
      ∀ t ∈ ts, Uncommented t.toList ∧ ('"' ∈ t.toList → Tied t.toList) := by
  rw [ofLine_eq_ok_iff] at h
  rw [ofLine_toLine, scan_join_iff, List.forall_mem_map]
  refine forall₂_congr fun t ht => ⟨fun hr => ⟨hr.uncommented, hr.tied⟩, fun ⟨hu, hq⟩ => ?_⟩
  exact ⟨hu, isOpen_of_mem_scan h (List.mem_map_of_mem ht), hq⟩

theorem ofLine_toLine_of_quoted :
    ofLine "\"b  c\" 'd\"e f\"' \"\" #g" = .ok ["b  c", "d\"e f\"", ""] ∧
      ofLine (toLine ["b  c", "d\"e f\"", ""]) = .ok ["b  c", "d\"e f\"", ""] := by
  have h : ofLine "\"b  c\" 'd\"e f\"' \"\" #g" = .ok ["b  c", "d\"e f\"", ""] := rfl
  exact ⟨h, (ofLine_toLine_iff_of_ofLine h).2 (by decide)⟩

theorem ofLine_toLine_of_commented_of_untied :
    (ofLine "a\\ \\#b" = .ok ["a #b"] ∧
      ofLine (toLine ["a #b"]) = .error (.unterminatedQuote "\"a")) ∧
    ofLine "\"a b\"c\" d\"" = .ok ["a b\"c\" d"] ∧
      ofLine (toLine ["a b\"c\" d"]) = .ok ["'a", "b'c'", "d'"] :=
  ⟨⟨rfl, rfl⟩, rfl, rfl⟩

end Playout.Token
