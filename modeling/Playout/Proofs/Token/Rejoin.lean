import Mathlib.Data.Set.Finite.List
import Mathlib.Data.Set.Finite.Lemmas
import Playout.Proofs.Token.RoundTrip

namespace Playout.Token

/-- A part of a text, cut off at spaces. -/
def Part (found text : List Char) : Prop :=
  ∃ a b, text = a ++ found ++ b ∧ (a = [] ∨ ∃ a', a = a' ++ [' ']) ∧ (b = [] ∨ ∃ b', b = ' ' :: b')

theorem Part.refl (text : List Char) : Part text text := ⟨[], [], by simp, .inl rfl, .inl rfl⟩

theorem Part.first (u v : List Char) : Part u (u ++ ' ' :: v) :=
  ⟨[], ' ' :: v, by simp, .inl rfl, .inr ⟨v, rfl⟩⟩

theorem Part.behind {found v : List Char} (h : Part found v) (u : List Char) :
    Part found (u ++ ' ' :: v) := by
  obtain ⟨a, b, rfl, ha, hb⟩ := h
  refine ⟨u ++ ' ' :: a, b, by simp, .inr ?_, hb⟩
  obtain rfl | ⟨a, rfl⟩ := ha
  · exact ⟨u, rfl⟩
  · exact ⟨u ++ ' ' :: a, by simp⟩

theorem Part.length_le {found text : List Char} (h : Part found text) :
    found.length ≤ text.length := by
  obtain ⟨a, b, rfl, -⟩ := h
  simp only [List.length_append]
  omega

theorem Part.length_le_of_wrap {found token : List Char} {quote : Char} (hq : quote ≠ ' ')
    (h : Part found (wrap quote token)) :
    found = wrap quote token ∨ found.length ≤ token.length := by
  obtain ⟨a, b, he, ha, hb⟩ := h
  have hl := congrArg List.length he
  simp only [wrap, List.length_append, List.length_cons, List.length_nil] at hl
  have hfront : a = [] ∨ 2 ≤ a.length := by
    obtain rfl | ⟨a, rfl⟩ := ha
    · exact .inl rfl
    · cases a with
      | nil => exact absurd (List.cons.inj he).1 hq
      | cons => exact .inr (by simp)
  have hback : b = [] ∨ 2 ≤ b.length := by
    obtain rfl | ⟨b, rfl⟩ := hb
    · exact .inl rfl
    · obtain rfl | ⟨b, c, rfl⟩ := List.eq_nil_or_concat' b
      · have := congrArg List.getLast? he
        rw [getLast?_wrap, List.getLast?_concat] at this
        exact absurd (Option.some.inj this) hq
      · exact .inr (by simp)
  obtain rfl | ha := hfront
  · obtain rfl | hb := hback
    · exact .inl (by simpa using he.symm)
    · exact .inr (by omega)
  · exact .inr (by omega)

theorem isOpen_append_space (u v : List Char) :
    isOpen (u ++ ' ' :: v) = (isOpen u ^^ isOpen v) := by
  have hq : quotes (u ++ ' ' :: v) = quotes u + quotes v := by simp [quotes]
  rw [isOpen, isOpen, isOpen, hq, Bool.eq_iff_iff]
  simp
  omega

theorem continues_behind {u v : List Char} (h : continues (u ++ ' ' :: v) = false)
    (hu : isOpen u = false) : continues v = false := by
  rw [continues, isOpen_append_space, hu, Bool.false_xor, Bool.or_eq_false_iff] at h
  rw [continues, h.1, Bool.false_or]
  cases v with
  | nil => rfl
  | cons c v => simpa using h.2

theorem isOpen_of_continues {token : List Char} (h : continues token = false) :
    isOpen token = false := (Bool.or_eq_false_iff.1 h).1

theorem merged_of_comment {line : List Char} (h : startsComment line = true) : merged line = [] := by
  have hm : merged line = (kept line).foldl glue [] := rfl
  rw [hm, kept_of_comment h, List.foldl_nil]

/-- A line is empty, begins with a space or a comment, or has a first token. -/
@[elab_as_elim]
theorem line_induction {motive : List Char → Prop} (nil : motive [])
    (comment : ∀ line, startsComment line = true → motive line)
    (space : ∀ line, motive line → motive (' ' :: line))
    (last : ∀ token, Leading token [] → motive token)
    (leading : ∀ token rest, Leading token (' ' :: rest) → motive rest →
      motive (token ++ ' ' :: rest)) (line : List Char) : motive line := by
  induction hn : line.length using Nat.strong_induction_on generalizing line with
  | _ n ih =>
      by_cases hnil : line = []
      · exact hnil ▸ nil
      by_cases hcomment : startsComment line = true
      · exact comment line hcomment
      by_cases hspace : line.head? = some ' '
      · obtain ⟨rest, rfl⟩ := List.head?_eq_some_iff.1 hspace
        exact space rest (ih _ (by simp [← hn]) rest rfl)
      obtain ⟨token, behind, rfl, hl⟩ := exists_leading hnil hspace (by simpa using hcomment)
      obtain rfl | ⟨rest, rfl, -⟩ := hl.ends
      · exact (List.append_nil token).symm ▸ last token hl
      · exact leading token rest hl (ih _ (by simp [← hn]; omega) rest rfl)

theorem merged_last {token : List Char} (h : Leading token []) : merged token = [token] := by
  simpa [merged, Text.pieces_nil, startsComment, glue] using merged_leading h

theorem part_of_mem_merged {line found : List Char} (h : found ∈ merged line) :
    Glued found ∧ Part found line := by
  induction line using line_induction with
  | nil => cases h
  | comment line hc =>
      rw [merged_of_comment hc] at h
      cases h
  | space line ih =>
      rw [merged_space] at h
      exact (ih h).imp_right (·.behind [])
  | last token hl =>
      rw [merged_last hl, List.mem_singleton] at h
      rw [h]
      exact ⟨hl.glued, .refl _⟩
  | leading token rest hl ih =>
      rw [merged_leading hl, merged_space, List.mem_append, List.mem_singleton] at h
      obtain h | rfl := h
      · exact (ih h).imp_right (·.behind token)
      · exact ⟨hl.glued, .first _ _⟩

theorem mem_merged_append {text rest found : List Char} (hc : continues text = false)
    (hr : rest = [] ∨ ∃ more, rest = ' ' :: more) (h : found ∈ merged (text ++ rest)) :
    found ∈ merged text ∨ found ∈ merged rest := by
  have happend {line : List Char} (hl : startsComment line = true) :
      startsComment (line ++ rest) = true := by
    cases line with
    | nil => cases hl
    | cons => exact hl
  induction text using line_induction with
  | nil => exact .inr h
  | comment text ht =>
      rw [merged_of_comment (happend ht)] at h
      cases h
  | space text ih =>
      rw [List.cons_append, merged_space] at h
      rw [merged_space]
      exact ih (continues_behind (u := []) hc rfl) h
  | last token hl =>
      have hl' : Leading token rest :=
        ⟨hl.glued, hl.ne_nil, hl.plain, hr.imp_right fun ⟨more, hm⟩ => ⟨more, hm, .inl hc⟩⟩
      rw [merged_leading hl', List.mem_append] at h
      rw [merged_last hl]
      exact h.symm
  | leading token text hl ih =>
      have hends : continues token = false ∨ startsComment text = true := by
        obtain he | ⟨_, he, hends⟩ := hl.ends
        · cases he
        · exact (List.cons.inj he).2 ▸ hends
      have hl' : Leading token (' ' :: (text ++ rest)) :=
        ⟨hl.glued, hl.ne_nil, hl.plain, .inr ⟨_, rfl, hends.imp_right happend⟩⟩
      rw [List.append_assoc, List.cons_append, merged_leading hl', merged_space,
        List.mem_append] at h
      rw [merged_leading hl, merged_space, List.mem_append]
      obtain h | h := h
      · obtain ht | ht := hends
        · exact (ih (continues_behind hc (isOpen_of_continues ht)) h).imp_left .inl
        · rw [merged_of_comment (happend ht)] at h
          cases h
      · exact .inl (.inr h)

theorem mem_merged_join {ts : List (List Char)} (he : ∀ t ∈ ts, isOpen t = false)
    {found : List Char} (h : found ∈ merged (join ts)) : ∃ t ∈ ts, found ∈ merged (write t) := by
  induction ts with
  | nil => cases h
  | cons t ts ih =>
      obtain ⟨ht, hts⟩ := List.forall_mem_cons.1 he
      have hrest (hm : found ∈ merged (join ts)) : ∃ t' ∈ t :: ts, found ∈ merged (write t') :=
        (ih hts hm).imp fun t' h' => ⟨List.mem_cons_of_mem _ h'.1, h'.2⟩
      cases ts with
      | nil => exact ⟨t, by simp, by simpa [join] using h⟩
      | cons t' ts =>
          have hj : join (t :: t' :: ts) = write t ++ ' ' :: join (t' :: ts) := by
            simp [join, List.intercalate_cons_cons]
          rw [hj] at h
          obtain h | h := mem_merged_append (continues_write ht) (.inr ⟨_, rfl⟩) h
          · exact ⟨t, by simp, h⟩
          · exact hrest (by rwa [merged_space] at h)

theorem Representable.leading {token : List Char} (h : Representable token) :
    Leading (write token) [] :=
  ⟨((representable_iff token).1 h).1, write_ne_nil token, (head?_write token).2, .inl rfl⟩

/-- A token that is not representable is shorter than it was before it was finished: quotes went, or
backslashes that kept a comment from beginning. -/
theorem length_finish_lt {found : List Char} (hg : Glued found)
    (hn : ¬Representable (finish found)) (he : isOpen found = false) :
    (finish found).length < found.length := by
  have hopen := isOpen_finish he
  unfold finish at hn hopen ⊢
  split at hn
  · rename_i hw
    rw [if_pos hw]
    have : 2 ≤ found.length := by
      simp only [isWrapped, Bool.or_eq_true, Bool.and_eq_true, decide_eq_true_eq] at hw
      omega
    rw [unwrap, List.length_dropLast, List.length_tail]
    omega
  · rename_i hw
    rw [if_neg hw] at hopen ⊢
    rw [List.length_map]
    by_contra hl
    have hf : found.filter (· ≠ '\\') = found :=
      List.filter_sublist.eq_of_length_le (Nat.le_of_not_lt hl)
    rw [hf] at hn hopen
    refine hn ⟨(uncommented_iff _).2 fun u v huv => ?_, hopen, fun hm => ?_⟩
    · obtain ⟨u', v', rfl, rfl, hv⟩ := List.map_eq_append_iff.1 huv
      obtain ⟨c, v', rfl, hc, rfl⟩ := List.map_eq_cons_iff.1 hv
      obtain rfl : c = ' ' := by
        split at hc
        · exact absurd hc (by decide)
        · exact hc
      have := (hg u' v' rfl).2
      cases v' with
      | nil => rfl
      | cons d v' =>
          simp only [startsComment, List.map_cons, List.head?_cons, Option.some.injEq,
            decide_eq_false_iff_not] at this ⊢
          split
          · decide
          · exact this
    · obtain ⟨c, -, hc⟩ := List.mem_map.1 hm
      split at hc
      · exact absurd hc (by decide)
      · contradiction

/-- When each token of a line is representable or is among those read back, all are representable. -/
theorem representable_of_scan_join {ts us : List (List Char)} (h : scan (join ts) = .ok us)
    (hk : ∀ t ∈ ts, t ∈ us ∨ Representable t) : ∀ t ∈ ts, Representable t := by
  have heven : ∀ t ∈ ts, isOpen t = false := fun t ht =>
    (hk t ht).elim (isOpen_of_mem_scan h) Representable.even
  -- a token that is read back, but not as it was written, came out of a longer one
  have hlonger : ∀ t ∈ ts, ¬Representable t →
      ∃ t' ∈ ts, ¬Representable t' ∧ t.length < t'.length := by
    intro t ht hn
    obtain ⟨ho, rfl⟩ := (scan_eq_ok_iff _ _).1 h
    obtain ⟨found, hm, rfl⟩ := List.mem_map.1 ((hk t ht).resolve_right hn)
    rw [List.mem_reverse] at hm
    obtain ⟨t', ht', hf⟩ := mem_merged_join heven hm
    obtain ⟨hg, hp⟩ := part_of_mem_merged hf
    have hwhole : found ≠ write t' := by
      rintro rfl
      refine hn ?_
      rw [finish_write]
      exact (representable_iff t').2 ⟨hg, heven t' ht'⟩
    refine ⟨t', ht', fun hr => ?_, (length_finish_lt hg hn (ho found hm)).trans_le ?_⟩
    · rw [merged_last hr.leading, List.mem_singleton] at hf
      exact hwhole hf
    · obtain ⟨hb, hw⟩ | ⟨-, hw⟩ | ⟨-, hw⟩ := write_cases t' <;> rw [hw] at hp hwhole
      · exact hp.length_le
      · exact (hp.length_le_of_wrap (by decide)).resolve_left hwhole
      · exact (hp.length_le_of_wrap (by decide)).resolve_left hwhole
  by_contra hn
  push Not at hn
  obtain ⟨t, ht, hmax⟩ := Set.exists_max_image {t | t ∈ ts ∧ ¬Representable t} List.length
    ((List.finite_toSet ts).subset fun t ht => ht.1) hn
  obtain ⟨t', ht', hn', hlt⟩ := hlonger t ht.1 ht.2
  exact Nat.not_le_of_lt hlt (hmax t' ⟨ht', hn'⟩)

end Playout.Token
