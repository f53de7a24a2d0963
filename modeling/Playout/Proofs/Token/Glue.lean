import Mathlib.Data.List.TakeWhile
import Playout.Token

namespace Playout.Text

theorem pieces_ne_nil (sep : Char) (text : List Char) : pieces sep text ≠ [] := by
  induction text with
  | nil => simp [pieces_nil]
  | cons c text ih =>
      by_cases hc : c = sep
      · simp [hc, pieces_sep]
      · rw [pieces_cons hc]
        simpa using ih

theorem pieces_of_not_mem {sep : Char} {text : List Char} (h : sep ∉ text) :
    pieces sep text = [text] := by
  induction text with
  | nil => rfl
  | cons c text ih =>
      rw [List.mem_cons, not_or] at h
      rw [pieces_cons (Ne.symm h.1), ih h.2]
      rfl

theorem pieces_append (sep : Char) (text more : List Char) :
    pieces sep (text ++ sep :: more) = pieces sep text ++ pieces sep more := by
  induction text with
  | nil => exact pieces_sep sep more
  | cons c text ih =>
      by_cases hc : c = sep
      · simp [hc, pieces_sep, ih]
      · obtain ⟨p, ps, hp⟩ := List.exists_cons_of_ne_nil (pieces_ne_nil sep text)
        simp [pieces_cons hc, ih, hp]

@[elab_as_elim]
theorem pieces_induction (sep : Char) {motive : List Char → Prop}
    (piece : ∀ p, sep ∉ p → motive p)
    (concat : ∀ text p, sep ∉ p → motive text → motive (text ++ sep :: p))
    (text : List Char) : motive text := by
  induction hn : text.length using Nat.strong_induction_on generalizing text with
  | _ n ih =>
      by_cases hm : sep ∈ text.reverse
      · obtain ⟨p, front, he, hp⟩ := List.eq_append_cons_of_mem hm
        have ht : text = front.reverse ++ sep :: p.reverse := by
          rw [← List.reverse_reverse text, he]
          simp
        rw [ht]
        refine concat _ _ (by simpa using hp) (ih _ ?_ _ rfl)
        rw [← hn, ht]
        simp
      · exact piece text (by simpa using hm)

end Playout.Text

namespace Playout.Token

open Text

/-- At every space something is glued. -/
def Glued (token : List Char) : Prop :=
  ∀ u v, token = u ++ ' ' :: v → continues u = true ∧ startsComment v = false

theorem startsComment_append_space (u v : List Char) :
    startsComment (u ++ ' ' :: v) = startsComment u := by
  cases u <;> simp [startsComment]

theorem continues_nil : continues [] = false := rfl

theorem glued_of_not_mem {token : List Char} (h : ' ' ∉ token) : Glued token := by
  rintro u v rfl
  simp at h

theorem Glued.left {u v : List Char} (h : Glued (u ++ ' ' :: v)) : Glued u := by
  rintro a b rfl
  obtain ⟨ha, hb⟩ := h a (b ++ ' ' :: v) (by simp)
  exact ⟨ha, by rwa [startsComment_append_space] at hb⟩

theorem Glued.concat {u p : List Char} (h : Glued u) (hu : continues u = true) (hp : ' ' ∉ p)
    (hc : startsComment p = false) : Glued (u ++ ' ' :: p) := by
  intro a b hab
  obtain ⟨m, rfl, hm⟩ | ⟨m, rfl, hm⟩ := List.append_eq_append_iff.1 hab
  · cases m with
    | nil =>
        obtain rfl : p = b := by simpa using hm
        exact ⟨by simpa using hu, hc⟩
    | cons c m =>
        obtain ⟨rfl, rfl⟩ := List.cons.inj hm
        simp at hp
  · cases m with
    | nil =>
        obtain rfl : b = p := by simpa using hm
        exact ⟨by simpa using hu, hc⟩
    | cons c m =>
        obtain ⟨rfl, rfl⟩ := List.cons.inj hm
        obtain ⟨ha, hb⟩ := h a m rfl
        exact ⟨ha, (startsComment_append_space m p).trans hb⟩

def kept (line : List Char) : List (List Char) := (pieces ' ' line).takeWhile (!startsComment ·)

theorem kept_of_comment {line : List Char} (h : startsComment line = true) : kept line = [] := by
  cases line with
  | nil => simp [startsComment] at h
  | cons c line =>
      obtain rfl : c = '#' := by simpa [startsComment] using h
      obtain ⟨p, ps, hp⟩ := List.exists_cons_of_ne_nil (pieces_ne_nil ' ' line)
      simp [kept, pieces_cons, hp, startsComment]

theorem Glued.kept {token : List Char} (h : Glued token) (hc : startsComment token = false) :
    ∀ p ∈ pieces ' ' token, startsComment p = false := by
  induction token using pieces_induction ' ' with
  | piece p hp => simpa [pieces_of_not_mem hp] using hc
  | concat u p hp ih =>
      intro q hq
      rw [pieces_append, pieces_of_not_mem hp, List.mem_append, List.mem_singleton] at hq
      obtain hq | rfl := hq
      · exact ih h.left (by rwa [startsComment_append_space] at hc) q hq
      · exact (h u q rfl).2

theorem foldl_glue_glued {token : List Char} (h : Glued token) (hn : token ≠ []) :
    (pieces ' ' token).foldl glue [] = [token] := by
  induction token using pieces_induction ' ' with
  | piece p hp => simp [pieces_of_not_mem hp, glue, hn]
  | concat u p hp ih =>
      have hu : continues u = true := (h u p rfl).1
      have hun : u ≠ [] := by
        rintro rfl
        simp [continues_nil] at hu
      rw [pieces_append, pieces_of_not_mem hp, List.foldl_append, ih h.left hun]
      simp [glue, hu]

def Settled (found : List (List Char)) : Prop := ∀ last ∈ found.head?, continues last = false

theorem foldl_glue_append (ps start : List (List Char)) {found : List (List Char)}
    (h : Settled found) :
    ps.foldl glue (start ++ found) = ps.foldl glue start ++ found := by
  induction ps generalizing start with
  | nil => rfl
  | cons p ps ih =>
      have hg : glue (start ++ found) p = glue start p ++ found := by
        cases start with
        | nil =>
            cases found with
            | nil => simp
            | cons last found =>
                have hl : continues last = false := h last rfl
                by_cases hp : p = [] <;> simp [glue, hl, hp]
        | cons last start =>
            by_cases hl : continues last = true <;> by_cases hp : p = [] <;> simp [glue, hl, hp]
      rw [List.foldl_cons, List.foldl_cons, hg, ih]

/-- The first token of a line, before it is finished, and what is behind it. -/
structure Leading (token behind : List Char) : Prop where
  glued : Glued token
  ne_nil : token ≠ []
  plain : startsComment token = false
  ends : behind = [] ∨
    ∃ rest, behind = ' ' :: rest ∧ (continues token = false ∨ startsComment rest = true)

theorem merged_space (line : List Char) : merged (' ' :: line) = merged line := by
  simp [merged, pieces_sep, startsComment, glue]

theorem merged_leading {token behind : List Char} (h : Leading token behind) :
    merged (token ++ behind) = merged behind ++ [token] := by
  have hk : ∀ p ∈ pieces ' ' token, (!startsComment p) = true := by
    simpa using h.glued.kept h.plain
  obtain rfl | ⟨rest, rfl, hr⟩ := h.ends
  · have hm : merged [] = [] := rfl
    rw [List.append_nil, hm, merged, List.takeWhile_eq_self_iff.2 hk,
      foldl_glue_glued h.glued h.ne_nil, List.nil_append]
  · have hs : merged (token ++ ' ' :: rest) = (kept rest).foldl glue [token] := by
      rw [merged, pieces_append, List.takeWhile_append_of_pos hk, List.foldl_append,
        foldl_glue_glued h.glued h.ne_nil, kept]
    rw [hs, merged_space]
    cases hr with
    | inl hr =>
        have hs : Settled [token] := by simpa [Settled] using hr
        exact foldl_glue_append (kept rest) [] hs
    | inr hr =>
        have hm : merged rest = (kept rest).foldl glue [] := rfl
        simp [hm, kept_of_comment hr]

theorem exists_piece (line : List Char) :
    ∃ p behind, line = p ++ behind ∧ ' ' ∉ p ∧ (behind = [] ∨ ∃ rest, behind = ' ' :: rest) := by
  by_cases hm : ' ' ∈ line
  · obtain ⟨p, rest, he, hp⟩ := List.eq_append_cons_of_mem hm
    exact ⟨p, ' ' :: rest, he, hp, .inr ⟨rest, rfl⟩⟩
  · exact ⟨line, [], by simp, hm, .inl rfl⟩

theorem startsComment_left {p behind : List Char} (h : startsComment (p ++ behind) = false) :
    startsComment p = false := by
  cases p with
  | nil => rfl
  | cons c p => exact h

theorem Glued.exists_leading {token behind : List Char} (h : Glued token) (hn : token ≠ [])
    (hc : startsComment token = false) (hb : behind = [] ∨ ∃ rest, behind = ' ' :: rest) :
    ∃ token' behind', token ++ behind = token' ++ behind' ∧ Leading token' behind' := by
  induction hl : behind.length using Nat.strong_induction_on generalizing token behind with
  | _ n ih =>
      obtain rfl | ⟨rest, rfl⟩ := hb
      · exact ⟨token, [], rfl, h, hn, hc, .inl rfl⟩
      · by_cases hend : continues token = false ∨ startsComment rest = true
        · exact ⟨token, ' ' :: rest, rfl, h, hn, hc, .inr ⟨rest, rfl, hend⟩⟩
        · rw [not_or, Bool.not_eq_false, Bool.not_eq_true] at hend
          obtain ⟨p, behind, rfl, hp, hb⟩ := exists_piece rest
          have hlt : behind.length < n := by
            rw [← hl, List.length_cons, List.length_append]
            omega
          obtain ⟨token', behind', he, ht⟩ := ih _ hlt
            (h.concat hend.1 hp (startsComment_left hend.2)) (by simp)
            (by rwa [startsComment_append_space]) hb rfl
          exact ⟨token', behind', by simpa using he, ht⟩

theorem exists_leading {line : List Char} (hn : line ≠ []) (hs : line.head? ≠ some ' ')
    (hc : startsComment line = false) :
    ∃ token behind, line = token ++ behind ∧ Leading token behind := by
  obtain ⟨p, behind, rfl, hp, hb⟩ := exists_piece line
  refine (glued_of_not_mem hp).exists_leading ?_ (startsComment_left hc) hb
  rintro rfl
  obtain rfl | ⟨rest, rfl⟩ := hb
  · exact hn rfl
  · exact hs rfl

/-- Only the newest token of a line may take more. -/
theorem continues_of_mem_tail {line token : List Char} (h : token ∈ (merged line).tail) :
    continues token = false := by
  have hf (ps found : List (List Char)) (hs : ∀ t ∈ found.tail, continues t = false) :
      ∀ t ∈ (ps.foldl glue found).tail, continues t = false := by
    induction ps generalizing found with
    | nil => exact hs
    | cons p ps ih =>
        refine ih _ ?_
        cases found with
        | nil => by_cases hp : p = [] <;> simp [glue, hp]
        | cons last found =>
            by_cases hl : continues last = true
            · simpa [glue, hl] using hs
            · by_cases hp : p = []
              · simpa [glue, hl, hp] using hs
              · simp only [List.tail_cons] at hs
                simpa [glue, hl, hp] using hs
  exact hf _ [] (by simp) token h

theorem continues_of_isOpen {token : List Char} (h : isOpen token = true) :
    continues token = true := by
  simp [continues, h]

theorem scan_eq_ok_iff (line : List Char) (ts : List (List Char)) :
    scan line = .ok ts ↔
      (∀ t ∈ merged line, isOpen t = false) ∧ (merged line).reverse.map finish = ts := by
  have ht (t : List Char) (h : t ∈ (merged line).tail) : isOpen t = false := by
    rw [← Bool.not_eq_true]
    intro ho
    simpa [continues_of_isOpen ho] using continues_of_mem_tail h
  unfold scan
  cases hm : merged line with
  | nil => simp
  | cons last found =>
      rw [hm, List.tail_cons] at ht
      cases ho : isOpen last with
      | true => simp [Option.filter, ho]
      | false => simpa [Option.filter, ho] using fun _ => ht

theorem scan_space (line : List Char) : scan (' ' :: line) = scan line := by
  simp [scan, merged_space]

theorem Leading.scan_eq_ok_iff {token behind : List Char} (h : Leading token behind)
    (t : List Char) (ts : List (List Char)) :
    scan (token ++ behind) = .ok (t :: ts) ↔
      isOpen token = false ∧ finish token = t ∧ scan behind = .ok ts := by
  rw [Token.scan_eq_ok_iff, Token.scan_eq_ok_iff, merged_leading h]
  simp only [List.mem_append, List.mem_singleton, List.reverse_append, List.reverse_singleton,
    List.singleton_append, List.map_cons, List.cons.injEq]
  constructor
  · rintro ⟨ho, hf, hr⟩
    exact ⟨ho token (.inr rfl), hf, fun t' ht' => ho t' (.inl ht'), hr⟩
  · rintro ⟨ho, hf, hb, hr⟩
    exact ⟨fun t' ht' => ht'.elim (hb t') fun he => he ▸ ho, hf, hr⟩

end Playout.Token
