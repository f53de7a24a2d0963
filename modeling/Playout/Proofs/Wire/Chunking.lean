import Playout.Proofs.Wire.Framing
import Playout.Wire.Client

namespace Playout.Wire

/-- The stretches before the line ends and the rest behind the last one are no longer than this. -/
def Within (limit : Nat) (bytes : List UInt8) : Prop :=
  ∀ lines rest, Framed bytes lines rest →
    (∀ line ∈ lines, line.length ≤ limit) ∧ rest.length ≤ limit

theorem within_iff (limit : Nat) (bytes : List UInt8) :
    Within limit bytes ↔
      (∀ line ∈ (extract bytes).1, line.length ≤ limit) ∧ (extract bytes).2.length ≤ limit := by
  refine ⟨fun h => h _ _ (extract_framed bytes), fun h lines rest hf => ?_⟩
  rw [extract_of_framed hf] at h
  exact h

theorem Clean.length_le {rest line more : List UInt8} (hr : Clean rest)
    (h : rest <+: line ++ lineEnd ++ more) : rest.length ≤ line.length + 1 := by
  by_contra hlong
  have hl : line ++ lineEnd <+: rest :=
    List.prefix_of_prefix_length_le (List.prefix_append _ more) h (by simp [lineEnd]; omega)
  exact hr ((List.suffix_append line lineEnd).isInfix.trans hl.isInfix)

theorem Within.length_rest {limit : Nat} {x y : List UInt8} (h : Within limit (x ++ y)) :
    (extract x).2.length ≤ limit + 1 := by
  obtain ⟨hlines, hrest⟩ := (within_iff _ _).1 h
  rw [extract_append] at hlines hrest
  have hc := (extract_framed x).rest
  have hj := (extract_framed ((extract x).2 ++ y)).joined
  cases hl : (extract ((extract x).2 ++ y)).1 with
  | nil =>
      have hs := congrArg List.length hj
      simp only [hl, List.flatMap_nil, List.nil_append, List.length_append] at hs
      simp only at hrest
      omega
  | cons line lines =>
      have hp : (extract x).2 <+: line ++ lineEnd ++
          (lines.flatMap (· ++ lineEnd) ++ (extract ((extract x).2 ++ y)).2) := by
        rw [hl, List.flatMap_cons, List.append_assoc] at hj
        exact ⟨y, hj⟩
      have hline : line.length ≤ limit := hlines line (by simp [hl])
      have := hc.length_le hp
      omega

namespace Connection

/-- With this in the buffer; one that is closing holds nothing. -/
def holding (buffer : List UInt8) (c : Connection) : Connection :=
  { c with buffer := if c.closing then [] else buffer }

@[simp] theorem closing_holding (x : List UInt8) (c : Connection) :
    (c.holding x).closing = c.closing := rfl

@[simp] theorem holding_holding (x y : List UInt8) (c : Connection) :
    (c.holding x).holding y = c.holding y := rfl

theorem holding_of_closing (x y : List UInt8) {c : Connection} (h : c.closing = true) :
    c.holding x = c.holding y := by
  simp [holding, h]

theorem refuseOverlong_of_le {c : Connection} (h : c.buffer.length ≤ longest) :
    c.refuseOverlong = c :=
  if_neg (by omega)

theorem refuseOverlong_holding {x : List UInt8} (h : x.length ≤ longest) (c : Connection) :
    (c.holding x).refuseOverlong = c.holding x := by
  apply refuseOverlong_of_le
  cases hc : c.closing <;> simp [holding, hc, h]

theorem takeLines_of_closing {c : Connection} (h : c.closing = true) (lines : List (List UInt8))
    (studio : Studio) : takeLines lines studio c = (studio, c) := by
  cases lines with
  | nil => rfl
  | cons line lines => simp [takeLines, h]

theorem takeLines_append (lines more : List (List UInt8)) (studio : Studio) (c : Connection) :
    takeLines (lines ++ more) studio c =
      takeLines more (takeLines lines studio c).1 (takeLines lines studio c).2 := by
  induction lines generalizing studio c with
  | nil => rfl
  | cons line lines ih =>
      by_cases hc : c.closing = true
      · rw [takeLines_of_closing hc, takeLines_of_closing hc, takeLines_of_closing hc]
      · by_cases hl : line = []
        · simp [takeLines, hc, hl, ih]
        · simp [takeLines, hc, hl, ih]

theorem takeLine_holding (line x : List UInt8) (studio : Studio) {c : Connection}
    (h : c.closing = false) :
    takeLine line studio (c.holding x) =
      ((takeLine line studio c).1, (takeLine line studio c).2.holding x) := by
  obtain ⟨console, buffer, outbox, closing⟩ := c
  cases h
  rfl

theorem takeLines_holding (lines : List (List UInt8)) (x : List UInt8) (studio : Studio)
    (c : Connection) :
    takeLines lines studio (c.holding x) =
      ((takeLines lines studio c).1, (takeLines lines studio c).2.holding x) := by
  induction lines generalizing studio c with
  | nil => rfl
  | cons line lines ih =>
      cases hc : c.closing with
      | true => rw [takeLines_of_closing hc, takeLines_of_closing (by simpa using hc)]
      | false =>
          by_cases hl : line = []
          · simp [takeLines, hc, hl, ih]
          · simp [takeLines, hc, hl, takeLine_holding, ih]

theorem feed_cons (portion : List UInt8) (portions : List (List UInt8)) (studio : Studio)
    (c : Connection) :
    c.feed (portion :: portions) studio =
      (c.feed [portion] studio).2.feed portions (c.feed [portion] studio).1 := rfl

theorem feed_of_closing {c : Connection} (h : c.closing = true) (portions : List (List UInt8))
    (studio : Studio) : c.feed portions studio = (studio, c) := by
  induction portions with
  | nil => rfl
  | cons portion portions ih =>
      have hr : c.feed [portion] studio = (studio, c) := by simp [feed, read, h]
      rw [feed_cons, hr, ih]

theorem feed_one {c : Connection} (h : c.closing = false) (portion : List UInt8) (studio : Studio) :
    c.feed [portion] studio =
      ((takeLines (extract (c.buffer ++ portion)).1 studio c).1,
        ((takeLines (extract (c.buffer ++ portion)).1 studio c).2.holding
          (extract (c.buffer ++ portion)).2).refuseOverlong) := by
  have hb : { c with buffer := (extract (c.buffer ++ portion)).2 } =
      c.holding (extract (c.buffer ++ portion)).2 := by simp [holding, h]
  change (c.read (.bytes portion) studio).2 = _
  rw [read, if_neg (by simp [h])]
  simp only [hb, takeLines_holding]

/-- Two portions are as good as one, if what waits between them is not thrown away. -/
theorem feed_two {c : Connection} {x : List UInt8}
    (hx : (extract (c.buffer ++ x)).2.length ≤ longest) (y : List UInt8) (studio : Studio) :
    c.feed [x, y] studio = c.feed [x ++ y] studio := by
  cases hc : c.closing with
  | true => rw [feed_of_closing hc, feed_of_closing hc]
  | false =>
      rw [feed_cons, feed_one hc x, feed_one hc (x ++ y), refuseOverlong_holding hx,
        ← List.append_assoc, extract_append (c.buffer ++ x) y, takeLines_append]
      generalize extract (c.buffer ++ x) = framed at hx ⊢
      obtain ⟨lines, waiting⟩ := framed
      obtain ⟨studio', c'⟩ := takeLines lines studio c
      dsimp only at hx ⊢
      cases hc' : c'.closing with
      | true =>
          rw [feed_of_closing (by simpa using hc'), takeLines_of_closing hc',
            holding_of_closing (extract (waiting ++ y)).2 waiting hc', refuseOverlong_holding hx]
      | false =>
          have hb : (c'.holding waiting).buffer = waiting := by simp [holding, hc']
          rw [feed_one (by simpa using hc'), hb, takeLines_holding, holding_holding]

theorem feed_joined (x : List UInt8) (ys : List (List UInt8)) (studio : Studio) (c : Connection)
    (h : Within 65535 (c.buffer ++ (x ++ ys.flatten))) :
    c.feed (x :: ys) studio = c.feed [x ++ ys.flatten] studio := by
  induction ys generalizing x with
  | nil => simp
  | cons y ys ih =>
      have hx : (extract (c.buffer ++ x)).2.length ≤ longest := by
        rw [← List.append_assoc] at h
        exact h.length_rest
      have hj : x ++ (y :: ys).flatten = (x ++ y) ++ ys.flatten := by simp
      rw [hj] at h ⊢
      rw [← ih (x ++ y) h, feed_cons (x ++ y), ← feed_two hx, feed_cons x (y :: ys),
        feed_cons y ys, feed_cons x [y]]

theorem feed_flatten {portions : List (List UInt8)} (hp : portions ≠ []) {c : Connection}
    (hw : Within 65535 (c.buffer ++ portions.flatten)) (studio : Studio) :
    c.feed portions studio = c.feed [portions.flatten] studio := by
  obtain ⟨x, xs, rfl⟩ := List.exists_cons_of_ne_nil hp
  rw [List.flatten_cons] at hw ⊢
  exact feed_joined x xs studio c hw

/-- The stream begins with what was in the buffer. -/
theorem feed_of_flatten_eq {portions portions' : List (List UInt8)} {c : Connection}
    (h : portions.flatten = portions'.flatten) (hp : [] ∉ portions) (hp' : [] ∉ portions')
    (hw : Within 65535 (c.buffer ++ portions.flatten)) (studio : Studio) :
    c.feed portions studio = c.feed portions' studio := by
  cases portions with
  | nil =>
      cases portions' with
      | nil => rfl
      | cons y ys =>
          have hy : y = [] := by
            rw [List.flatten_nil, List.flatten_cons] at h
            exact (List.append_eq_nil_iff.1 h.symm).1
          exact absurd (by simp [hy]) hp'
  | cons x xs =>
      cases portions' with
      | nil =>
          have hx : x = [] := by
            rw [List.flatten_nil, List.flatten_cons] at h
            exact (List.append_eq_nil_iff.1 h).1
          exact absurd (by simp [hx]) hp
      | cons y ys =>
          have hw' := hw
          rw [h] at hw'
          rw [List.flatten_cons] at h hw
          rw [List.flatten_cons] at h hw'
          rw [feed_joined x xs studio c hw, feed_joined y ys studio c hw', h]

theorem feed_of_flatten_eq_leaving :
    Connection.feed [[195, 169, 13, 10], [101, 120, 105, 116, 13], [10, 49]] {} { console := {} } =
      Connection.feed [[195], [169, 13], [10, 101, 120, 105], [116, 13, 10, 49]] {}
        { console := {} } :=
  feed_of_flatten_eq (by decide) (by decide) (by decide) ((within_iff _ _).2 (by decide)) {}

end Connection

end Playout.Wire
