import Playout.Proofs.Wire.Chunking

namespace Playout.Wire

open Text.Utf8

inductive Notice where
  | line (bytes : List UInt8)
  | overlong
  deriving DecidableEq, Repr

def Notice.ofLines (lines : List (List UInt8)) : List Notice :=
  (lines.filter (· ≠ [])).map .line

def bufferAfter (buffer portion : List UInt8) : List UInt8 :=
  if Connection.longest < (extract (buffer ++ portion)).2.length then []
  else (extract (buffer ++ portion)).2

def noticesOf (buffer portion : List UInt8) : List Notice :=
  Notice.ofLines (extract (buffer ++ portion)).1 ++
    if Connection.longest < (extract (buffer ++ portion)).2.length then [.overlong] else []

/-- What there is to notice in the portions, and what is in the buffer after them. -/
def notices : List UInt8 → List (List UInt8) → List Notice × List UInt8
  | buffer, [] => ([], buffer)
  | buffer, portion :: portions =>
    (noticesOf buffer portion ++ (notices (bufferAfter buffer portion) portions).1,
      (notices (bufferAfter buffer portion) portions).2)

namespace Connection

def refuse (c : Connection) : Connection :=
  { c with outbox := c.outbox.queue (Verdict.failed "line too long").line }

@[simp] theorem refuse_holding (x : List UInt8) (c : Connection) :
    (c.holding x).refuse = c.refuse.holding x := rfl

/-- Answers lines and refuses those that are too long, until the client leaves. -/
def heed : List Notice → Studio → Connection → Studio × Connection
  | [], studio, c => (studio, c)
  | .line bytes :: more, studio, c =>
    if c.closing then (studio, c)
    else heed more (takeLine bytes studio c).1 (takeLine bytes studio c).2
  | .overlong :: more, studio, c =>
    if c.closing then (studio, c)
    else heed more studio c.refuse

theorem heed_of_closing {c : Connection} (h : c.closing = true) (ns : List Notice)
    (studio : Studio) : heed ns studio c = (studio, c) := by
  cases ns with
  | nil => rfl
  | cons n ns => cases n <;> simp [heed, h]

theorem heed_append (ns more : List Notice) (studio : Studio) (c : Connection) :
    heed (ns ++ more) studio c = heed more (heed ns studio c).1 (heed ns studio c).2 := by
  induction ns generalizing studio c with
  | nil => rfl
  | cons n ns ih =>
      by_cases hc : c.closing = true
      · rw [heed_of_closing hc, heed_of_closing hc, heed_of_closing hc]
      · cases n with
        | line bytes => simp [heed, hc, ih]
        | overlong => simp [heed, hc, ih]

theorem heed_holding (ns : List Notice) (x : List UInt8) (studio : Studio) (c : Connection) :
    heed ns studio (c.holding x) = ((heed ns studio c).1, (heed ns studio c).2.holding x) := by
  induction ns generalizing studio c with
  | nil => rfl
  | cons n ns ih =>
      cases hc : c.closing with
      | true => rw [heed_of_closing hc, heed_of_closing (by simpa using hc)]
      | false =>
          cases n with
          | line bytes => simp [heed, hc, takeLine_holding, ih]
          | overlong => simp [heed, hc, ih]

theorem takeLines_eq_heed (lines : List (List UInt8)) (studio : Studio) (c : Connection) :
    takeLines lines studio c = heed (Notice.ofLines lines) studio c := by
  induction lines generalizing studio c with
  | nil => rfl
  | cons line lines ih =>
      by_cases hc : c.closing = true
      · rw [takeLines_of_closing hc, heed_of_closing hc]
      · by_cases hl : line = []
        · simpa [takeLines, hc, hl, Notice.ofLines] using ih studio c
        · simpa [takeLines, hc, hl, Notice.ofLines, heed] using ih _ _

theorem feed_portion {c : Connection} (h : c.closing = false) (portion : List UInt8)
    (studio : Studio) :
    c.feed [portion] studio =
      ((heed (noticesOf c.buffer portion) studio c).1,
        (heed (noticesOf c.buffer portion) studio c).2.holding (bufferAfter c.buffer portion)) := by
  rw [feed_one h, takeLines_eq_heed, noticesOf, heed_append, bufferAfter]
  generalize extract (c.buffer ++ portion) = framed
  obtain ⟨lines, rest⟩ := framed
  obtain ⟨studio', c'⟩ := heed (Notice.ofLines lines) studio c
  dsimp only
  by_cases hlong : longest < rest.length
  · rw [if_pos hlong, if_pos hlong]
    cases hc : c'.closing with
    | true =>
        rw [heed_of_closing hc, holding_of_closing rest [] hc, refuseOverlong_holding (by simp)]
    | false => simp [heed, hc, refuseOverlong, refuse, holding, hlong]
  · rw [if_neg hlong, if_neg hlong, refuseOverlong_holding (by omega)]
    rfl

/-- A connection heeds what there is to notice, and nothing else. -/
theorem feed_eq_heed {c : Connection} (h : c.closing = false) (portions : List (List UInt8))
    (studio : Studio) :
    c.feed portions studio =
      ((heed (notices c.buffer portions).1 studio c).1,
        (heed (notices c.buffer portions).1 studio c).2.holding (notices c.buffer portions).2) := by
  induction portions generalizing c studio with
  | nil =>
      obtain ⟨console, buffer, outbox, closing⟩ := c
      cases h
      rfl
  | cons portion portions ih =>
      rw [feed_cons, feed_portion h, notices, heed_append]
      obtain ⟨studio', c'⟩ := heed (noticesOf c.buffer portion) studio c
      dsimp only
      cases hc : c'.closing with
      | true =>
          rw [feed_of_closing (by simpa using hc), heed_of_closing hc]
          exact Prod.ext rfl (holding_of_closing _ _ hc)
      | false =>
          have hb : (c'.holding (bufferAfter c.buffer portion)).buffer =
              bufferAfter c.buffer portion := by simp [holding, hc]
          rw [ih (by simpa using hc), hb, heed_holding, holding_holding]

end Connection

/-- In a stream within the limit no line is refused, and all are noticed. -/
theorem notices_within {buffer : List UInt8} {portions : List (List UInt8)} (hb : Clean buffer)
    (h : Within 65535 (buffer ++ portions.flatten)) :
    notices buffer portions =
      (Notice.ofLines (extract (buffer ++ portions.flatten)).1,
        (extract (buffer ++ portions.flatten)).2) := by
  induction portions generalizing buffer with
  | nil =>
      simp [notices, extract_of_clean hb, Notice.ofLines]
  | cons portion portions ih =>
      rw [List.flatten_cons, ← List.append_assoc] at h ⊢
      have hlen := h.length_rest
      have hlong : ¬Connection.longest < (extract (buffer ++ portion)).2.length := by
        rw [Connection.longest]
        omega
      have hrest := (extract_framed (buffer ++ portion)).rest
      have hw : Within 65535 ((extract (buffer ++ portion)).2 ++ portions.flatten) := by
        rw [within_iff] at h ⊢
        rw [extract_append] at h
        exact ⟨fun line hl => h.1 line (List.mem_append_right _ hl), h.2⟩
      rw [notices, bufferAfter, noticesOf, if_neg hlong, if_neg hlong, ih hrest hw,
        extract_append (buffer ++ portion)]
      simp [Notice.ofLines]

theorem not_mem_replicate (n : Nat) : (13 : UInt8) ∉ List.replicate n 97 := by
  simp [List.mem_replicate]

/-- Bytes that end no line of their own belong to the line that begins there. -/
theorem extract_feed (more : List UInt8) :
    extract (10 :: more) =
      match extract more with
      | ([], rest) => ([], 10 :: rest)
      | (line :: lines, rest) => ((10 :: line) :: lines, rest) := by
  have hclean {l : List UInt8} (h : Clean l) : Clean (10 :: l) := by
    rw [Clean, List.infix_cons_iff]
    rintro (hp | hi)
    · simp [lineEnd] at hp
    · exact h hi
  have hf := extract_framed more
  revert hf
  generalize extract more = framed
  obtain ⟨lines, rest⟩ := framed
  rintro ⟨rfl, hl, hr⟩
  cases lines with
  | nil => exact extract_of_framed ⟨rfl, by simp, hclean hr⟩
  | cons line lines =>
      obtain ⟨hline, hl⟩ := List.forall_mem_cons.1 hl
      exact extract_of_framed ⟨by simp, List.forall_mem_cons.2 ⟨hclean hline, hl⟩, hr⟩

def volume (buffer : List UInt8) : List Notice → Nat
  | [] => buffer.length
  | .line bytes :: ns => bytes.length + volume buffer ns
  | .overlong :: ns => volume buffer ns

theorem volume_cons (line : List UInt8) (lines : List (List UInt8)) (rest : List UInt8) :
    volume rest (Notice.ofLines (line :: lines)) =
      line.length + volume rest (Notice.ofLines lines) := by
  by_cases h : line = []
  · simp [Notice.ofLines, h]
  · simp [Notice.ofLines, volume, h]

/-- Behind a part of a line that was refused, the stream is noticed as from the end of that line only
if nothing of the line, and all of its end, is still to come. -/
theorem noticed_behind_iff {front later line more : List UInt8} (hf : Clean front)
    (hl : Clean line) (h : front ++ later = line ++ lineEnd ++ more) :
    Notice.ofLines (extract later).1 = Notice.ofLines (extract more).1 ∧
        (extract later).2 = (extract more).2 ↔ lineEnd <+: later := by
  constructor
  · rintro ⟨hlines, hrest⟩
    have hv : volume (extract later).2 (Notice.ofLines (extract later).1) =
        volume (extract more).2 (Notice.ofLines (extract more).1) := by rw [hlines, hrest]
    rw [List.append_assoc, List.append_eq_append_iff] at h
    obtain ⟨tail, rfl, rfl⟩ | ⟨cut, rfl, hcut⟩ := h
    · have ht : Clean tail := hl.sub (List.suffix_append _ _).isInfix
      rw [← List.append_assoc, extract_line ht] at hv
      simp only [volume_cons] at hv
      have hnil : tail = [] := List.length_eq_zero_iff.1 (by omega)
      exact ⟨more, by rw [hnil]; rfl⟩
    · change 13 :: 10 :: more = cut ++ later at hcut
      cases cut with
      | nil => exact ⟨more, hcut⟩
      | cons b cut =>
          rw [List.cons_append, List.cons.injEq] at hcut
          obtain ⟨rfl, hcut⟩ := hcut
          cases cut with
          | nil =>
              -- The end itself was cut: its line feed begins the next line.
              obtain rfl : 10 :: more = later := hcut
              rw [extract_feed] at hv
              generalize extract more = framed at hv
              obtain ⟨_ | ⟨first, lines⟩, rest⟩ := framed
              · simp [Notice.ofLines, volume] at hv
              · simp only [volume_cons, List.length_cons] at hv
                omega
          | cons b cut =>
              rw [List.cons_append, List.cons.injEq] at hcut
              obtain ⟨rfl, -⟩ := hcut
              exact absurd ⟨line, cut, by simp [lineEnd]⟩ hf
  · rintro ⟨more', rfl⟩
    have hx := extract_line hf more'
    rw [List.append_assoc, h, extract_line hl] at hx
    obtain ⟨hlines, hrest⟩ := Prod.mk.inj hx
    have he := extract_line clean_nil more'
    rw [List.nil_append] at he
    rw [he, ← (List.cons.inj hlines).2, ← hrest]
    exact ⟨by simp [Notice.ofLines], rfl⟩

namespace Connection

/-- After it has refused a line, a connection goes on as with a new stream; it has refused the line as
a whole exactly if the end of the line is the next that comes. -/
theorem feed_refused_iff {c : Connection} (h : c.closing = false) {portion : List UInt8}
    (hlong : longest < (extract (c.buffer ++ portion)).2.length) (later : List (List UInt8))
    (studio : Studio) :
    (c.feed (portion :: later) studio =
      let ns := Notice.ofLines (extract (c.buffer ++ portion)).1 ++ .overlong :: (notices [] later).1
      ((heed ns studio c).1, (heed ns studio c).2.holding (notices [] later).2)) ∧
    ∀ line more, Clean line →
      (extract (c.buffer ++ portion)).2 ++ later.flatten = line ++ lineEnd ++ more →
      Within 65535 later.flatten →
      (notices [] later = (Notice.ofLines (extract more).1, (extract more).2) ↔
        lineEnd <+: later.flatten) := by
  constructor
  · rw [feed_eq_heed h, notices, noticesOf, bufferAfter, if_pos hlong, if_pos hlong]
    simp
  · intro line more hl hline hw
    rw [notices_within clean_nil (by simpa using hw), Prod.mk.injEq]
    exact noticed_behind_iff (extract_framed _).rest hl hline

theorem feed_refused_iff_whole :
    notices [] [[13, 10, 49, 13], [10, 50]] = ([.line [49]], [50]) := by
  have hm := not_mem_replicate 65537
  have hlong : longest < (extract ([] ++ List.replicate 65537 97)).2.length := by
    rw [List.nil_append, extract_of_not_mem hm, List.length_replicate]
    decide
  have hline : (extract ([] ++ List.replicate 65537 97)).2 ++ [[13, 10, 49, 13], [10, 50]].flatten =
      List.replicate 65537 97 ++ lineEnd ++ [49, 13, 10, 50] := by
    rw [List.nil_append, extract_of_not_mem hm, List.append_assoc]
    rfl
  have h := (@feed_refused_iff { console := {} } rfl _ hlong [[13, 10, 49, 13], [10, 50]] {}).2
    _ _ (clean_of_not_mem hm) hline ((within_iff _ _).2 (by decide))
  exact h.2 ⟨[49, 13, 10, 50], rfl⟩

theorem rest_of_refused_answered :
    (extract (List.replicate 65537 97 ++ encode "hello .\r\n")).1 =
        [List.replicate 65537 97 ++ encode "hello ."] ∧
      ((Connection.feed [List.replicate 65537 97, encode "hello .\r\n"] {}
        { console := {} }).2.outbox.bytes = encode "ERROR: line too long\r\nhello\r\nOK\r\n") := by
  have hm := not_mem_replicate 65537
  constructor
  · have hline : encode "hello .\r\n" = encode "hello ." ++ lineEnd := by decide +kernel
    have hc : (13 : UInt8) ∉ List.replicate 65537 97 ++ encode "hello ." := by
      rw [List.mem_append, not_or]
      exact ⟨hm, by decide +kernel⟩
    have he := extract_line (clean_of_not_mem hc) []
    rw [List.append_nil, List.append_assoc, ← hline] at he
    rw [he]
    rfl
  · have hx : noticesOf [] (List.replicate 65537 97) = [.overlong] ∧
        bufferAfter [] (List.replicate 65537 97) = [] := by
      rw [noticesOf, bufferAfter, List.nil_append, extract_of_not_mem hm, List.length_replicate]
      decide
    rw [feed_eq_heed rfl, notices, hx.1, hx.2]
    decide +kernel

end Connection

end Playout.Wire
