import Mathlib.Data.List.Infix
import Playout.Wire.Exchange

namespace Playout.Wire.Exchange

open Text.Utf8

def headEnd : List UInt8 := [13, 10, 13, 10]

/-- The head is what stands before the first blank line. -/
structure Headed (request head : List UInt8) : Prop where
  ended : head ++ headEnd <+: request
  first : ∀ front, front ++ headEnd <+: request → head.length ≤ front.length

theorem headed_of_headEnd_prefix {request : List UInt8} (h : headEnd <+: request)
    (head : List UInt8) : Headed request head ↔ head = [] := by
  constructor
  · intro hh
    exact List.length_eq_zero_iff.1 (Nat.le_zero.1 (hh.first [] h))
  · rintro rfl
    exact ⟨h, fun _ _ => Nat.zero_le _⟩

theorem headed_cons {b : UInt8} {request : List UInt8} (h : ¬headEnd <+: b :: request)
    (head : List UInt8) :
    Headed (b :: request) head ↔ ∃ front, head = b :: front ∧ Headed request front := by
  constructor
  · rintro ⟨hended, hfirst⟩
    cases head with
    | nil => exact absurd hended h
    | cons c front =>
        rw [List.cons_append, List.cons_prefix_cons] at hended
        obtain ⟨rfl, hended⟩ := hended
        refine ⟨front, rfl, hended, fun other ho => ?_⟩
        have hl := hfirst (c :: other) (List.cons_prefix_cons.2 ⟨rfl, ho⟩)
        simpa using hl
  · rintro ⟨front, rfl, hended, hfirst⟩
    refine ⟨List.cons_prefix_cons.2 ⟨rfl, hended⟩, fun other ho => ?_⟩
    cases other with
    | nil => exact absurd ho h
    | cons c other =>
        have hl := hfirst other (List.cons_prefix_cons.1 ho).2
        simpa using hl

theorem headFrom_cons {b : UInt8} {request : List UInt8} (h : ¬headEnd <+: b :: request)
    (seen : List UInt8) : headFrom seen (b :: request) = headFrom (b :: seen) request := by
  rw [headFrom]
  rintro more rfl hr
  exact h ⟨more, by rw [hr]; rfl⟩

theorem headFrom_eq_some_iff (seen request head : List UInt8) :
    headFrom seen request = some head ↔
      ∃ front, head = seen.reverse ++ front ∧ Headed request front := by
  induction request generalizing seen with
  | nil =>
      refine ⟨nofun, ?_⟩
      rintro ⟨front, -, hh⟩
      have hl := hh.ended.length_le
      simp [headEnd] at hl
  | cons b request ih =>
      by_cases h : headEnd <+: b :: request
      · obtain ⟨more, hm⟩ := h
        have hs : headFrom seen (b :: request) = some seen.reverse := by rw [← hm]; rfl
        simp only [hs, headed_of_headEnd_prefix ⟨more, hm⟩]
        simp [eq_comm]
      · rw [headFrom_cons h, ih]
        constructor
        · rintro ⟨front, rfl, hh⟩
          have hb : Headed (b :: request) (b :: front) := (headed_cons h _).2 ⟨front, rfl, hh⟩
          exact ⟨b :: front, by simp, hb⟩
        · rintro ⟨all, rfl, hb⟩
          obtain ⟨front, rfl, hh⟩ := (headed_cons h all).1 hb
          exact ⟨front, by simp, hh⟩

theorem head?_eq_some_iff (request head : List UInt8) :
    head? request = some head ↔ Headed request head := by
  simp [head?, headFrom_eq_some_iff]

theorem headFrom_eq_none_iff (seen request : List UInt8) :
    headFrom seen request = none ↔ ¬headEnd <:+: request := by
  induction request generalizing seen with
  | nil => simp [headFrom, headEnd]
  | cons b request ih =>
      by_cases h : headEnd <+: b :: request
      · have hi : headEnd <:+: b :: request := h.isInfix
        obtain ⟨more, hm⟩ := h
        have hs : headFrom seen (b :: request) = some seen.reverse := by rw [← hm]; rfl
        simp [hs, hi]
      · rw [headFrom_cons h, ih, List.infix_cons_iff, not_or, and_iff_right h]

theorem head?_eq_none_iff (request : List UInt8) :
    head? request = none ↔ ¬headEnd <:+: request :=
  headFrom_eq_none_iff [] request

section Headed

variable {x y head : List UInt8} (h : Headed (x ++ y) head)

include h

/-- A start of the request that goes to the blank line or beyond has the same head. -/
theorem Headed.left (hl : (head ++ headEnd).length ≤ x.length) : Headed x head where
  ended := List.prefix_of_prefix_length_le h.ended (List.prefix_append x y) hl
  first front hf := h.first front (hf.trans (List.prefix_append x y))

theorem Headed.open_left (hl : x.length < (head ++ headEnd).length) : ¬headEnd <:+: x := by
  rintro ⟨front, back, hx⟩
  have hf : front ++ headEnd <+: x := ⟨back, hx⟩
  have hfirst := h.first front (hf.trans (List.prefix_append x y))
  have hle := hf.length_le
  rw [List.length_append] at hl hle
  omega

end Headed

section Handling

variable {σ : Type} (handle : String → σ → Bool × σ)

/-- A read for any way to handle a head, which says whether the request was accepted. -/
def readWith (arrival : Arrival) (s : σ) (x : Exchange) : ReadStatus × σ × Exchange :=
  if x.response.isSome then (.idle, s, x)
  else
    match arrival with
    | .nothing => (.idle, s, x)
    | .ended => (.closed, s, x)
    | .bytes portion =>
      let x := { x with request := x.request ++ portion }
      match head? x.request with
      | some head =>
        let (taken, s) := handle (lossy head) s
        (.progress, s, x.respond (if taken then accepted else refused))
      | none => (.progress, s, if longest < x.request.length then x.respond refused else x)

def feedWith (arrivals : List Arrival) (s : σ) (x : Exchange) : σ × Exchange :=
  arrivals.foldl (fun (s, x) arrival => (x.readWith handle arrival s).2) (s, x)

theorem feedWith_cons (arrival : Arrival) (arrivals : List Arrival) (s : σ) (x : Exchange) :
    feedWith handle (arrival :: arrivals) s x =
      feedWith handle arrivals (x.readWith handle arrival s).2.1
        (x.readWith handle arrival s).2.2 := rfl

/-- Handles a head and makes a note of it. -/
def noting (head : String) (s : σ × List String) : Bool × σ × List String :=
  ((handle head s.1).1, (handle head s.1).2, s.2 ++ [head])

def answered (taken : Bool) : Outbox := ⟨encode (if taken then accepted else refused)⟩

theorem readWith_of_response {x : Exchange} (h : x.response.isSome = true) (arrival : Arrival)
    (s : σ) : x.readWith handle arrival s = (.idle, s, x) := by
  simp [readWith, h]

theorem feedWith_of_response {x : Exchange} (h : x.response.isSome = true)
    (arrivals : List Arrival) (s : σ) : feedWith handle arrivals s x = (s, x) := by
  induction arrivals with
  | nil => rfl
  | cons arrival arrivals ih =>
      rw [feedWith_cons, readWith_of_response handle h]
      exact ih

theorem readWith_headed {x : Exchange} (hx : x.response = none) {portion head : List UInt8}
    (h : Headed (x.request ++ portion) head) (s : σ) :
    (x.readWith handle (.bytes portion) s).2 =
      ((handle (lossy head) s).2,
        { request := x.request ++ portion, response := some (answered (handle (lossy head) s).1) }) := by
  simp [readWith, hx, (head?_eq_some_iff _ head).2 h, respond, answered]

theorem readWith_open {x : Exchange} (hx : x.response = none) {portion : List UInt8}
    (h : ¬headEnd <:+: x.request ++ portion) (s : σ) :
    (x.readWith handle (.bytes portion) s).2 =
      (s, { request := x.request ++ portion,
            response := if longest < (x.request ++ portion).length then some (answered false)
              else none }) := by
  simp only [readWith, hx, (head?_eq_none_iff _).2 h]
  by_cases hlong : longest < (x.request ++ portion).length
  · rw [if_pos hlong, if_pos hlong]
    rfl
  · rw [if_neg hlong, if_neg hlong]
    rfl

/-- The portion that completes the head has it handled, and none before it or behind it. -/
theorem feedWith_headed {head : List UInt8} (hl : (head ++ headEnd).length ≤ longest)
    (later : List Arrival) (s : σ) {x : Exchange} (hx : x.response = none)
    {portions : List (List UInt8)} (hopen : x.request.length < (head ++ headEnd).length)
    (h : Headed (x.request ++ portions.flatten) head) :
    (feedWith handle (portions.map .bytes ++ later) s x).1 = (handle (lossy head) s).2 ∧
      (feedWith handle (portions.map .bytes ++ later) s x).2.response =
        some (answered (handle (lossy head) s).1) := by
  induction portions generalizing x with
  | nil =>
      have hle := h.ended.length_le
      simp only [List.flatten_nil, List.append_nil] at hle
      omega
  | cons portion portions ih =>
      rw [List.flatten_cons, ← List.append_assoc] at h
      rw [List.map_cons, List.cons_append, feedWith_cons]
      by_cases hc : (head ++ headEnd).length ≤ (x.request ++ portion).length
      · have hr := readWith_headed handle hx (h.left hc) s
        rw [hr, feedWith_of_response handle rfl]
        exact ⟨rfl, rfl⟩
      · have hlt := Nat.lt_of_not_le hc
        have hshort : ¬longest < (x.request ++ portion).length := by omega
        have hr := readWith_open handle hx (h.open_left hlt) s
        rw [if_neg hshort] at hr
        rw [hr]
        exact ih rfl hlt h

theorem feedWith_open (s : σ) {x : Exchange} (hx : x.response = none)
    {portions : List (List UInt8)} (hshort : x.request.length ≤ longest)
    (h : ¬headEnd <:+: x.request ++ portions.flatten) :
    (feedWith handle (portions.map .bytes) s x).1 = s ∧
      (feedWith handle (portions.map .bytes) s x).2.response =
        if longest < (x.request ++ portions.flatten).length then some (answered false) else none := by
  induction portions generalizing x with
  | nil => simp [feedWith, hx, Nat.not_lt.2 hshort]
  | cons portion portions ih =>
      rw [List.flatten_cons, ← List.append_assoc] at h ⊢
      have hp : ¬headEnd <:+: x.request ++ portion :=
        fun hi => h (hi.trans (List.prefix_append _ _).isInfix)
      have hr := readWith_open handle hx hp s
      rw [List.map_cons, feedWith_cons, hr]
      by_cases hlong : longest < (x.request ++ portion).length
      · have hall : longest < ((x.request ++ portion) ++ portions.flatten).length := by
          rw [List.length_append]
          omega
        rw [if_pos hlong, if_pos hall, feedWith_of_response handle rfl]
        exact ⟨rfl, rfl⟩
      · rw [if_neg hlong]
        exact ih rfl (Nat.le_of_not_lt hlong) h

end Handling

def atConsole (head : String) (desk : Desk) : Bool × Desk :=
  ((Request.handle head desk).1.isOk, (Request.handle head desk).2)

theorem read_eq_readWith (arrival : Arrival) (desk : Desk) (x : Exchange) :
    x.read arrival desk = x.readWith atConsole arrival desk := rfl

def feed (arrivals : List Arrival) (desk : Desk) (x : Exchange) : Desk × Exchange :=
  arrivals.foldl (fun (desk, x) arrival => (x.read arrival desk).2) (desk, x)

theorem feed_eq_feedWith (arrivals : List Arrival) (desk : Desk) (x : Exchange) :
    feed arrivals desk x = feedWith atConsole arrivals desk x := by
  simp only [feed, feedWith, read_eq_readWith]

/-- The heads that reads hand on to the console, in turn. -/
def handed (arrivals : List Arrival) (desk : Desk) (x : Exchange) : List String :=
  (feedWith (noting atConsole) arrivals (desk, []) x).1.2

/-- A request whose head is short enough is handled once, with what stands before its first blank
line, and is answered by how that went, however it is cut and whatever comes later. One without a
blank line is never handled; it is refused when it is too long. -/
theorem feed_handles_once (desk : Desk) :
    (∀ (portions : List (List UInt8)) head later, Headed portions.flatten head →
      (head ++ headEnd).length ≤ longest →
      handed (portions.map .bytes ++ later) desk {} = [lossy head] ∧
      (feed (portions.map .bytes ++ later) desk {}).1 = (Request.handle (lossy head) desk).2 ∧
      (feed (portions.map .bytes ++ later) desk {}).2.response =
        some (answered (Request.handle (lossy head) desk).1.isOk)) ∧
    ∀ portions : List (List UInt8), ¬headEnd <:+: portions.flatten →
      handed (portions.map .bytes) desk {} = [] ∧
      (feed (portions.map .bytes) desk {}).1 = desk ∧
      (feed (portions.map .bytes) desk {}).2.response =
        if longest < portions.flatten.length then some (answered false) else none := by
  simp only [feed_eq_feedWith]
  constructor
  · intro portions head later h hl
    have hopen : (({} : Exchange).request).length < (head ++ headEnd).length := by simp [headEnd]
    have hn := (feedWith_headed (noting atConsole) hl later (desk, []) rfl hopen h).1
    exact ⟨congrArg Prod.snd hn, feedWith_headed atConsole hl later desk rfl hopen h⟩
  · intro portions h
    have hshort : (({} : Exchange).request).length ≤ longest := Nat.zero_le _
    have hn := (feedWith_open (noting atConsole) (desk, []) rfl hshort h).1
    exact ⟨congrArg Prod.snd hn, feedWith_open atConsole desk rfl hshort h⟩

theorem feed_handles_once_cut :
    let portions := ["GET /?src=test%3Aa&frames=3\r", "\n", "\r\nbye\r", "\n\r\n"].map encode
    let later := [.bytes (encode "GET"), .ended]
    let long := [List.replicate 8000 97, List.replicate 200 97]
    handed (portions.map .bytes ++ later) ⟨{}, {}⟩ {} = ["GET /?src=test%3Aa&frames=3"] ∧
      (feed (portions.map .bytes ++ later) ⟨{}, {}⟩ {}).2.response = some ⟨encode accepted⟩ ∧
      (feed (long.map .bytes) ⟨{}, {}⟩ {}).2.response = some ⟨encode refused⟩ := by
  intro portions later long
  have hh : Headed portions.flatten (encode "GET /?src=test%3Aa&frames=3") :=
    (head?_eq_some_iff _ _).1 (by decide +kernel)
  have hl : (encode "GET /?src=test%3Aa&frames=3" ++ headEnd).length ≤ longest := by
    decide +kernel
  have hs : lossy (encode "GET /?src=test%3Aa&frames=3") = "GET /?src=test%3Aa&frames=3" := by
    decide +kernel
  have hok : (Request.handle "GET /?src=test%3Aa&frames=3" ⟨{}, {}⟩).1.isOk = true := by
    decide +kernel
  have hopen : ¬headEnd <:+: long.flatten := by
    intro hi
    have hm : (13 : UInt8) ∈ long.flatten := hi.subset (by simp [headEnd])
    revert hm
    decide +kernel
  have hlong : longest < long.flatten.length := by decide +kernel
  have h := (feed_handles_once ⟨{}, {}⟩).1 portions _ later hh hl
  have hrefused := ((feed_handles_once ⟨{}, {}⟩).2 long hopen).2.2
  rw [hs, hok] at h
  rw [if_pos hlong] at hrefused
  exact ⟨h.1, h.2.2, hrefused⟩

end Playout.Wire.Exchange
