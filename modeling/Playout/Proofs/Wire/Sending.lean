import Mathlib.Data.Stream.Init
import Playout.Wire.Outbox

namespace Playout.Wire

open Text.Utf8

def SendFault.offer : SendFault → Offer
  | nothingTaken => .takes 0
  | failed reason => .fails reason

namespace Outbox

variable {progress : Bool} {bytes : List UInt8} {answers : List Offer} {f : Flush}

@[simp]
theorem flushFrom_nil (progress : Bool) (answers : List Offer) :
    flushFrom progress [] answers = ⟨[], ⟨[]⟩, .ok progress⟩ := by
  simp [flushFrom]

theorem flushFrom_end (hb : bytes ≠ []) :
    flushFrom progress bytes [] = ⟨[], ⟨bytes⟩, .ok progress⟩ := by
  cases bytes with
  | nil => exact absurd rfl hb
  | cons b bs => rfl

theorem flushFrom_takes (hb : bytes ≠ []) {n : Nat} (hn : n ≠ 0) (answers : List Offer) :
    flushFrom progress bytes (.takes n :: answers) =
      { flushFrom true (bytes.drop n) answers with
        sent := bytes.take n ++ (flushFrom true (bytes.drop n) answers).sent } := by
  obtain ⟨m, rfl⟩ := Nat.exists_eq_succ_of_ne_zero hn
  cases bytes with
  | nil => exact absurd rfl hb
  | cons b bs => rfl

theorem flushFrom_interrupted (progress : Bool) (bytes : List UInt8) (answers : List Offer) :
    flushFrom progress bytes (.interrupted :: answers) = flushFrom progress bytes answers := by
  cases bytes <;> simp [flushFrom]

theorem flushFrom_wouldBlock (progress : Bool) (bytes : List UInt8) (answers : List Offer) :
    flushFrom progress bytes (.wouldBlock :: answers) = ⟨[], ⟨bytes⟩, .ok progress⟩ := by
  cases bytes <;> simp [flushFrom]

theorem flushFrom_fault (hb : bytes ≠ []) (fault : SendFault) (answers : List Offer) :
    flushFrom progress bytes (fault.offer :: answers) = ⟨[], ⟨bytes⟩, .error fault⟩ := by
  cases bytes with
  | nil => exact absurd rfl hb
  | cons b bs => cases fault <;> rfl

theorem flushFrom_sent_left (progress : Bool) (bytes : List UInt8) (answers : List Offer) :
    (flushFrom progress bytes answers).sent ++ (flushFrom progress bytes answers).left.bytes =
      bytes := by
  fun_induction flushFrom progress bytes answers with
  | case4 progress bytes n answers hb flush ih =>
      simp only [flush, List.append_assoc, ih, List.take_append_drop]
  | _ => simp_all

/-- A flush with the answers to all of its writes: it goes on while something is left and the
socket takes some of it or was interrupted. -/
inductive Writes : Bool → List UInt8 → List Offer → Flush → Prop where
  | emptied (progress : Bool) : Writes progress [] [] ⟨[], ⟨[]⟩, .ok progress⟩
  | blocked (progress : Bool) {bytes : List UInt8} (hb : bytes ≠ []) :
      Writes progress bytes [.wouldBlock] ⟨[], ⟨bytes⟩, .ok progress⟩
  | failed (progress : Bool) {bytes : List UInt8} (hb : bytes ≠ []) (fault : SendFault) :
      Writes progress bytes [fault.offer] ⟨[], ⟨bytes⟩, .error fault⟩
  | interrupted {progress : Bool} {bytes : List UInt8} {answers : List Offer} {f : Flush}
      (hb : bytes ≠ []) (h : Writes progress bytes answers f) :
      Writes progress bytes (.interrupted :: answers) f
  | taken (progress : Bool) {bytes : List UInt8} {n : Nat} {answers : List Offer} {f : Flush}
      (hb : bytes ≠ []) (hn : n ≠ 0) (h : Writes true (bytes.drop n) answers f) :
      Writes progress bytes (.takes n :: answers) { f with sent := bytes.take n ++ f.sent }

theorem Writes.flushFrom_eq (h : Writes progress bytes answers f) (more : List Offer) :
    flushFrom progress bytes (answers ++ more) = f := by
  induction h with
  | emptied progress => exact flushFrom_nil _ _
  | blocked progress hb => exact flushFrom_wouldBlock _ _ _
  | failed progress hb fault => exact flushFrom_fault hb fault _
  | interrupted hb h ih => rw [List.cons_append, flushFrom_interrupted, ih]
  | taken progress hb hn h ih => rw [List.cons_append, flushFrom_takes hb hn, ih]

/-- The flush is over with these answers: more of them would make no difference. -/
def Over (progress : Bool) (bytes : List UInt8) (answers : List Offer) : Prop :=
  ∀ more, flushFrom progress bytes (answers ++ more) = flushFrom progress bytes answers

theorem Over.append (h : Over progress bytes answers) (more : List Offer) :
    Over progress bytes (answers ++ more) := by
  intro rest
  rw [List.append_assoc, h, h]

theorem not_over_nil (hb : bytes ≠ []) : ¬Over progress bytes [] := by
  intro ho
  have hsent := congrArg Flush.sent (ho [.takes bytes.length])
  rw [List.nil_append, flushFrom_takes hb (by simpa using hb), flushFrom_end hb] at hsent
  simp [hb] at hsent

theorem Writes.over (h : Writes progress bytes answers f) : Over progress bytes answers := by
  intro more
  rw [h.flushFrom_eq]
  simpa using (h.flushFrom_eq []).symm

theorem Over.of_interrupted (h : Over progress bytes (.interrupted :: answers)) :
    Over progress bytes answers := by
  intro more
  simpa only [List.cons_append, flushFrom_interrupted] using h more

theorem Over.of_takes (hb : bytes ≠ []) {n : Nat} (hn : n ≠ 0)
    (h : Over progress bytes (.takes n :: answers)) : Over true (bytes.drop n) answers := by
  intro more
  have hm := h more
  simp only [List.cons_append, flushFrom_takes hb hn, Flush.mk.injEq,
    List.append_cancel_left_eq] at hm
  cases hf : flushFrom true (bytes.drop n) (answers ++ more)
  cases hg : flushFrom true (bytes.drop n) answers
  simpa only [hf, hg, Flush.mk.injEq] using hm

theorem Writes.not_over (h : Writes progress bytes answers f) {i : Nat} (hi : i < answers.length) :
    ¬Over progress bytes (answers.take i) := by
  induction h generalizing i with
  | emptied progress => cases hi
  | blocked progress hb | failed progress hb fault =>
      cases i with
      | zero => exact not_over_nil hb
      | succ i => simp at hi
  | interrupted hb h ih =>
      cases i with
      | zero => exact not_over_nil hb
      | succ i => exact fun ho => ih (Nat.lt_of_succ_lt_succ hi) ho.of_interrupted
  | taken progress hb hn h ih =>
      cases i with
      | zero => exact not_over_nil hb
      | succ i => exact fun ho => ih (Nat.lt_of_succ_lt_succ hi) (ho.of_takes hb hn)

theorem Writes.sent_left (h : Writes progress bytes answers f) : f.sent ++ f.left.bytes = bytes := by
  rw [← h.flushFrom_eq []]
  exact flushFrom_sent_left _ _ _

theorem Writes.of_ok (h : Writes progress bytes answers f) {moved : Bool}
    (hr : f.result = .ok moved) :
    (moved = true ↔ progress = true ∨ f.left.bytes.length < bytes.length) ∧
      (f.left.bytes = [] ∨ answers.getLast? = some .wouldBlock) := by
  induction h with
  | emptied progress | blocked progress hb =>
      cases hr
      simp
  | failed progress hb fault => cases hr
  | interrupted hb h ih =>
      obtain ⟨hm, hl⟩ := ih hr
      exact ⟨hm, hl.imp_right fun he => by rw [List.getLast?_cons, he]; rfl⟩
  | @taken progress bytes n answers f hb hn h ih =>
      obtain ⟨hm, hl⟩ := ih hr
      refine ⟨iff_of_true (hm.2 (.inl rfl)) (.inr ?_),
        hl.imp_right fun he => by rw [List.getLast?_cons, he]; rfl⟩
      have hlen := congrArg List.length h.sent_left
      have hpos := List.length_pos_iff.2 hb
      simp only [List.length_append, List.length_drop] at hlen
      show f.left.bytes.length < bytes.length
      omega

theorem Writes.of_error (h : Writes progress bytes answers f) {fault : SendFault}
    (hr : f.result = .error fault) :
    f.left.bytes ≠ [] ∧ answers.getLast? = some fault.offer := by
  induction h with
  | emptied progress | blocked progress hb => cases hr
  | failed progress hb fault =>
      cases hr
      exact ⟨hb, rfl⟩
  | interrupted hb h ih | taken progress hb hn h ih =>
      obtain ⟨hn, hl⟩ := ih hr
      exact ⟨hn, by rw [List.getLast?_cons, hl]; rfl⟩

def Recovers (socket : Stream' Offer) : Prop := ∀ i, ∃ j, i ≤ j ∧ socket.get j ≠ .interrupted

theorem Recovers.tail {socket : Stream' Offer} (h : Recovers socket) : Recovers socket.tail := by
  intro i
  obtain ⟨j, hij, hj⟩ := h (i + 1)
  obtain ⟨k, rfl⟩ := Nat.exists_eq_add_of_le' hij
  exact ⟨k + i, Nat.le_add_left _ _, hj⟩

/-- A flush makes only so many writes: each of them leaves less, or comes closer to an answer that is
no interruption, or is the last. -/
theorem exists_writes_of_get {socket : Stream' Offer} (hs : Recovers socket) {j : Nat}
    (hj : socket.get j ≠ .interrupted) (progress : Bool) (bytes : List UInt8) :
    ∃ n f, Writes progress bytes (socket.take n) f := by
  by_cases hb : bytes = []
  · subst hb
    exact ⟨0, _, .emptied progress⟩
  · have htake (n : Nat) : socket.take (n + 1) = socket.head :: socket.tail.take n := rfl
    cases hh : socket.head with
    | wouldBlock => exact ⟨1, _, by rw [htake, hh]; exact .blocked progress hb⟩
    | fails reason => exact ⟨1, _, by rw [htake, hh]; exact .failed progress hb (.failed reason)⟩
    | interrupted =>
        cases j with
        | zero => exact absurd hh hj
        | succ j =>
            obtain ⟨n, f, h⟩ := exists_writes_of_get hs.tail (j := j) hj progress bytes
            exact ⟨n + 1, f, by rw [htake, hh]; exact .interrupted hb h⟩
    | takes count =>
        by_cases hn : count = 0
        · subst hn
          exact ⟨1, _, by rw [htake, hh]; exact .failed progress hb .nothingTaken⟩
        · obtain ⟨i, -, hi⟩ := hs.tail 0
          have hpos := List.length_pos_iff.2 hb
          have hlt : (bytes.drop count).length < bytes.length := by
            rw [List.length_drop]
            omega
          obtain ⟨n, f, h⟩ := exists_writes_of_get hs.tail hi true (bytes.drop count)
          exact ⟨n + 1, _, by rw [htake, hh]; exact .taken progress hb hn h⟩
termination_by (bytes.length, j)

theorem over_take_iff {socket : Stream' Offer} {n : Nat}
    (h : Writes progress bytes (socket.take n) f) (i : Nat) :
    Over progress bytes (socket.take i) ↔ n ≤ i := by
  constructor
  · intro ho
    by_contra hi
    have hin : (socket.take n).take i = socket.take i := by
      rw [Stream'.take_take, Nat.min_eq_right (by omega)]
    rw [← hin] at ho
    exact h.not_over (by rw [Stream'.length_take]; omega) ho
  · intro hi
    have hin : (socket.take i).take n = socket.take n := by
      rw [Stream'.take_take, Nat.min_eq_right hi]
    rw [← List.take_append_drop n (socket.take i), hin]
    exact h.over.append _

end Outbox

/-- The outbox of a connection, and what its socket has taken so far. -/
structure Sending where
  box : Outbox := {}
  taken : List UInt8 := []

namespace Sending

/-- A flush stands with the answers to its writes up to some moment; where it is over, these are all
of them. -/
inductive Act where
  | queue (line : String)
  | queueAll (lines : List String)
  | flush (answers : List Offer)

def Act.queued : Act → List UInt8
  | queue line => encodeLine line
  | queueAll lines => lines.flatMap encodeLine
  | flush _ => []

def after (s : Sending) : Act → Sending
  | .queue line => { s with box := s.box.queue line }
  | .queueAll lines => { s with box := s.box.queueAll lines }
  | .flush answers => ⟨(s.box.flush answers).left, s.taken ++ (s.box.flush answers).sent⟩

def run (s : Sending) (acts : List Act) : Sending := acts.foldl after s

theorem after_bytes (s : Sending) (act : Act) :
    (s.after act).taken ++ (s.after act).box.bytes = s.taken ++ s.box.bytes ++ act.queued := by
  cases act with
  | queue line | queueAll lines => exact (List.append_assoc _ _ _).symm
  | flush answers =>
      have hf := Outbox.flushFrom_sent_left false s.box.bytes answers
      simp only [after, Act.queued, Outbox.flush, List.append_assoc, hf, List.append_nil]

theorem run_bytes (s : Sending) (acts : List Act) :
    (s.run acts).taken ++ (s.run acts).box.bytes =
      s.taken ++ s.box.bytes ++ acts.flatMap Act.queued := by
  induction acts generalizing s with
  | nil => simp [run]
  | cons act acts ih =>
      calc
        _ = (s.after act).taken ++ (s.after act).box.bytes ++ acts.flatMap Act.queued :=
          ih (s.after act)
        _ = _ := by rw [after_bytes, List.flatMap_cons, List.append_assoc]

/-- Whatever was queued and flushed, and however the socket answers to the next flush: what it has
taken, and then what is in the outbox, is what was queued, after each write and however the flush
ends. The flush makes only so many writes. Where it does not fail it says whether it has left less
than there was, and then nothing is left or the last write would have blocked. Where it fails
something is left, and the last write has failed. -/
theorem nothing_lost (acts : List Act) {socket : Stream' Offer} (hs : Outbox.Recovers socket) :
    let s := run {} acts
    let flush (i : Nat) : Flush := s.box.flush (socket.take i)
    s.taken ++ s.box.bytes = acts.flatMap Act.queued ∧
      (∀ i, s.taken ++ (flush i).sent ++ (flush i).left.bytes = acts.flatMap Act.queued) ∧
      ∃ n, (∀ i, Outbox.Over false s.box.bytes (socket.take i) ↔ n ≤ i) ∧
        (∀ moved, (flush n).result = .ok moved →
          (moved = true ↔ (flush n).left.bytes.length < s.box.bytes.length) ∧
            ((flush n).left.bytes = [] ∨ (socket.take n).getLast? = some .wouldBlock)) ∧
        ∀ fault, (flush n).result = .error fault →
          (flush n).left.bytes ≠ [] ∧ (socket.take n).getLast? = some fault.offer := by
  intro s flush
  have hrun : s.taken ++ s.box.bytes = acts.flatMap Act.queued := run_bytes {} acts
  have hflush (i : Nat) : (flush i).sent ++ (flush i).left.bytes = s.box.bytes :=
    Outbox.flushFrom_sent_left _ _ _
  refine ⟨hrun, fun i => by rw [List.append_assoc, hflush, hrun], ?_⟩
  obtain ⟨j, -, hj⟩ := hs 0
  obtain ⟨n, f, h⟩ := Outbox.exists_writes_of_get hs hj false s.box.bytes
  have hf : flush n = f := by
    have he := h.flushFrom_eq []
    rwa [List.append_nil] at he
  refine ⟨n, Outbox.over_take_iff h, ?_, ?_⟩
  · intro moved hr
    rw [hf] at hr ⊢
    simpa using h.of_ok hr
  · intro fault hr
    rw [hf] at hr ⊢
    exact h.of_error hr

/-- A flush that fails in the middle of a line, another line, and a socket that takes three bytes at
a time. -/
theorem nothing_lost_torn :
    let s := run {} [.queue "OK", .flush [.takes 1, .interrupted, .fails "reset"], .queue "bye"]
    let socket : Stream' Offer := Stream'.const (.takes 3)
    Outbox.Recovers socket ∧ s.taken = encode "O" ∧ s.box.bytes = encode "K\r\nbye\r\n" ∧
      ∀ i, s.taken ++ (s.box.flush (socket.take i)).sent ++
        (s.box.flush (socket.take i)).left.bytes = encode "OK\r\nbye\r\n" := by
  intro s socket
  have hs : Outbox.Recovers socket := fun i => ⟨i, Nat.le_refl i, nofun⟩
  have h := (nothing_lost
    [.queue "OK", .flush [.takes 1, .interrupted, .fails "reset"], .queue "bye"] hs).2.1
  exact ⟨hs, by decide +kernel, by decide +kernel, fun i => (h i).trans (by decide +kernel)⟩

end Sending

end Playout.Wire
