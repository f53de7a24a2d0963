import Mathlib.Data.List.DropRight
import Playout.Proofs.Text.Input
import Playout.Proofs.Wire.Chunking
import Playout.Proofs.Wire.Reply

namespace Playout.Wire

open Text.Utf8

/-- Read by itself, such a line is what it was. -/
def Whole (line : String) : Prop := '\n' ∉ line.toList ∧ line.toList.getLast? ≠ some '\r'

/-- A client takes such a line for the end of a reply. -/
def Closing (line : String) : Prop := line = "OK" ∨ line.startsWith "ERROR:" = true

def Verdict.told : Verdict → List String
  | ok => []
  | failed reason => [(failed reason).line]

/-- What a client is to be told. -/
def Reply.heard (r : Reply) : List String := r.output ++ r.verdict.told

structure Reply.Legible (r : Reply) : Prop where
  output : ∀ line ∈ r.output, Whole line ∧ ¬Closing line
  verdict : Whole r.verdict.line

def answers : List String → Desk → List Reply
  | [], _ => []
  | line :: lines, desk => (answer line desk).1 :: answers lines (answer line desk).2

/-- A command that a client can send and a connection takes. -/
structure Sendable (command : String) : Prop where
  nonempty : command ≠ ""
  noReturn : '\r' ∉ command.toList
  noFeed : '\n' ∉ command.toList
  short : (encode command).length ≤ 65535

namespace Client

/-- Sends commands one after another. With the result of each goes what was left unread. -/
def session {σ : Type} (peer : Peer σ) :
    List String → Client σ → List (Except Fault (List String) × List UInt8)
  | [], _ => []
  | command :: commands, c =>
    ((c.send peer command).1, (c.send peer command).2.unread) ::
      session peer commands (c.send peer command).2

/-- What a client reads where a line begins. -/
def seen (line : String) : String :=
  String.ofList (Text.dropLineEnd (line.toList.takeWhile (· ≠ '\n')))

theorem takeWhile_of_not_mem {cs : List Char} (h : '\n' ∉ cs) :
    cs.takeWhile (· ≠ '\n') = cs := by
  rw [List.takeWhile_eq_self_iff]
  rintro c hc
  have hne : c ≠ '\n' := ne_of_mem_of_not_mem hc h
  simpa using hne

theorem seen_eq_iff (line : String) : seen line = line ↔ Whole line := by
  have hd : seen line = line ↔
      ((line.toList.takeWhile (· ≠ '\n')).rdropWhile fun c => c = '\r' || c = '\n') =
        line.toList := by
    rw [← String.toList_inj, seen, String.toList_ofList]
    rfl
  rw [hd, Whole]
  constructor
  · intro h
    have ht : line.toList.takeWhile (· ≠ '\n') = line.toList := by
      apply (List.takeWhile_prefix _).eq_of_length_le
      have hl := (List.rdropWhile_prefix (fun c => decide (c = '\r') || decide (c = '\n'))
        (l := line.toList.takeWhile (· ≠ '\n'))).length_le
      rwa [h] at hl
    refine ⟨fun hm => ?_, fun hr => ?_⟩
    · simpa using List.takeWhile_eq_self_iff.1 ht '\n' hm
    · rw [ht, List.rdropWhile_eq_self_iff] at h
      have hne : line.toList ≠ [] := by
        intro he
        simp [he] at hr
      rw [List.getLast?_eq_some_getLast hne, Option.some.injEq] at hr
      exact h hne (by simp [hr])
  · rintro ⟨hn, hr⟩
    rw [takeWhile_of_not_mem hn, List.rdropWhile_eq_self_iff]
    intro hne hlast
    obtain hc | hc : line.toList.getLast hne = '\r' ∨ line.toList.getLast hne = '\n' := by
      simpa using hlast
    · exact hr (by rw [List.getLast?_eq_some_getLast hne, hc])
    · exact hn (hc ▸ List.getLast_mem hne)

theorem takeLine?_encodeLine (line : String) (more : List UInt8) :
    ∃ text rest, Text.takeLine? (encodeLine line ++ more) = some (encode text, rest) ∧
      String.ofList (Text.dropLineEnd text.toList) = seen line ∧
      ('\n' ∉ line.toList → rest = more) := by
  by_cases hn : '\n' ∈ line.toList
  · obtain ⟨front, back, hl, hf⟩ := List.eq_append_cons_of_mem hn
    have hb : encodeLine line ++ more =
        encode (String.ofList front) ++ 10 :: (encode (String.ofList back) ++ lineEnd ++ more) := by
      simp [encodeLine, encode_eq, hl, encodeChar_ascii (show '\n'.toNat < 128 by decide)]
    have ht : line.toList.takeWhile (· ≠ '\n') = front := by
      rw [hl, List.takeWhile_append, takeWhile_of_not_mem hf]
      simp
    rw [hb, Text.takeLine?_encode (by simpa using hf)]
    refine ⟨_, _, rfl, ?_, fun h => absurd hn h⟩
    rw [seen, ht, String.toList_append, String.toList_ofList]
    exact congrArg String.ofList (Text.dropLineEnd_feed front)
  · have hb : encodeLine line ++ more = encode (line ++ "\r") ++ 10 :: more := by
      simp [encodeLine, encode_append, encode_return, lineEnd]
    rw [hb, Text.takeLine?_encode (by simpa using hn)]
    refine ⟨_, _, rfl, ?_, fun _ => rfl⟩
    rw [seen, takeWhile_of_not_mem hn, String.toList_append, String.toList_append]
    exact congrArg String.ofList ((Text.dropLineEnd_feed _).trans (Text.dropLineEnd_return _))

theorem readReply_line (done : List String) (line : String) (more : List UInt8) :
    ∃ rest, readReply done (encodeLine line ++ more) =
        (if seen line = "OK" then (.ok done.reverse, rest)
        else if (seen line).startsWith "ERROR:" then (.ok (done.reverse ++ [seen line]), rest)
        else readReply (seen line :: done) rest) ∧
      ('\n' ∉ line.toList → rest = more) := by
  obtain ⟨text, rest, ht, hs, hr⟩ := takeLine?_encodeLine line more
  refine ⟨rest, ?_, hr⟩
  have hl := Text.lineText_encode text
  rw [hs] at hl
  rw [readReply]
  split
  · rename_i hnone
    rw [ht] at hnone
    cases hnone
  · rename_i bytes left hsome
    rw [ht, Option.some.injEq, Prod.mk.injEq] at hsome
    obtain ⟨rfl, rfl⟩ := hsome
    simp only [hl, Verdict.line, List.reverse_cons]

theorem prefix_of_readReply {done out : List String} {unread rest : List UInt8}
    (h : readReply done unread = (.ok out, rest)) : done.reverse <+: out := by
  fun_induction readReply done unread with
  | case1 => simp at h
  | case2 => simp at h
  | case3 done unread line rest' _ _ => 
      obtain ⟨hout, -⟩ := Prod.mk.inj h
      rw [Except.ok.inj hout]
  | case4 done unread line rest' _ _ text => 
      obtain ⟨hout, -⟩ := Prod.mk.inj h
      rw [← Except.ok.inj hout, List.reverse_cons]
      exact List.prefix_append _ _
  | case5 done unread line rest' _ _ text _ _ _ ih => 
      have hp := ih h
      rw [List.reverse_cons] at hp
      exact (List.prefix_append _ _).trans hp

/-- A line that shows in the answer was read as it is. -/
theorem whole_of_readReply {done out : List String} {line : String} {more rest : List UInt8}
    (h : readReply done (encodeLine line ++ more) = (.ok out, rest))
    (hp : done.reverse ++ [line] <+: out) : Whole line := by
  obtain ⟨rest', hr, -⟩ := readReply_line done line more
  rw [hr] at h
  have hs : done.reverse ++ [seen line] <+: out := by
    split at h
    · obtain ⟨hout, -⟩ := Prod.mk.inj h
      have hlen := hp.length_le
      rw [← Except.ok.inj hout] at hlen
      simp only [List.length_append, List.length_reverse, List.length_singleton] at hlen
      omega
    · split at h
      · obtain ⟨hout, -⟩ := Prod.mk.inj h
        rw [Except.ok.inj hout]
      · simpa using prefix_of_readReply h
  have he := List.prefix_of_prefix_length_le hs hp (by simp)
  have hl := he.eq_of_length (by simp)
  rw [← seen_eq_iff]
  simpa using hl

theorem readReply_whole {line : String} (h : Whole line) (done : List String) (more : List UInt8) :
    readReply done (encodeLine line ++ more) =
      if line = "OK" then (.ok done.reverse, more)
      else if line.startsWith "ERROR:" then (.ok (done.reverse ++ [line]), more)
      else readReply (line :: done) more := by
  obtain ⟨rest, hr, hm⟩ := readReply_line done line more
  rw [hr, (seen_eq_iff line).2 h, hm h.1]

theorem startsWith_failed (reason : String) :
    (Verdict.failed reason).line.startsWith "ERROR:" = true := by
  rw [String.startsWith_string_iff]
  exact ⟨' ' :: reason.toList, by simp [Verdict.line, errorMark]⟩

theorem readReply_verdict (done : List String) (v : Verdict) :
    readReply done (encodeLine v.line) = (.ok (done.reverse ++ v.told), []) ↔ Whole v.line := by
  rw [← List.append_nil (encodeLine v.line)]
  constructor
  · intro h
    cases v with
    | ok => exact ⟨by decide, by decide⟩
    | failed reason => exact whole_of_readReply h List.prefix_rfl
  · intro h
    rw [readReply_whole h]
    cases v with
    | ok => simp [Verdict.line, Verdict.told]
    | failed reason =>
        have hne : (Verdict.failed reason).line ≠ "OK" := by
          intro he
          have hs := startsWith_failed reason
          rw [he] at hs
          exact absurd hs (by decide)
        rw [if_neg hne, if_pos (startsWith_failed reason)]
        rfl

theorem readReply_lines (output done : List String) (v : Verdict) :
    readReply done ((output ++ [v.line]).flatMap encodeLine) =
        (.ok (done.reverse ++ (output ++ v.told)), []) ↔
      (∀ line ∈ output, Whole line ∧ ¬Closing line) ∧ Whole v.line := by
  induction output generalizing done with
  | nil => simpa using readReply_verdict done v
  | cons line output ih =>
      have hout : done.reverse ++ (line :: output ++ v.told) =
          (line :: done).reverse ++ (output ++ v.told) := by simp
      rw [List.cons_append, List.flatMap_cons, hout]
      constructor
      · intro h
        have hw := whole_of_readReply h (by simp)
        -- Had the line ended the reply, the verdict at least would be unread.
        have hmore : (output ++ [v.line]).flatMap encodeLine ≠ [] := by
          simp [encodeLine, lineEnd]
        rw [readReply_whole hw] at h
        split at h
        · exact absurd (Prod.mk.inj h).2 hmore
        · split at h
          · exact absurd (Prod.mk.inj h).2 hmore
          · rename_i hok herr
            obtain ⟨ho, hv⟩ := (ih (line :: done)).1 h
            have hc : ¬Closing line := not_or.2 ⟨hok, herr⟩
            exact ⟨List.forall_mem_cons.2 ⟨⟨hw, hc⟩, ho⟩, hv⟩
      · rintro ⟨ho, hv⟩
        obtain ⟨⟨hw, hc⟩, ho⟩ := List.forall_mem_cons.1 ho
        obtain ⟨hok, herr⟩ := not_or.1 hc
        rw [readReply_whole hw, if_neg hok, if_neg herr, ih]
        exact ⟨ho, hv⟩

theorem readReply_iff (r : Reply) : readReply [] r.bytes = (.ok r.heard, []) ↔ r.Legible := by
  rw [Reply.bytes, Reply.lines, Reply.heard]
  have h := readReply_lines r.output [] r.verdict
  rw [List.reverse_nil, List.nil_append] at h
  rw [h]
  exact ⟨fun h => ⟨h.1, h.2⟩, fun h => ⟨h.output, h.verdict⟩⟩

end Client

theorem portions_flatten (size : Nat) (bytes : List UInt8) : (portions size bytes).flatten = bytes := by
  fun_induction portions size bytes with
  | case1 => rfl
  | case2 bytes h ih => rw [List.flatten_cons, ih, List.take_append_drop]

namespace Connection

/-- With nothing in the buffer, a line that comes in is answered, however it is cut. -/
theorem feed_line {c : Connection} (hc : c.closing = false) (hb : c.buffer = [])
    {line : List UInt8} (hne : line ≠ []) (hl : Clean line) (hlen : line.length ≤ 65535)
    (chunk : Nat) (studio : Studio) :
    c.feed (portions chunk (line ++ lineEnd)) studio = takeLine line studio c := by
  have he : extract (line ++ lineEnd) = ([line], []) := by
    rw [← List.append_nil (line ++ lineEnd), extract_line hl]
    rfl
  have hw : Within 65535 (line ++ lineEnd) := (within_iff _ _).2 (by simpa [he] using hlen)
  have hsome : portions chunk (line ++ lineEnd) ≠ [] := by
    intro hnil
    have hflat := portions_flatten chunk (line ++ lineEnd)
    rw [hnil] at hflat
    simp [lineEnd] at hflat
  have hone : c.feed (portions chunk (line ++ lineEnd)) studio =
      c.feed [line ++ lineEnd] studio := by
    have hflat := feed_flatten (c := c) hsome (by simpa [hb, portions_flatten] using hw) studio
    rwa [portions_flatten] at hflat
  have hbuf : (takeLine line studio c).2.buffer = [] := by simp [takeLine, hb]
  have hh : (takeLine line studio c).2.holding [] = (takeLine line studio c).2 := by
    simp [holding, ← hbuf]
  rw [hone, feed_one hc, hb, List.nil_append, he]
  simp only [takeLines, hc, hne, if_false, Bool.false_eq_true]
  rw [hh, refuseOverlong_of_le (by simp [hbuf])]

end Connection

theorem Outbox.flushAll_sent (box : Outbox) : box.flushAll.sent = box.bytes := by
  obtain ⟨bytes⟩ := box
  cases bytes <;> simp [flushAll, flush, flushFrom]

theorem Outbox.flushAll_left (box : Outbox) : box.flushAll.left = {} := by
  obtain ⟨bytes⟩ := box
  cases bytes <;> simp [flushAll, flush, flushFrom]

theorem Connection.take_peer (chunk : Nat) (bytes : List UInt8) (studio : Studio) (c : Connection) :
    (Connection.peer chunk).take bytes (studio, c) =
      ((c.feed (portions chunk bytes) studio).2.outbox.bytes,
        (c.feed (portions chunk bytes) studio).1,
        { (c.feed (portions chunk bytes) studio).2 with outbox := {} }) := by
  rw [Connection.peer]
  simp only [Outbox.flushAll_sent, Outbox.flushAll_left]

/-- A command gets its reply from the connection, which closes with the client's leave. -/
theorem Connection.take_answer (chunk : Nat) {command : String} (hs : Sendable command)
    (desk : Desk) :
    (Connection.peer chunk).take (encodeLine command) (desk.studio, { console := desk.console }) =
      ((answer command desk).1.bytes, (answer command desk).2.studio,
        { console := (answer command desk).2.console
          closing := (answer command desk).1.leaves }) := by
  have hl : Clean (encode command) := clean_encode_of_not_mem hs.noFeed
  have hne : encode command ≠ [] := fun he => hs.nonempty ((encode_eq_nil_iff command).1 he)
  have hf := Connection.feed_line (c := { console := desk.console }) rfl rfl hne hl hs.short chunk
    desk.studio
  rw [Connection.take_peer, encodeLine, hf]
  simp only [Connection.takeLine, lossy_encode, ite_self]
  generalize answer command desk = told
  rfl

namespace Client

theorem send_answer (chunk : Nat) {command : String} (hs : Sendable command) (desk : Desk) :
    send (Connection.peer chunk) command ⟨(desk.studio, { console := desk.console }), []⟩ =
      ((readReply [] (answer command desk).1.bytes).1,
        ⟨((answer command desk).2.studio,
          { console := (answer command desk).2.console
            closing := (answer command desk).1.leaves }),
          (readReply [] (answer command desk).1.bytes).2⟩) := by
  have hone : ¬('\r' ∈ command.toList ∨ '\n' ∈ command.toList) := by
    simp [hs.noReturn, hs.noFeed]
  rw [send, if_neg hone]
  simp only [Connection.take_answer chunk hs desk, List.nil_append]

/-- Both are as new after it, unless the client has left. -/
theorem send_command (chunk : Nat) {command : String} (hs : Sendable command) {desk : Desk}
    (hstay : (answer command desk).1.leaves = false) :
    send (Connection.peer chunk) command ⟨(desk.studio, { console := desk.console }), []⟩ =
      ((readReply [] (answer command desk).1.bytes).1,
        ⟨((answer command desk).2.studio, { console := (answer command desk).2.console }),
          (readReply [] (answer command desk).1.bytes).2⟩) := by
  rw [send_answer chunk hs desk, hstay]

/-- Client and connection keep in step for as long as the replies can be read, and no longer. -/
theorem session_inStep_iff (chunk : Nat) {commands : List String} {desk : Desk}
    (hs : ∀ command ∈ commands, Sendable command)
    (hstay : ∀ r ∈ answers commands desk, r.leaves = false) :
    session (Connection.peer chunk) commands ⟨(desk.studio, { console := desk.console }), []⟩ =
        (answers commands desk).map (fun r => (.ok r.heard, [])) ↔
      ∀ r ∈ answers commands desk, r.Legible := by
  induction commands generalizing desk with
  | nil => simp [session, answers]
  | cons command commands ih =>
      obtain ⟨hs, hs'⟩ := List.forall_mem_cons.1 hs
      rw [answers] at hstay ⊢
      obtain ⟨hstay, hstay'⟩ := List.forall_mem_cons.1 hstay
      have hr := readReply_iff (answer command desk).1
      have ih := ih hs' hstay'
      rw [session, send_command chunk hs hstay, List.map_cons, List.forall_mem_cons, List.cons.injEq]
      dsimp only
      constructor
      · rintro ⟨hhead, htail⟩
        change readReply [] (answer command desk).1.bytes = _ at hhead
        rw [hhead] at htail
        exact ⟨hr.1 hhead, ih.1 htail⟩
      · rintro ⟨hhead, htail⟩
        rw [hr.2 hhead]
        exact ⟨rfl, ih.2 htail⟩

theorem session_inStep_iff_drop :
    session (Connection.peer 4) ["hello .", "drop"] ⟨({}, { console := {} }), []⟩ =
      [(.ok ["hello"], []), (.ok ["ERROR: stack underflow (drop)"], [])] := by
  have ha : answers ["hello .", "drop"] ⟨{}, {}⟩ =
      [⟨["hello"], .ok, false⟩, ⟨[], .failed "stack underflow (drop)", false⟩] := by
    decide +kernel
  have hs : ∀ command ∈ ["hello .", "drop"], Sendable command := by
    simp only [List.forall_mem_cons, List.not_mem_nil, false_implies, implies_true, and_true]
    exact ⟨⟨by decide, by decide, by decide, by decide +kernel⟩,
      ⟨by decide, by decide, by decide, by decide +kernel⟩⟩
  have hlegible : ∀ r ∈ answers ["hello .", "drop"] ⟨{}, {}⟩, r.Legible := by
    rw [ha]
    simp only [List.forall_mem_cons, List.not_mem_nil, false_implies, implies_true, and_true]
    refine ⟨⟨?_, by decide, by decide⟩, ⟨by simp, by decide, by decide⟩⟩
    simp [Whole, Closing]
  have h := (@session_inStep_iff 4 _ ⟨{}, {}⟩ hs (by simp [ha])).2 hlegible
  rw [ha] at h
  exact h

theorem session_after_ok :
    (answers ["OK .", "hello ."] ⟨{}, {}⟩).map Reply.heard = [["OK"], ["hello"]] ∧
    session (Connection.peer 4) ["OK .", "hello ."] ⟨({}, { console := {} }), []⟩ =
      [(.ok [], Text.Utf8.encode "OK\r\n"), (.ok [], Text.Utf8.encode "hello\r\nOK\r\n")] := by
  decide +kernel

end Client

end Playout.Wire
