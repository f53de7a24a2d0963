import Playout.Proofs.Wire.Dialogue
import Playout.Terminal.Remote
import Playout.Terminal.Shell

namespace Playout.Terminal

open Wire Text

/-- The lines up to the first that raises the signal to leave, and with it. -/
def attended : List String → Desk → List String
  | [], _ => []
  | line :: lines, desk =>
    line :: if (answer line desk).1.leaves then [] else attended lines (answer line desk).2

def deskAfter (lines : List String) (desk : Desk) : Desk :=
  lines.foldl (fun desk line => (answer line desk).2) desk

namespace Shell

section Local

variable {σ : Type} (network : Network σ)

theorem startServer_keeps (port : Nat) (s : Shell) :
    (s.startServer network port).2.desk = s.desk ∧ (s.startServer network port).2.done = s.done := by
  unfold startServer
  split
  · exact ⟨rfl, rfl⟩
  · split <;> exact ⟨rfl, rfl⟩

theorem heed_keeps (signal : Signal) (s : Shell) :
    (s.heed network signal).2.desk = s.desk ∧
      (s.heed network signal).2.done = (s.done || signal == .exit) := by
  cases signal with
  | exit => simp [heed]
  | startServer port =>
      obtain ⟨hdesk, hdone⟩ := startServer_keeps network port s
      cases hs : s.startServer network port with
      | mk r started =>
          rw [hs] at hdesk hdone
          have hne : (Signal.startServer port == Signal.exit) = false := rfl
          rw [hne, Bool.or_false]
          cases r <;> simpa only [heed, hs] using ⟨hdesk, hdone⟩

theorem heedAll_keeps (signals : List Signal) (s : Shell) :
    (s.heedAll network signals).2.desk = s.desk ∧
      (s.heedAll network signals).2.done = (s.done || signals.contains .exit) := by
  induction signals generalizing s with
  | nil => simp [heedAll]
  | cons signal signals ih =>
      obtain ⟨hdesk, hdone⟩ := heed_keeps network signal s
      obtain ⟨ihdesk, ihdone⟩ := ih (s.heed network signal).2
      refine ⟨ihdesk.trans hdesk, ihdone.trans ?_⟩
      rw [hdone, Bool.or_assoc, List.contains_cons, BEq.comm]

/-- The shell answers a line as a connection does, and is done when the line raised the signal. -/
theorem runLine_answer (line : String) (s : Shell) :
    (s.runLine network line).2.desk = (answer line s.desk).2 ∧
      (s.runLine network line).2.done = (s.done || (answer line s.desk).1.leaves) := by
  rw [runLine, perform, answer]
  generalize (Console.define line).run s.desk = ran
  exact heedAll_keeps network _ _

/-- The shell runs the lines up to the first that raises the signal, and with it; it is done exactly
if there is one. -/
theorem interactFrom_attended (prompt printed : String) {input : List UInt8} {lines : List String}
    (ht : Typed input lines) {s : Shell} (hs : s.done = false) :
    let out := s.interactFrom network prompt printed input
    out.2.1 = .ok () ∧ out.2.2.desk = deskAfter (attended lines s.desk) s.desk ∧
      (out.2.2.done = true ↔ ∃ r ∈ answers (attended lines s.desk) s.desk, r.leaves = true) := by
  induction lines generalizing input printed s with
  | nil =>
      cases ht
      rw [interactFrom, if_neg (by simp [hs])]
      simp [takeLine?, attended, deskAfter, answers, hs]
  | cons line lines ih =>
      obtain ⟨bytes, more, htake, hline, -, hmore⟩ := ht.read
      obtain ⟨hdesk, hdone⟩ := runLine_answer network line s
      rw [hs, Bool.false_or] at hdone
      have hstep : s.interactFrom network prompt printed input =
          (s.runLine network line).2.interactFrom network prompt
            (printed ++ prompt ++ (s.runLine network line).1) more := by
        rw [interactFrom, if_neg (by simp [hs])]
        split <;> simp_all
      rw [hstep]
      cases hl : (answer line s.desk).1.leaves with
      | true =>
          rw [hl] at hdone
          rw [interactFrom, if_pos hdone]
          simp [attended, hl, deskAfter, answers, hdesk, hdone]
      | false =>
          rw [hl] at hdone
          have ih := ih (printed ++ prompt ++ (s.runLine network line).1) hmore hdone
          simpa [attended, hl, deskAfter, answers, hdesk] using ih

end Local

end Shell

/-- A peer that keeps what it was sent. -/
def recording {σ : Type} (peer : Peer σ) : Peer (σ × List (List UInt8)) where
  take bytes := fun (s, sent) => ((peer.take bytes s).1, (peer.take bytes s).2, sent ++ [bytes])

namespace Remote

def Farewell (line : String) : Prop := trim line.toList = Console.Word.exit.name.toList

instance (line : String) : Decidable (Farewell line) := inferInstanceAs (Decidable (_ = _))

def commandsOf (lines : List String) : List String := lines.filter fun line => trim line.toList ≠ []

/-- What is sent in the end, and whether that is an end without a failure: one who says no farewell
when the server lets go finds nobody there with the next command. -/
def dealings : List String → Desk → List String × Bool
  | [], _ => ([], true)
  | command :: commands, desk =>
    if Farewell command then ([command], true)
    else if (answer command desk).1.leaves then
      (command :: commands.head?.toList, commands.isEmpty)
    else
      (command :: (dealings commands (answer command desk).2).1,
        (dealings commands (answer command desk).2).2)

theorem dealings_eq_iff (commands : List String) (desk : Desk) :
    dealings commands desk = (attended commands desk, true) ↔
      (∀ command ∈ (attended commands desk).dropLast, ¬Farewell command) ∧
        (attended commands desk ≠ commands →
          ∃ command, (attended commands desk).getLast? = some command ∧ Farewell command) := by
  induction commands generalizing desk with
  | nil => simp [dealings, attended]
  | cons command commands ih =>
      cases hl : (answer command desk).1.leaves with
      | true =>
          by_cases hf : Farewell command
          · simp [dealings, attended, hl, hf]
          · cases commands <;> simp [dealings, attended, hl, hf]
      | false =>
          rw [attended, hl]
          by_cases hf : Farewell command
          · cases commands with
            | nil => simp [dealings, attended, hf]
            | cons next commands => simp [dealings, attended, hf]
          · have ih := ih (answer command desk).2
            have hd : dealings (command :: commands) desk =
                (command :: (dealings commands (answer command desk).2).1,
                  (dealings commands (answer command desk).2).2) := by
              simp [dealings, hf, hl]
            have hpair (x : List String × Bool) (as : List String) :
                (command :: x.1, x.2) = (command :: as, true) ↔ x = (as, true) := by
              simp [Prod.ext_iff]
            rw [hd, if_neg (by simp), hpair, ih]
            cases commands with
            | nil => simp [attended]
            | cons next commands => simp [attended, hf]

section Step

variable {σ : Type} (peer : Peer σ) (prompt printed : String) {input bytes more : List UInt8}
  {line : String} (ht : takeLine? input = some (bytes, more)) (hl : lineText bytes = .ok line)
  (client : Client σ)

include ht hl

theorem interact_line :
    interact peer prompt printed input client =
      if trim line.toList = [] then interact peer prompt (printed ++ prompt) more client
      else
        match client.send peer line with
        | (.error cause, client) => (printed ++ prompt, .error (.fault cause), client)
        | (.ok lines, client) =>
          let printed := printed ++ prompt ++ String.join (lines.map (· ++ "\n"))
          if Farewell line then (printed, .ok (), client)
          else interact peer prompt printed more client := by
  rw [interact]
  split
  · simp_all
  · rename_i taken rest hsome
    obtain ⟨rfl, rfl⟩ := Prod.mk.inj (Option.some.inj (hsome.symm.trans ht))
    rw [hl]
    rfl

end Step

theorem send_recording {σ : Type} (peer : Peer σ) {command : String} (h : OneLine command)
    (state : σ) (sent : List (List UInt8)) (unread : List UInt8) :
    Client.send (recording peer) command ⟨(state, sent), unread⟩ =
      ((Client.send peer command ⟨state, unread⟩).1,
        ⟨((Client.send peer command ⟨state, unread⟩).2.peer, sent ++ [encodeLine command]),
          (Client.send peer command ⟨state, unread⟩).2.unread⟩) := by
  have hone : ¬('\r' ∈ command.toList ∨ '\n' ∈ command.toList) := not_or.2 h
  rw [Client.send, if_neg hone, Client.send, if_neg hone]
  rfl

theorem send_closing (chunk : Nat) {command : String} (h : OneLine command) (studio : Studio)
    (console : Console) :
    (Client.send (Connection.peer chunk) command
      ⟨(studio, { console, closing := true }), []⟩).1 = .error (.connection .closedByServer) := by
  have hone : ¬('\r' ∈ command.toList ∨ '\n' ∈ command.toList) := not_or.2 h
  have hf := Connection.feed_of_closing (c := { console, closing := true }) rfl
    (portions chunk (encodeLine command)) studio
  rw [Client.send, if_neg hone]
  simp only [Connection.peer, hf, Outbox.flushAll_sent, List.append_nil]
  rw [Client.readReply]
  rfl

section Dealings

variable (chunk : Nat) (prompt printed : String) {input : List UInt8} {lines : List String}
  (ht : Typed input lines) (sent : List (List UInt8))

include ht

theorem interact_closing (studio : Studio) (console : Console) :
    let out := interact (recording (Connection.peer chunk)) prompt printed input
      ⟨((studio, { console, closing := true }), sent), []⟩
    (out.2.1 = .ok () ↔ commandsOf lines = []) ∧
      out.2.2.peer.2 = sent ++ (commandsOf lines).head?.toList.map encodeLine := by
  induction lines generalizing input printed with
  | nil =>
      cases ht
      rw [interact]
      simp [takeLine?, commandsOf]
  | cons line lines ih =>
      obtain ⟨bytes, more, htake, hline, hone, hmore⟩ := ht.read
      rw [interact_line _ _ _ htake hline]
      by_cases hb : trim line.toList = []
      · rw [if_pos hb]
        simpa [commandsOf, hb] using ih (printed ++ prompt) hmore
      · have hs := send_recording (Connection.peer chunk) hone (studio, { console, closing := true })
          sent []
        rw [send_closing chunk hone] at hs
        rw [if_neg hb, hs]
        simp [commandsOf, hb]

/-- The remote shell deals with a connection by the wording of the lines. -/
theorem interact_dealings (hshort : ∀ line ∈ lines, (Text.Utf8.encode line).length ≤ 65535)
    {desk : Desk}
    (hlegible : ∀ r ∈ answers (attended (commandsOf lines) desk) desk, r.Legible) :
    let out := interact (recording (Connection.peer chunk)) prompt printed input
      ⟨((desk.studio, { console := desk.console }), sent), []⟩
    (out.2.1 = .ok () ↔ (dealings (commandsOf lines) desk).2 = true) ∧
      out.2.2.peer.2 = sent ++ (dealings (commandsOf lines) desk).1.map encodeLine := by
  induction lines generalizing input printed sent desk with
  | nil =>
      cases ht
      rw [interact]
      simp [takeLine?, commandsOf, dealings]
  | cons line lines ih =>
      obtain ⟨bytes, more, htake, hline, hone, hmore⟩ := ht.read
      obtain ⟨hlen, hshort⟩ := List.forall_mem_cons.1 hshort
      rw [interact_line _ _ _ htake hline]
      by_cases hb : trim line.toList = []
      · have hc : commandsOf (line :: lines) = commandsOf lines := by simp [commandsOf, hb]
        rw [hc] at hlegible ⊢
        rw [if_pos hb]
        exact ih (printed ++ prompt) hmore sent hshort hlegible
      · have hc : commandsOf (line :: lines) = line :: commandsOf lines := by
          simp [commandsOf, hb]
        rw [hc] at hlegible ⊢
        have hsend : Sendable line := ⟨by rintro rfl; exact hb rfl, hone.1, hone.2, hlen⟩
        rw [attended, answers] at hlegible
        obtain ⟨hl, hlegible⟩ := List.forall_mem_cons.1 hlegible
        have hs := send_recording (Connection.peer chunk) hone
          (desk.studio, { console := desk.console }) sent []
        rw [Client.send_answer chunk hsend desk, (Client.readReply_iff _).2 hl] at hs
        rw [if_neg hb, hs]
        dsimp only
        by_cases hf : Farewell line
        · simp [dealings, hf]
        · rw [if_neg hf]
          cases hleave : (answer line desk).1.leaves with
          | true =>
              have hclosing := interact_closing chunk prompt
                (printed ++ prompt ++ String.join ((answer line desk).1.heard.map (· ++ "\n"))) hmore
                (sent ++ [encodeLine line]) (answer line desk).2.studio (answer line desk).2.console
              simpa [dealings, hf, hleave] using hclosing
          | false =>
              rw [if_neg (by simp [hleave])] at hlegible
              have ih := ih
                (printed ++ prompt ++ String.join ((answer line desk).1.heard.map (· ++ "\n"))) hmore
                (sent ++ [encodeLine line]) hshort hlegible
              simpa [dealings, hf, hleave] using ih

end Dealings

theorem encodeLine_injective : Function.Injective encodeLine := by
  intro line other h
  have he : Text.Utf8.encode line = Text.Utf8.encode other := List.append_cancel_right h
  have hd := congrArg Text.Utf8.decode he
  rw [Text.Utf8.decode_encode, Text.Utf8.decode_encode] at hd
  exact Except.ok.inj hd

/-- The local shell runs the lines up to the first that raises the signal to leave, and is done
exactly if there is one. A remote shell whose server's replies can be read sends up to the first that
raises it there and ends well, exactly if no command before the last of these is worded for a
farewell, and the last is unless there is nothing behind it. -/
theorem leaves_alike_iff {σ : Type} (network : Network σ) (chunk : Nat) (prompt : String)
    {input : List UInt8} {lines : List String} (ht : Typed input lines)
    (hshort : ∀ line ∈ lines, (Text.Utf8.encode line).length ≤ 65535) :
    (∀ s : Shell, s.done = false →
      let out := s.interactFrom network prompt "" input
      out.2.1 = .ok () ∧ out.2.2.desk = deskAfter (attended lines s.desk) s.desk ∧
        (out.2.2.done = true ↔
          ∃ r ∈ answers (attended lines s.desk) s.desk, r.leaves = true)) ∧
    ∀ desk, (∀ r ∈ answers (attended (commandsOf lines) desk) desk, r.Legible) →
      let out := interact (recording (Connection.peer chunk)) prompt "" input
        ⟨((desk.studio, { console := desk.console }), []), []⟩
      let commands := attended (commandsOf lines) desk
      (out.2.1 = .ok () ∧ out.2.2.peer.2 = commands.map encodeLine ↔
        (∀ command ∈ commands.dropLast, ¬Farewell command) ∧
          (commands ≠ commandsOf lines →
            ∃ command, commands.getLast? = some command ∧ Farewell command)) := by
  refine ⟨fun s hs => Shell.interactFrom_attended network prompt "" ht hs, fun desk hlegible => ?_⟩
  obtain ⟨hok, hsent⟩ := interact_dealings chunk prompt "" ht [] hshort hlegible
  dsimp only
  rw [hok, hsent, List.nil_append, (List.map_injective_iff.2 encodeLine_injective).eq_iff,
    ← dealings_eq_iff, Prod.ext_iff, and_comm]

theorem leaves_alike_exit :
    let input := Text.Utf8.encode "1 .\n\nexit\n2 ."
    let out := interact (recording (Connection.peer 4)) "" "" input
      ⟨(({}, { console := {} }), []), []⟩
    out.2.1 = .ok () ∧ out.2.2.peer.2 = ["1 .", "exit"].map encodeLine := by
  intro input
  have hi : input = Text.Utf8.encode "1 ." ++ 10 :: (Text.Utf8.encode "" ++ 10 ::
      (Text.Utf8.encode "exit" ++ 10 :: Text.Utf8.encode "2 .")) := by decide +kernel
  have ht : Typed input ["1 .", "", "exit", "2 ."] := by
    rw [hi]
    exact .line ⟨by decide, by decide⟩ (.line ⟨by decide, by decide⟩
      (.line ⟨by decide, by decide⟩ (.unended ⟨by decide, by decide⟩ (by decide))))
  have hcommands : commandsOf ["1 .", "", "exit", "2 ."] = ["1 .", "exit", "2 ."] := by decide
  have hattended : attended ["1 .", "exit", "2 ."] ⟨{}, {}⟩ = ["1 .", "exit"] := by decide +kernel
  have hanswers : answers ["1 .", "exit"] ⟨{}, {}⟩ = [⟨["1"], .ok, false⟩, ⟨[], .ok, true⟩] := by
    decide +kernel
  have h := (leaves_alike_iff Network.isolated 4 "" ht (by decide +kernel)).2 ⟨{}, {}⟩
  simp only [hcommands, hattended, hanswers] at h
  refine (h ?_).2 ⟨by decide, fun _ => ⟨"exit", rfl, by decide⟩⟩
  simp only [List.forall_mem_cons, List.not_mem_nil, false_implies, implies_true, and_true]
  refine ⟨⟨?_, by decide, by decide⟩, ⟨by simp, by decide, by decide⟩⟩
  simp [Whole, Closing]

/-- The remote shell goes on where the signal was raised among other words, and leaves where the word
was taken for the name of a script. -/
theorem interact_exit_among_others :
    let there (input : String) :=
      let out := interact (recording (Connection.peer 1024)) "" "" (Text.Utf8.encode input)
        ⟨(({}, { console := {} }), []), []⟩
      (out.2.1, out.2.2.peer.2)
    let here := Shell.interactFrom Network.isolated "" "" (Text.Utf8.encode "1 exit\n2 .\n")
      { desk := ⟨{}, {}⟩ }
    attended ["1 exit", "2 ."] ⟨{}, {}⟩ = ["1 exit"] ∧
      here.2.1 = .ok () ∧ here.2.2.done = true ∧
      there "1 exit\n2 .\n" =
        (.error (.fault (.connection .closedByServer)), ["1 exit", "2 ."].map encodeLine) ∧
      attended ["include", "exit", "2 ."] ⟨{}, {}⟩ = ["include", "exit", "2 ."] ∧
      there "include\nexit\n2 .\n" = (.ok (), ["include", "exit"].map encodeLine) := by
  decide +kernel

end Remote

end Playout.Terminal
