import Mathlib.Data.List.Perm.Basic
import Playout.Proofs.Wire.Dialogue
import Playout.Proofs.Wire.Overlong
import Playout.Proofs.Wire.Removal

namespace Playout.Wire

open Text.Utf8
open scoped List

namespace Connection

def replies : List Notice → Studio → Connection → List Reply
  | [], _, _ => []
  | .line bytes :: more, studio, c =>
    if c.closing then []
    else
      (answer (lossy bytes) ⟨studio, c.console⟩).1 ::
        replies more (takeLine bytes studio c).1 (takeLine bytes studio c).2
  | .overlong :: more, studio, c =>
    if c.closing then [] else ⟨[], .failed "line too long", false⟩ :: replies more studio c.refuse

theorem replies_of_closing {c : Connection} (h : c.closing = true) (ns : List Notice)
    (studio : Studio) : replies ns studio c = [] := by
  cases ns with
  | nil => rfl
  | cons n ns => cases n <;> simp [replies, h]

/-- What is answered is queued, and nothing else is. -/
theorem outbox_heed (ns : List Notice) (studio : Studio) (c : Connection) :
    (heed ns studio c).2.outbox.bytes =
      c.outbox.bytes ++ (replies ns studio c).flatMap Reply.bytes := by
  induction ns generalizing studio c with
  | nil => simp [heed, replies]
  | cons n ns ih =>
      by_cases hc : c.closing = true
      · rw [heed_of_closing hc, replies_of_closing hc, List.flatMap_nil, List.append_nil]
      · cases n with
        | line bytes =>
            have hq : (takeLine bytes studio c).2.outbox.bytes =
                c.outbox.bytes ++ (answer (lossy bytes) ⟨studio, c.console⟩).1.bytes := rfl
            rw [heed, if_neg hc, ih, hq, replies, if_neg hc, List.flatMap_cons, List.append_assoc]
        | overlong =>
            have hq : c.refuse.outbox.bytes =
                c.outbox.bytes ++ Reply.bytes ⟨[], .failed "line too long", false⟩ := by
              simp [refuse, Outbox.queue, Reply.bytes, Reply.lines]
            rw [heed, if_neg hc, ih, hq, replies, if_neg hc, List.flatMap_cons, List.append_assoc]

def repliesTo (arrival : Arrival) (studio : Studio) (c : Connection) : List Reply :=
  match arrival with
  | .bytes portion => replies (noticesOf c.buffer portion) studio c
  | _ => []

theorem outbox_read {c : Connection} (h : c.closing = false) (arrival : Arrival)
    (studio : Studio) :
    (c.read arrival studio).2.2.outbox.bytes =
      c.outbox.bytes ++ (c.repliesTo arrival studio).flatMap Reply.bytes := by
  cases arrival with
  | nothing | ended => simp [read, h, repliesTo]
  | bytes portion =>
      have hf : (c.read (.bytes portion) studio).2 = c.feed [portion] studio := rfl
      rw [hf, feed_portion h]
      exact outbox_heed _ _ _

end Connection

namespace Server

/-- What a client was sent, and what is queued for it. -/
def due (l : Link Connection) : List UInt8 := l.socket.received ++ l.state.outbox.bytes

theorem due_send (l : Link Connection) : due (send l).2 = due l := by
  simp [due, send, Socket.receive, Outbox.flushAll_sent, Outbox.flushAll_left]

theorem outbox_send (l : Link Connection) : (send l).2.state.outbox = {} :=
  Outbox.flushAll_left _

def answersTo (chunk : Nat) (studio : Studio) (l : Link Connection) : List Reply :=
  if l.state.closing then [] else l.state.repliesTo (l.socket.read chunk).1 studio

theorem due_read (chunk : Nat) (studio : Studio) (l : Link Connection) :
    due (readConnection chunk studio l).2.2 =
      due l ++ (answersTo chunk studio l).flatMap Reply.bytes := by
  have hr : (l.socket.read chunk).2.received = l.socket.received := by
    rw [Socket.read]
    split <;> rfl
  cases hc : l.state.closing with
  | true => simp [readConnection, answersTo, hc]
  | false =>
      have ho := Connection.outbox_read hc (l.socket.read chunk).1 studio
      simp [readConnection, answersTo, due, hc, hr, ho]

/-- The end of a stream is seen in a read that finds nothing else. -/
theorem state_read_of_closed {chunk : Nat} {studio : Studio} {l : Link Connection}
    (h : (readConnection chunk studio l).2.1 = .closed) :
    (readConnection chunk studio l).2.2.state = l.state := by
  cases hc : l.state.closing with
  | true => simp [readConnection, hc]
  | false =>
      cases ha : (l.socket.read chunk).1 with
      | nothing | ended => simp [readConnection, Connection.read, hc, ha]
      | bytes portion => simp [readConnection, Connection.read, hc, ha] at h

/-- What a round is for one client: the link as it leaves it, whether it stays, and what it was
answered. -/
structure Turn where
  link : Link Connection
  stays : Bool
  answered : List Reply

def turn (chunk : Nat) (studio : Studio) (l : Link Connection) : Studio × Turn :=
  let l := (send l).2
  if l.state.isFinished then (studio, ⟨l, false, []⟩)
  else
    let (studio', status, l') := readConnection chunk studio l
    (studio', ⟨l', status ≠ .closed, answersTo chunk studio l⟩)

def turns (chunk : Nat) : Studio → List (Link Connection) → Studio × List Turn
  | studio, [] => (studio, [])
  | studio, l :: links =>
    let (studio, t) := turn chunk studio l
    let (studio, ts) := turns chunk studio links
    (studio, t :: ts)

theorem client_send (l : Link Connection) : (send l).2.client = l.client := rfl

theorem client_read (chunk : Nat) (studio : Studio) (l : Link Connection) :
    (readConnection chunk studio l).2.2.client = l.client := by
  unfold readConnection
  split <;> rfl

section Turn

variable {chunk : Nat} {studio : Studio} {l : Link Connection}

theorem turn_of_finished (h : (send l).2.state.isFinished = true) :
    turn chunk studio l = (studio, ⟨(send l).2, false, []⟩) :=
  if_pos h

theorem turn_of_reading (h : (send l).2.state.isFinished = false) :
    turn chunk studio l =
      ((readConnection chunk studio (send l).2).1,
        ⟨(readConnection chunk studio (send l).2).2.2,
          (readConnection chunk studio (send l).2).2.1 ≠ .closed,
          answersTo chunk studio (send l).2⟩) :=
  if_neg (by simp [h])

theorem client_turn : (turn chunk studio l).2.link.client = l.client := by
  cases hf : (send l).2.state.isFinished with
  | true => rw [turn_of_finished hf, client_send]
  | false => rw [turn_of_reading hf, client_read, client_send]

theorem due_turn :
    due (turn chunk studio l).2.link =
      due l ++ (turn chunk studio l).2.answered.flatMap Reply.bytes := by
  cases hf : (send l).2.state.isFinished with
  | true => rw [turn_of_finished hf, due_send, List.flatMap_nil, List.append_nil]
  | false => rw [turn_of_reading hf, due_read, due_send]

theorem outbox_turn (h : (turn chunk studio l).2.stays = false) :
    (turn chunk studio l).2.link.state.outbox = {} := by
  cases hf : (send l).2.state.isFinished with
  | true =>
      rw [turn_of_finished hf]
      exact outbox_send l
  | false =>
      rw [turn_of_reading hf] at h ⊢
      have hclosed : (readConnection chunk studio (send l).2).2.1 = .closed := by simpa using h
      rw [state_read_of_closed hclosed]
      exact outbox_send l

end Turn

theorem turns_eq (chunk : Nat) (studio : Studio) (links : List (Link Connection)) :
    let sent := links.map fun l => (send l).2
    let read := readAll (readConnection chunk) studio (sent.filter fun l => !l.state.isFinished)
    let ts := (turns chunk studio links).2
    (turns chunk studio links).1 = read.1 ∧
      (ts.filter (·.stays)).map (·.link) = (read.2.filter fun r => !decide (r.1 = .closed)).map (·.2) ∧
      ((ts.filter (!·.stays)).map (·.link)).Perm
        (sent.filter (·.state.isFinished) ++ (read.2.filter fun r => r.1 = .closed).map (·.2)) := by
  induction links generalizing studio with
  | nil => exact ⟨rfl, rfl, .refl _⟩
  | cons l links ih =>
      dsimp only at ih ⊢
      cases hf : (send l).2.state.isFinished with
      | true =>
          obtain ⟨hstudio, hstay, hgone⟩ := ih studio
          simp only [turns, turn_of_finished hf]
          simpa [hf] using ⟨hstudio, hstay, hgone⟩
      | false =>
          obtain ⟨hstudio, hstay, hgone⟩ := ih (readConnection chunk studio (send l).2).1
          simp only [turns, turn_of_reading hf, List.map_cons, List.filter_cons, hf, Bool.not_false,
            Bool.false_eq_true, if_true, if_false, readAll]
          by_cases hc : (readConnection chunk studio (send l).2).2.1 = .closed
          · refine ⟨hstudio, by simpa [hc] using hstay, ?_⟩
            simpa [hc] using (hgone.cons _).trans List.perm_middle.symm
          · exact ⟨hstudio, by simpa [hc] using hstay, by simpa [hc] using hgone⟩

def round (studio : Studio) (s : Server) : List Turn :=
  (turns s.settings.chunk studio s.accept.2.connections).2

theorem connections_write (s : Server) :
    s.write.2.connections =
        (s.connections.map fun l => (send l).2).filter (fun l => !l.state.isFinished) ∧
      s.write.2.released =
        s.released ++ (s.connections.map fun l => (send l).2).filter (·.state.isFinished) := by
  simp [write, part_indicesOf, Function.comp_def]

theorem connections_read (studio : Studio) (s : Server) :
    let read := readAll (readConnection s.settings.chunk) studio s.connections
    (s.readConnections studio).2.2.connections =
        (read.2.filter fun r => !decide (r.1 = .closed)).map (·.2) ∧
      (s.readConnections studio).2.2.released =
        s.released ++ (read.2.filter fun r => r.1 = .closed).map (·.2) := by
  simp [readConnections, part_map, part_indicesOf]

theorem readExchanges_connections (studio : Studio) (s : Server) :
    (s.readExchanges studio).2.2.waiting = s.waiting ∧
      (s.readExchanges studio).2.2.connections = s.connections ∧
      (s.readExchanges studio).2.2.released = s.released := by
  unfold readExchanges
  split <;> exact ⟨rfl, rfl, rfl⟩

/-- Whoever a round does not let go stays, each with what is its own. -/
theorem tick_eq_round (studio : Studio) (s : Server) :
    (s.tick studio).2.2.waiting = [] ∧
      (s.tick studio).2.2.connections = ((s.round studio).filter (·.stays)).map (·.link) ∧
      (s.tick studio).2.2.released.Perm
        (s.released ++ ((s.round studio).filter (!·.stays)).map (·.link)) := by
  obtain ⟨-, hstay, hgone⟩ := turns_eq s.settings.chunk studio s.accept.2.connections
  obtain ⟨hw, hc, hr⟩ := readExchanges_connections
    (s.accept.2.write.2.readConnections studio).2.1 (s.accept.2.write.2.readConnections studio).2.2
  obtain ⟨hread, hclosed⟩ := connections_read studio s.accept.2.write.2
  obtain ⟨hwrite, hfinished⟩ := connections_write s.accept.2
  refine ⟨hw, ?_, ?_⟩
  · refine hc.trans (hread.trans ?_)
    rw [hwrite]
    exact hstay.symm
  · rw [show (s.tick studio).2.2.released = _ from hr.trans hclosed, hfinished, hwrite,
      List.append_assoc]
    exact hgone.symm.append_left _

def toldTo (client : Nat) (told : List (Nat × Reply)) : List Reply :=
  (told.filter (·.1 = client)).map (·.2)

def Turn.told (t : Turn) : List (Nat × Reply) := t.answered.map fun r => (t.link.client, r)

def account (l : Link Connection) : Nat × List UInt8 := (l.client, due l)

/-- What every client of the console's endpoint was sent or has queued. -/
def accounts (s : Server) : List (Nat × List UInt8) :=
  s.waiting.map (fun l => (l.client, l.socket.received)) ++ (s.connections ++ s.released).map account

def credit (told : List (Nat × Reply)) (a : Nat × List UInt8) : Nat × List UInt8 :=
  (a.1, a.2 ++ (toldTo a.1 told).flatMap Reply.bytes)

theorem toldTo_append (client : Nat) (told more : List (Nat × Reply)) :
    toldTo client (told ++ more) = toldTo client told ++ toldTo client more := by
  simp [toldTo]

theorem toldTo_of_not_mem {client : Nat} {told : List (Nat × Reply)}
    (h : ∀ e ∈ told, e.1 ≠ client) : toldTo client told = [] := by
  simpa [toldTo, List.filter_eq_nil_iff] using fun a r hm => h (a, r) hm

theorem toldTo_turn (t : Turn) : toldTo t.link.client t.told = t.answered := by
  simp [toldTo, Turn.told, List.filter_map, Function.comp_def]

theorem mem_turns {chunk : Nat} {studio : Studio} {links : List (Link Connection)} {t : Turn}
    (h : t ∈ (turns chunk studio links).2) :
    ∃ studio, ∃ l ∈ links, t = (turn chunk studio l).2 := by
  induction links generalizing studio with
  | nil => cases h
  | cons l links ih =>
      rcases List.mem_cons.1 h with rfl | h
      · exact ⟨studio, l, List.mem_cons_self .., rfl⟩
      · obtain ⟨studio, other, ho, rfl⟩ := ih h
        exact ⟨studio, other, List.mem_cons_of_mem _ ho, rfl⟩

theorem client_of_told_turns {chunk : Nat} {studio : Studio} {links : List (Link Connection)}
    {e : Nat × Reply} (h : e ∈ (turns chunk studio links).2.flatMap Turn.told) :
    e.1 ∈ links.map (·.client) := by
  obtain ⟨t, ht, he⟩ := List.mem_flatMap.1 h
  obtain ⟨studio, l, hl, rfl⟩ := mem_turns ht
  obtain ⟨r, -, rfl⟩ := List.mem_map.1 he
  rw [client_turn]
  exact List.mem_map_of_mem hl

/-- Each is credited with its own answers. -/
theorem account_turns (chunk : Nat) (studio : Studio) {links : List (Link Connection)}
    (h : (links.map (·.client)).Nodup) :
    (turns chunk studio links).2.map (fun t => account t.link) =
      (links.map account).map (credit ((turns chunk studio links).2.flatMap Turn.told)) := by
  induction links generalizing studio with
  | nil => rfl
  | cons l links ih =>
      rw [List.map_cons, List.nodup_cons] at h
      obtain ⟨hl, h⟩ := h
      simp only [turns, List.map_cons, List.flatMap_cons, ih _ h]
      generalize hts : (turns chunk (turn chunk studio l).1 links).2 = ts
      have hothers (e : Nat × Reply) (he : e ∈ ts.flatMap Turn.told) : e.1 ≠ l.client := by
        rintro hc
        rw [← hts] at he
        exact hl (hc ▸ client_of_told_turns he)
      have hown : credit ((turn chunk studio l).2.told ++ ts.flatMap Turn.told) (account l) =
          account (turn chunk studio l).2.link := by
        have ht := toldTo_turn (turn chunk studio l).2
        rw [client_turn] at ht
        simp only [credit, account, toldTo_append, ht, toldTo_of_not_mem hothers, List.append_nil,
          client_turn, due_turn]
      rw [hown]
      congr 1
      refine List.map_congr_left fun a ha => ?_
      obtain ⟨other, ho, rfl⟩ := List.mem_map.1 ha
      have hown (e : Nat × Reply) (he : e ∈ (turn chunk studio l).2.told) : e.1 ≠ other.client := by
        obtain ⟨r, -, rfl⟩ := List.mem_map.1 he
        rw [client_turn]
        exact fun hc => hl (List.mem_map.2 ⟨other, ho, hc.symm⟩)
      simp only [credit, account, toldTo_append, toldTo_of_not_mem hown, List.nil_append]

theorem accounts_accept (s : Server) :
    s.accounts.Perm ((s.accept.2.connections ++ s.released).map account) := by
  have hw : (s.waiting.map fun l => account ⟨l.client, l.socket, { console := s.freshConsole }⟩) =
      s.waiting.map fun l => (l.client, l.socket.received) := by
    simp [account, due]
  simp only [accounts, accept, List.map_append, List.map_map, Function.comp_def, hw]
  rw [← List.append_assoc]
  exact List.perm_append_comm.append_right _

/-- What a round answers is credited to those that it answers, and the rest have what they had. -/
theorem accounts_tick (studio : Studio) {s : Server} (h : (s.accounts.map (·.1)).Nodup) :
    (s.tick studio).2.2.accounts.Perm
      (s.accounts.map (credit ((s.round studio).flatMap Turn.told))) := by
  obtain ⟨hw, hc, hr⟩ := tick_eq_round studio s
  have hn := ((accounts_accept s).map (·.1)).nodup_iff.1 h
  simp only [List.map_map, Function.comp_def, List.map_append] at hn
  have hturns := account_turns s.settings.chunk studio (List.nodup_append.1 hn).1
  have hgone : s.released.map account =
      (s.released.map account).map (credit ((s.round studio).flatMap Turn.told)) := by
    refine (List.map_id _).symm.trans (List.map_congr_left fun a ha => ?_)
    obtain ⟨l, hl, rfl⟩ := List.mem_map.1 ha
    have hothers (e : Nat × Reply) (he : e ∈ (s.round studio).flatMap Turn.told) :
        e.1 ≠ l.client := by
      obtain ⟨other, ho, hclient⟩ := List.mem_map.1 (client_of_told_turns he)
      rw [← hclient]
      exact (List.nodup_append.1 hn).2.2 _ (List.mem_map_of_mem ho) _ (List.mem_map_of_mem hl)
    simp [credit, account, toldTo_of_not_mem hothers]
  calc (s.tick studio).2.2.accounts
      = ((s.tick studio).2.2.connections ++ (s.tick studio).2.2.released).map account := by
        rw [accounts, hw]
        rfl
    _ ~ ((s.round studio).map (·.link) ++ s.released).map account := by
        have hall := (List.filter_append_perm (·.stays) (s.round studio)).map (·.link)
        rw [List.map_append] at hall
        rw [hc]
        refine List.Perm.map _ ((hr.append_left _).trans ?_)
        exact (List.perm_append_comm.append_left _).trans
          ((List.append_assoc ..).symm ▸ hall.append_right _)
    _ = ((s.accept.2.connections ++ s.released).map account).map
          (credit ((s.round studio).flatMap Turn.told)) := by
        rw [List.map_append, List.map_append, List.map_append, ← hgone, List.map_map]
        exact congrArg (· ++ _) hturns
    _ ~ s.accounts.map (credit ((s.round studio).flatMap Turn.told)) :=
        (accounts_accept s).symm.map _

theorem accounts_onSocket (client : Nat) {f : Socket → Socket}
    (h : ∀ socket, (f socket).received = socket.received) (s : Server) :
    (s.onSocket client f).accounts = s.accounts := by
  have hw (l : Link Unit) : (if l.client = client then { l with socket := f l.socket } else l).client =
      l.client ∧ (if l.client = client then { l with socket := f l.socket } else l).socket.received =
        l.socket.received := by
    split <;> simp [h]
  have hc (l : Link Connection) :
      account (if l.client = client then { l with socket := f l.socket } else l) = account l := by
    split <;> simp [account, due, h]
  simp only [accounts, onSocket, List.map_append, List.map_map, Function.comp_def, hw, hc]

theorem accounts_deliver (client : Nat) (bytes : List UInt8) (s : Server) :
    (s.deliver client bytes).accounts = s.accounts :=
  accounts_onSocket client (by simp) s

theorem accounts_finish (client : Nat) (s : Server) : (s.finish client).accounts = s.accounts :=
  accounts_onSocket client (by simp) s

theorem accounts_connect (client : Nat) (s : Server) :
    (s.connect client false).accounts.Perm ((client, []) :: s.accounts) := by
  simp only [accounts, connect, Bool.false_eq_true, if_false, List.map_append, List.append_assoc]
  exact List.perm_middle

end Server

/-- A server, the studio that it shares with others, and what it answered to whom. -/
structure Premises where
  studio : Studio
  server : Server
  told : List (Nat × Reply) := []

/-- A client comes, sends or says that it sends no more; something else goes on in the studio; or
the server makes a round. -/
inductive Occurrence where
  | connect (client : Nat) (aux : Bool)
  | deliver (client : Nat) (bytes : List UInt8)
  | finish (client : Nat)
  | elsewhere (f : Studio → Studio)
  | round

def Occurrence.client? : Occurrence → Option Nat
  | connect client false => some client
  | _ => none

namespace Premises

open Server

def round (w : Premises) : List Server.Turn := w.server.round w.studio

def apply (w : Premises) : Occurrence → Premises
  | .connect client aux => { w with server := w.server.connect client aux }
  | .deliver client bytes => { w with server := w.server.deliver client bytes }
  | .finish client => { w with server := w.server.finish client }
  | .elsewhere f => { w with studio := f w.studio }
  | .round =>
    { studio := (w.server.tick w.studio).2.1
      server := (w.server.tick w.studio).2.2
      told := w.told ++ w.round.flatMap Server.Turn.told }

def run (w : Premises) (os : List Occurrence) : Premises := os.foldl apply w

/-- Of all that came, each was answered what it was sent or has queued, and of those that were let go
nothing is queued. -/
structure Square (known : List Nat) (w : Premises) : Prop where
  clients : (w.server.accounts.map (·.1)).Perm known
  due : ∀ a ∈ w.server.accounts, a.2 = (toldTo a.1 w.told).flatMap Reply.bytes
  told : ∀ e ∈ w.told, e.1 ∈ known
  sent : ∀ l ∈ w.server.released, l.state.outbox = {}

theorem square_fresh (settings : ServerSettings) (dirs : List String) (studio : Studio) :
    Square [] ⟨studio, { settings, includeDirs := dirs }, []⟩ := by
  constructor <;> simp [accounts]

theorem Square.of_accounts {known : List Nat} {w v : Premises} (h : Square known w)
    (ha : v.server.accounts = w.server.accounts) (hr : v.server.released = w.server.released)
    (ht : v.told = w.told) : Square known v where
  clients := ha ▸ h.clients
  due := by simpa only [ha, ht] using h.due
  told := ht ▸ h.told
  sent := hr ▸ h.sent

section Square

variable {known : List Nat} {w : Premises} (h : Square known w)

include h

theorem Square.connect {client : Nat} (hc : client ∉ known) :
    Square (client :: known) (w.apply (.connect client false)) := by
  have ha := accounts_connect client w.server
  constructor
  · exact (ha.map _).trans (h.clients.cons client)
  · intro a hm
    rcases List.mem_cons.1 (ha.mem_iff.1 hm) with rfl | hm
    · have hnone : toldTo client w.told = [] :=
        toldTo_of_not_mem fun e he hec => hc (hec ▸ h.told e he)
      simp [apply, hnone]
    · exact h.due a hm
  · exact fun e he => List.mem_cons_of_mem _ (h.told e he)
  · exact h.sent

theorem Square.round (hn : known.Nodup) : Square known (w.apply .round) := by
  have ha := accounts_tick w.studio (h.clients.nodup_iff.2 hn)
  obtain ⟨-, hc, hr⟩ := tick_eq_round w.studio w.server
  constructor
  · refine ((ha.map (·.1)).trans ?_).trans h.clients
    rw [List.map_map]
    rfl
  · intro a hm
    obtain ⟨b, hb, rfl⟩ := List.mem_map.1 (ha.mem_iff.1 hm)
    have hdue := h.due b hb
    simp only [apply, credit, toldTo_append, List.flatMap_append, hdue]
    rfl
  · intro e he
    rcases List.mem_append.1 he with he | he
    · exact h.told e he
    · have hm := ((accounts_accept w.server).map (·.1)).symm.subset
      rw [List.map_map, List.map_append] at hm
      exact h.clients.subset (hm (List.mem_append_left _ (client_of_told_turns he)))
  · intro l hl
    rcases List.mem_append.1 (hr.mem_iff.1 hl) with hl | hl
    · exact h.sent l hl
    · obtain ⟨t, ht, rfl⟩ := List.mem_map.1 hl
      obtain ⟨ht, hgone⟩ := List.mem_filter.1 ht
      obtain ⟨studio, l, -, rfl⟩ := mem_turns ht
      exact outbox_turn (by simpa using hgone)

theorem Square.apply (o : Occurrence) (hn : (o.client?.toList ++ known).Nodup) :
    Square (o.client?.toList ++ known) (w.apply o) := by
  cases o with
  | connect client aux =>
      cases aux with
      | true => exact h.of_accounts rfl rfl rfl
      | false => exact h.connect (List.nodup_cons.1 hn).1
  | deliver client bytes => exact h.of_accounts (accounts_deliver client bytes w.server) rfl rfl
  | finish client => exact h.of_accounts (accounts_finish client w.server) rfl rfl
  | elsewhere f => exact h.of_accounts rfl rfl rfl
  | round => exact h.round hn

end Square

theorem square_run {os : List Occurrence} {known : List Nat} {w : Premises} (h : Square known w)
    (hn : (known ++ os.filterMap Occurrence.client?).Nodup) :
    ∃ known, Square known (w.run os) := by
  induction os generalizing known w with
  | nil => exact ⟨known, h⟩
  | cons o os ih =>
      have hperm : (known ++ (o :: os).filterMap Occurrence.client?).Perm
          ((o.client?.toList ++ known) ++ os.filterMap Occurrence.client?) := by
        cases ho : o.client? <;> simp [ho]
      rw [hperm.nodup_iff] at hn
      exact ih (h.apply o (List.nodup_append.1 hn).1) hn

/-- Whatever clients come to a new server, each of its own name, and whatever they send: who was let
go has nothing queued and was sent the replies to all that was noticed of it, in turn, and nothing
else; of who is still there the replies were sent or are queued. A round lets go of those that are
done, and keeps the others as their turns leave them. -/
theorem run_delivers (settings : ServerSettings) (dirs : List String) (studio : Studio)
    (os : List Occurrence) (hn : (os.filterMap Occurrence.client?).Nodup) :
    let w := run ⟨studio, { settings, includeDirs := dirs }, []⟩ os
    (∀ l ∈ w.server.released, l.state.outbox = {} ∧
      l.socket.received = (toldTo l.client w.told).flatMap Reply.bytes) ∧
    (∀ l ∈ w.server.connections, l.socket.received ++ l.state.outbox.bytes =
      (toldTo l.client w.told).flatMap Reply.bytes) ∧
    (w.apply .round).server.connections = (w.round.filter (·.stays)).map (·.link) ∧
    (w.apply .round).server.released.Perm
      (w.server.released ++ (w.round.filter (!·.stays)).map (·.link)) := by
  intro w
  obtain ⟨known, h⟩ := square_run (square_fresh settings dirs studio) hn
  have hdue (l : Link Connection) (hl : l ∈ w.server.connections ++ w.server.released) :
      Server.due l = (toldTo l.client w.told).flatMap Reply.bytes :=
    h.due (account l) (List.mem_append_right _ (List.mem_map_of_mem hl))
  refine ⟨fun l hl => ?_, fun l hl => ?_, (tick_eq_round _ _).2⟩
  · have hd := hdue l (List.mem_append_right _ hl)
    have ho : l.state.outbox = {} := h.sent l hl
    rw [Server.due, ho, List.append_nil] at hd
    exact ⟨ho, hd⟩
  · exact hdue l (List.mem_append_left _ hl)

theorem run_delivers_leaving :
    let os := [.connect 1 false, .connect 2 false, .deliver 1 (encode "hello .\r\nexit\r\n1"),
      .deliver 2 (encode "1 .\r\n2"), .round, .deliver 2 (encode " .\r\n"), .finish 2, .round]
    let w := run ⟨{}, {}, []⟩ os
    w.server.released.map (·.client) = [1] ∧ w.server.connections.map (·.client) = [2] ∧
      (∀ l ∈ w.server.released, l.state.outbox = {} ∧
        l.socket.received = encode "hello\r\nOK\r\nOK\r\n") ∧
      (w.apply .round).server.connections = [] := by
  intro os w
  obtain ⟨hgone, -, hstay, -⟩ := run_delivers {} [] {} os (by decide)
  have hclients : w.server.released.map (·.client) = [1] := by decide +kernel
  have htold : (toldTo 1 w.told).flatMap Reply.bytes = encode "hello\r\nOK\r\nOK\r\n" := by
    decide +kernel
  refine ⟨hclients, by decide +kernel, fun l hl => ?_, ?_⟩
  · have hl1 : l.client ∈ [1] := hclients ▸ List.mem_map_of_mem hl
    rw [← htold, ← List.mem_singleton.1 hl1]
    exact hgone l hl
  · have hnone : (w.round.filter (·.stays)).length = 0 := by decide +kernel
    rw [hstay, List.length_eq_zero_iff.1 hnone, List.map_nil]

end Premises

end Playout.Wire
