import Playout.Proofs.Console.Discretion
import Playout.Proofs.Console.Reach
import Playout.Proofs.Text.Utf8
import Playout.Wire.Connection

namespace Playout.Wire

open Media Stack Console Act

structure Neighbours where
  studio : Studio
  near : Connection
  far : Connection

inductive Happening where
  | near (arrival : Arrival)
  | far (arrival : Arrival)
  | loop (m : Playback.Move)

def Happening.near? : Happening → Option Arrival
  | near arrival => some arrival
  | _ => none

namespace Neighbours

def apply (w : Neighbours) : Happening → Neighbours
  | .near arrival =>
    let (_, studio, near) := w.near.read arrival w.studio
    { w with studio, near }
  | .far arrival =>
    let (_, studio, far) := w.far.read arrival w.studio
    { w with studio, far }
  | .loop m =>
    let s := m.apply ⟨w.studio.catalog, w.studio.player⟩
    { w with studio := { w.studio with catalog := s.catalog, player := s.player } }

def run (w : Neighbours) (es : List Happening) : Neighbours := es.foldl apply w

end Neighbours

section Answer

variable {reach : Handle → Prop} {d e : Desk}

theorem answer_alongside (line : String) (hd : Alongside reach d e) (hl : DiscreetLine line e) :
    (answer line d).1 = (answer line e).1 ∧
      Alongside reach (answer line d).2 (answer line e).2 := by
  obtain ⟨hr, ρ, hs⟩ := agrees_define line hd hl
  rw [answer, answer]
  generalize (Console.define line).run d = x at hr hs ⊢
  generalize (Console.define line).run e = y at hr hs ⊢
  obtain ⟨r, d⟩ := x
  obtain ⟨r', e⟩ := y
  obtain rfl : r = r' := hr
  have ho := hs.interpreter.output
  refine ⟨?_, ρ, { hs with interpreter := { hs.interpreter with output := rfl }, signals := rfl }⟩
  simp only [takeOutput, takeSignals, Interpreter.takeOutput] at ho ⊢
  rw [ho, hs.signals]

theorem answer_spares (line : String) {own : Handle → Prop} {start : Catalog}
    (hd : Spares own start d) : Spares own start (answer line d).2 := by
  have hs := (Spares.define line).keeps hd
  rw [answer]
  generalize (Console.define line).run d = x at hs ⊢
  exact hs.imp fun _ hs => { hs with }

end Answer

namespace Connection

theorem takeLines_cons (line : List UInt8) (lines : List (List UInt8)) (studio : Studio)
    (c : Connection) :
    takeLines (line :: lines) studio c =
      if c.closing then (studio, c)
      else if line = [] then takeLines lines studio c
      else takeLines lines (takeLine line studio c).1 (takeLine line studio c).2 := rfl

/-- Each line is discreet where it is taken. -/
def DiscreetLines : List (List UInt8) → Studio → Connection → Prop
  | [], _, _ => True
  | line :: lines, studio, c =>
    c.closing = false →
      if line = [] then DiscreetLines lines studio c
      else
        DiscreetLine (Text.Utf8.lossy line) ⟨studio, c.console⟩ ∧
          DiscreetLines lines (c.takeLine line studio).1 (c.takeLine line studio).2

def DiscreetRead (arrival : Arrival) (studio : Studio) (c : Connection) : Prop :=
  c.closing = false → ∀ portion, arrival = .bytes portion →
    let (lines, buffer) := extract (c.buffer ++ portion)
    DiscreetLines lines studio { c with buffer }

theorem discreetRead_of_forall {portion : List UInt8} {c : Connection}
    (h : ∀ line ∈ (extract (c.buffer ++ portion)).1, ∀ d, DiscreetLine (Text.Utf8.lossy line) d)
    (studio : Studio) : DiscreetRead (.bytes portion) studio c := by
  have hlines (lines : List (List UInt8))
      (h : ∀ line ∈ lines, ∀ d, DiscreetLine (Text.Utf8.lossy line) d) (studio : Studio)
      (c : Connection) : DiscreetLines lines studio c := by
    induction lines generalizing studio c with
    | nil => trivial
    | cons line lines ih =>
        obtain ⟨hline, hrest⟩ := List.forall_mem_cons.1 h
        intro _
        split
        · exact ih hrest _ _
        · exact ⟨hline _, ih hrest _ _⟩
  rintro - _ ⟨⟩
  exact hlines _ h _ _

/-- Connections in two studios that are alike to their clients. -/
structure Level (reach : Handle → Prop) (studio studio' : Studio) (c c' : Connection) : Prop where
  desks : Alongside reach ⟨studio, c.console⟩ ⟨studio', c'.console⟩
  buffer : c.buffer = c'.buffer
  outbox : c.outbox = c'.outbox
  closing : c.closing = c'.closing

namespace Level

variable {reach : Handle → Prop} {studio studio' : Studio} {c c' : Connection}

theorem takeLine {line : List UInt8} (h : Level reach studio studio' c c')
    (hl : DiscreetLine (Text.Utf8.lossy line) ⟨studio', c'.console⟩) :
    Level reach (c.takeLine line studio).1 (c'.takeLine line studio').1
      (c.takeLine line studio).2 (c'.takeLine line studio').2 := by
  obtain ⟨hr, hs⟩ := answer_alongside _ h.desks hl
  rw [Connection.takeLine, Connection.takeLine]
  generalize answer (Text.Utf8.lossy line) ⟨studio, c.console⟩ = x at hr hs ⊢
  generalize answer (Text.Utf8.lossy line) ⟨studio', c'.console⟩ = y at hr hs ⊢
  obtain ⟨reply, d⟩ := x
  obtain ⟨reply', e⟩ := y
  obtain rfl : reply = reply' := hr
  refine ⟨hs, ?_, ?_, rfl⟩
  · dsimp only
    rw [h.buffer]
  · dsimp only
    rw [h.outbox]

theorem discreetLines_iff (lines : List (List UInt8)) (h : Level reach studio studio' c c') :
    DiscreetLines lines studio c ↔ DiscreetLines lines studio' c' := by
  induction lines generalizing studio studio' c c' with
  | nil => rfl
  | cons line lines ih =>
      rw [DiscreetLines, DiscreetLines, h.closing]
      refine imp_congr_right fun _ => ?_
      split
      · exact ih h
      · rw [discreetLine_iff _ h.desks]
        exact and_congr_right fun hl => ih (h.takeLine hl)

theorem takeLines (lines : List (List UInt8)) (h : Level reach studio studio' c c')
    (hl : DiscreetLines lines studio' c') :
    Level reach (c.takeLines lines studio).1 (c'.takeLines lines studio').1
      (c.takeLines lines studio).2 (c'.takeLines lines studio').2 := by
  induction lines generalizing studio studio' c c' with
  | nil => exact h
  | cons line lines ih =>
      rw [takeLines_cons, takeLines_cons, h.closing]
      split
      · exact h
      · rename_i hc
        have hl := hl (by simpa using hc)
        split
        · rename_i he
          rw [if_pos he] at hl
          exact ih h hl
        · rename_i he
          rw [if_neg he] at hl
          exact ih (h.takeLine hl.1) hl.2

theorem refuseOverlong (h : Level reach studio studio' c c') :
    Level reach studio studio' c.refuseOverlong c'.refuseOverlong := by
  rw [Connection.refuseOverlong, Connection.refuseOverlong, h.buffer]
  split
  · exact ⟨h.desks, rfl, congrArg (Outbox.queue _) h.outbox, h.closing⟩
  · exact h

theorem discreetRead_iff (arrival : Arrival) (h : Level reach studio studio' c c') :
    DiscreetRead arrival studio c ↔ DiscreetRead arrival studio' c' := by
  rw [DiscreetRead, DiscreetRead, h.closing, h.buffer]
  refine imp_congr_right fun _ => forall₂_congr fun portion _ => ?_
  exact discreetLines_iff _ ⟨h.desks, rfl, h.outbox, rfl⟩

theorem read {arrival : Arrival} (h : Level reach studio studio' c c')
    (hr : DiscreetRead arrival studio' c') :
    (c.read arrival studio).1 = (c'.read arrival studio').1 ∧
      Level reach (c.read arrival studio).2.1 (c'.read arrival studio').2.1
        (c.read arrival studio).2.2 (c'.read arrival studio').2.2 := by
  unfold Connection.read
  rw [h.closing]
  split
  · exact ⟨rfl, h⟩
  · rename_i hc
    cases arrival with
    | nothing | ended => exact ⟨rfl, h⟩
    | bytes portion =>
        have hlines := hr (by simpa using hc) portion rfl
        rw [h.buffer]
        refine ⟨rfl, refuseOverlong ?_⟩
        exact takeLines _ ⟨h.desks, rfl, h.outbox, rfl⟩ hlines

end Level

section Spares

variable {own : Handle → Prop} {start : Catalog}

theorem takeLine_spares (line : List UInt8) {studio : Studio} {c : Connection}
    (h : Spares own start ⟨studio, c.console⟩) :
    Spares own start ⟨(c.takeLine line studio).1, (c.takeLine line studio).2.console⟩ := by
  have hs := answer_spares (Text.Utf8.lossy line) h
  rw [takeLine]
  generalize answer (Text.Utf8.lossy line) ⟨studio, c.console⟩ = x at hs ⊢
  exact hs

theorem takeLines_spares (lines : List (List UInt8)) {studio : Studio} {c : Connection}
    (h : Spares own start ⟨studio, c.console⟩) :
    Spares own start ⟨(c.takeLines lines studio).1, (c.takeLines lines studio).2.console⟩ := by
  induction lines generalizing studio c with
  | nil => exact h
  | cons line lines ih =>
      rw [takeLines_cons]
      split
      · exact h
      · split
        · exact ih h
        · exact ih (takeLine_spares line h)

theorem read_spares (arrival : Arrival) {studio : Studio} {c : Connection}
    (h : Spares own start ⟨studio, c.console⟩) :
    Spares own start ⟨(c.read arrival studio).2.1, (c.read arrival studio).2.2.console⟩ := by
  unfold read
  split
  · exact h
  · cases arrival with
    | nothing | ended => exact h
    | bytes portion =>
        have hs := takeLines_spares (extract (c.buffer ++ portion)).1
          (c := { c with buffer := (extract (c.buffer ++ portion)).2 }) h
        dsimp only
        unfold refuseOverlong
        split <;> exact hs

end Spares

end Connection

namespace Neighbours

theorem confined_move {own reach : Handle → Prop} {start : Catalog} {studio : Studio} {c : Console}
    (h : Confined own start reach ⟨studio, c⟩) (m : Playback.Move) :
    let s := m.apply ⟨studio.catalog, studio.player⟩
    Confined own start reach
      ⟨{ studio with catalog := s.catalog, player := s.player }, c⟩ := by
  have hm := Playback.contained_move ⟨studio.catalog, studio.player⟩ m
  refine { h with held := fun k hk => h.held k (hm.holds hk), reach := ?_, own := ?_ }
  · intro k hk
    exact ⟨hm.size ▸ (h.reach k hk).1, (h.reach k hk).2⟩
  · intro k hk
    obtain ⟨hlt, hget⟩ := h.own k hk
    have hfree : ¬studio.player.Holds k := fun hh => (h.reach k (h.held k hh)).2 hk
    exact ⟨hm.size ▸ hlt, (hm.get hfree).trans hget⟩

theorem tied_elsewhere {ρ : Handle → Handle → Prop} {reach reach' : Handle → Prop}
    {studio studio' : Studio} {c c' : Console} {e : Desk} (hd : Tied reach ρ ⟨studio, c⟩ e)
    (hs : Confined (fun h => ∃ k, ρ h k) studio.catalog reach' ⟨studio', c'⟩) :
    Tied reach' ρ ⟨studio', c⟩ e :=
  { hd with
    paired := {
      left := fun hr => (hs.own _ ⟨_, hr⟩).1
      right := hd.paired.right
      same := fun hr => (hs.own _ ⟨_, hr⟩).2.trans (hd.paired.same hr)
      once := hd.paired.once }
    apart := fun h hh => ⟨(hs.reach h hh).1, fun k hr => (hs.reach h hh).2 ⟨k, hr⟩⟩
    held := hs.held }

def DiscreetAt : Happening → Neighbours → Prop
  | .near arrival, w => w.near.DiscreetRead arrival w.studio
  | _, _ => True

def Discreet : List Happening → Neighbours → Prop
  | [], _ => True
  | e :: es, w => DiscreetAt e w ∧ Discreet es (w.apply e)

/-- The near one goes on here as it does there, and what the far one has on its stack is in its own
reach. -/
structure Matches (reach : Handle → Prop) (w v : Neighbours) : Prop where
  near : Connection.Level reach w.studio v.studio w.near v.near
  popWord : w.far.console.interpreter.popWord = "dot"
  printed : w.far.console.interpreter.machine.printed = ""
  stack : ∀ h, .item h ∈ w.far.console.interpreter.machine.stack → reach h

section Matches

variable {reach : Handle → Prop} {w v : Neighbours} (h : Matches reach w v)

include h

theorem Matches.confined {ρ : Handle → Handle → Prop}
    (hd : Tied reach ρ ⟨w.studio, w.near.console⟩ ⟨v.studio, v.near.console⟩) :
    Confined (fun h => ∃ k, ρ h k) w.studio.catalog reach ⟨w.studio, w.far.console⟩ where
  popWord := h.popWord
  printed := h.printed
  stack := h.stack
  held := hd.held
  reach k hk := ⟨(hd.apart k hk).1, fun ⟨k', hr⟩ => (hd.apart k hk).2 k' hr⟩
  own _ := fun ⟨_, hr⟩ => ⟨hd.paired.left hr, rfl⟩

theorem Matches.read_near {arrival : Arrival} (hr : v.near.DiscreetRead arrival v.studio) :
    Matches reach (w.apply (.near arrival)) (v.apply (.near arrival)) :=
  { h with near := (h.near.read hr).2 }

theorem Matches.read_far (arrival : Arrival) : ∃ reach, Matches reach (w.apply (.far arrival)) v := by
  obtain ⟨ρ, hd⟩ := h.near.desks
  obtain ⟨reach', hs⟩ := Connection.read_spares arrival ⟨reach, h.confined hd⟩
  exact ⟨reach', { h.near with desks := ⟨ρ, tied_elsewhere hd hs⟩ }, hs.popWord, hs.printed, hs.stack⟩

theorem Matches.move (m : Playback.Move) : Matches reach (w.apply (.loop m)) v := by
  obtain ⟨ρ, hd⟩ := h.near.desks
  have hs := confined_move (h.confined hd) m
  exact ⟨{ h.near with desks := ⟨ρ, tied_elsewhere hd hs⟩ }, hs.popWord, hs.printed, hs.stack⟩

end Matches

def alone (es : List Happening) : List Happening := (es.filterMap Happening.near?).map .near

theorem matches_run (es : List Happening) {reach : Handle → Prop} {w v : Neighbours}
    (h : Matches reach w v) :
    (Discreet es w ↔ Discreet (alone es) v) ∧
      (Discreet (alone es) v → ∃ reach, Matches reach (w.run es) (v.run (alone es))) := by
  induction es generalizing reach w v with
  | nil => exact ⟨Iff.rfl, fun _ => ⟨reach, h⟩⟩
  | cons e es ih =>
      cases e with
      | near arrival =>
          have hr : DiscreetAt (.near arrival) w ↔ DiscreetAt (.near arrival) v :=
            h.near.discreetRead_iff arrival
          have hstep (hr : DiscreetAt (.near arrival) v) := ih (h.read_near hr)
          constructor
          · rw [Discreet, hr]
            exact and_congr_right fun hr => (hstep hr).1
          · exact fun hd => (hstep hd.1).2 hd.2
      | far arrival =>
          obtain ⟨reach', h'⟩ := h.read_far arrival
          exact ⟨(and_iff_right trivial).trans (ih h').1, (ih h').2⟩
      | loop m => exact ⟨(and_iff_right trivial).trans (ih (h.move m)).1, (ih (h.move m)).2⟩

/-- What the client of the near one can come to see: the bytes that wait for it, whether it is let
go, what is on its stack, and what its words wait for and ask for. -/
structure View where
  buffer : List UInt8
  outbox : Outbox
  closing : Bool
  stack : List (String ⊕ Item)
  pending : Option Pending
  signals : List Signal
  deriving DecidableEq

def seen (catalog : Catalog) : Value → String ⊕ Item
  | .literal text => .inl text
  | .item h => .inr (catalog.get h)

def view (w : Neighbours) : View where
  buffer := w.near.buffer
  outbox := w.near.outbox
  closing := w.near.closing
  stack := w.near.console.interpreter.machine.stack.map (seen w.studio.catalog)
  pending := w.near.console.pending
  signals := w.near.console.signals

theorem Matches.view_eq {reach : Handle → Prop} {w v : Neighbours} (h : Matches reach w v) :
    w.view = v.view := by
  obtain ⟨ρ, hd⟩ := h.near.desks
  have hseen {x y : Value} (hv : Tie ρ x y) : seen w.studio.catalog x = seen v.studio.catalog y := by
    cases hv with
    | literal text => rfl
    | item hr => exact congrArg Sum.inr (hd.paired.same hr)
  have hstack : w.view.stack = v.view.stack := by
    rw [← List.forall₂_eq_eq_eq]
    refine List.forall₂_map_left_iff.2 (List.forall₂_map_right_iff.2 ?_)
    exact hd.interpreter.stack.imp fun _ _ => hseen
  rw [view, view, View.mk.injEq]
  exact ⟨h.near.buffer, h.near.outbox, h.near.closing, hstack, hd.pending, hd.signals⟩

/-- Two connections that have no item in common, and the near one has none in common with the player
either. -/
structure Parted (w : Neighbours) : Prop where
  popWord : w.near.console.interpreter.popWord = "dot" ∧ w.far.console.interpreter.popWord = "dot"
  printed : w.near.console.interpreter.machine.printed = "" ∧
    w.far.console.interpreter.machine.printed = ""
  defined : w.near.console.defined = []
  listening : w.near.console.pending ≠ some .script
  near : ∀ h, .item h ∈ w.near.console.interpreter.machine.stack →
    h < w.studio.catalog.items.size ∧ Console.Word.ofName? (w.studio.catalog.get h).uri = none
  far : ∀ h, .item h ∈ w.far.console.interpreter.machine.stack ∨ w.studio.player.Holds h →
    h < w.studio.catalog.items.size ∧ .item h ∉ w.near.console.interpreter.machine.stack

theorem Parted.matches {w : Neighbours} (h : Parted w) :
    Matches (fun k => .item k ∈ w.far.console.interpreter.machine.stack ∨ w.studio.player.Holds k)
      w w := by
  let ρ (k k' : Handle) : Prop :=
    k = k' ∧ .item k ∈ w.near.console.interpreter.machine.stack
  have htie (v : Value) (hv : v ∈ w.near.console.interpreter.machine.stack) : Tie ρ v v := by
    cases v with
    | literal text => exact .literal text
    | item k => exact .item ⟨rfl, hv⟩
  have hpaired : Paired ρ w.studio.catalog w.studio.catalog := by
    constructor
    · exact fun hr => (h.near _ hr.2).1
    · exact fun hr => hr.1 ▸ (h.near _ hr.2).1
    · exact fun hr => hr.1 ▸ rfl
    · rintro k _ k' _ ⟨rfl, -⟩ ⟨rfl, -⟩
      rfl
  have hdesk : Tied (fun k =>
      .item k ∈ w.far.console.interpreter.machine.stack ∨ w.studio.player.Holds k) ρ
      ⟨w.studio, w.near.console⟩ ⟨w.studio, w.near.console⟩ := by
    constructor
    · exact ⟨List.forall₂_same.2 htie, ⟨h.printed.1, h.printed.1⟩, rfl, ⟨h.popWord.1, h.popWord.1⟩⟩
    · exact hpaired
    · exact fun k hk => ⟨(h.far k hk).1, fun k' hr => (h.far k hk).2 hr.2⟩
    · exact fun k hk => .inr hk
    · rfl
    · exact h.listening
    · rfl
    · exact ⟨h.defined, h.defined⟩
    · rintro k _ ⟨rfl, hk⟩
      exact (h.near k hk).2
  exact ⟨⟨⟨ρ, hdesk⟩, rfl, rfl, rfl⟩, h.popWord.2, h.printed.2, fun k hk => .inl hk⟩

/-- So are two that were just let in, where the player holds what was opened. -/
theorem parted_fresh {studio : Studio}
    (h : ∀ k, studio.player.Holds k → k < studio.catalog.items.size) (dirs dirs' : List String) :
    Parted ⟨studio, { console := { includeDirs := dirs } }, { console := { includeDirs := dirs' } }⟩ := by
  constructor
  · exact ⟨rfl, rfl⟩
  · exact ⟨rfl, rfl⟩
  · rfl
  · simp
  · simp
  · simpa using h

/-- The near one goes its way whatever the far one says and the player does in between. -/
theorem view_run_eq {w : Neighbours} (hw : Parted w) {es fs : List Happening}
    (hsame : es.filterMap Happening.near? = fs.filterMap Happening.near?) (hd : Discreet es w) :
    Discreet fs w ∧ (w.run es).view = (w.run fs).view := by
  have he := matches_run es hw.matches
  have hf := matches_run fs hw.matches
  have ha : alone fs = alone es := by rw [alone, alone, hsame]
  rw [ha] at hf
  have hdiscreet := he.1.1 hd
  obtain ⟨_, he⟩ := he.2 hdiscreet
  obtain ⟨_, hfs⟩ := hf.2 hdiscreet
  exact ⟨hf.1.2 hdiscreet, he.view_eq.trans hfs.view_eq.symm⟩

/-- The near one opens an item before or after the far one has sent one of its own to the player. -/
theorem view_run_eq_opening :
    let w : Neighbours :=
      ⟨{ player := { loop := .waiting, held := true } }, { console := {} }, { console := {} }⟩
    let mine := Happening.near (.bytes (encodeLine "test:a fps=50"))
    let es := [.far (.bytes (encodeLine "test:b fps=30 add")), .loop .promotion, mine, .loop .frame]
    (w.run es).view = (w.run [mine]).view ∧
      (w.run es).near.console.interpreter.machine.stack = [.item 1] ∧
      (w.run [mine]).near.console.interpreter.machine.stack = [.item 0] := by
  intro w mine es
  have hlines : (extract (encodeLine "test:a fps=50")).1 = [Text.Utf8.encode "test:a fps=50"] := by
    decide +kernel
  have hread (studio : Studio) (c : Connection) (hc : c.buffer = []) :
      c.DiscreetRead (.bytes (encodeLine "test:a fps=50")) studio := by
    refine Connection.discreetRead_of_forall ?_ studio
    rw [hc, List.nil_append, hlines]
    have hl : Token.ofLine "test:a fps=50" = .ok ["test:a", "fps=50"] := by rfl
    intro line hm d
    rw [List.mem_singleton.1 hm, Text.Utf8.lossy_encode]
    exact discreetLine_of_harmless hl (by decide) d
  have hd : Discreet es w := ⟨trivial, trivial, hread _ _ rfl, trivial, trivial⟩
  have hw : Parted w := parted_fresh (by simp [Player.Holds, Deck.timeline]) [] []
  refine ⟨(@view_run_eq w hw es [mine] rfl hd).2, ?_, ?_⟩ <;> decide +kernel

end Neighbours

end Playout.Wire
