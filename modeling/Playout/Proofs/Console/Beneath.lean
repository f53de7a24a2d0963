import Playout.Proofs.Console.Cloning

namespace Playout

open Media Stack

/-- The desk with more values on its stack, beneath those that lie there. -/
def Desk.atop (below : List Value) (d : Desk) : Desk :=
  { d with console.interpreter.machine.stack := d.console.interpreter.machine.stack ++ below }

namespace Stack.Machine

def atop (below : List Value) (m : Machine) : Machine := { m with stack := m.stack ++ below }

theorem enter_atop (below : List Value) {m : Machine} (hs : m.stack ≠ []) (token : String)
    (catalog : Catalog) :
    (m.atop below).enter token catalog =
      ((m.enter token catalog).1, (m.enter token catalog).2.1,
        (m.enter token catalog).2.2.atop below) := by
  obtain ⟨v, rest, hs⟩ := List.exists_cons_of_ne_nil hs
  have hassign (name value : String) :
      (m.atop below).assign name value catalog = m.assign name value catalog := by
    cases v <;> simp only [assign, atop, hs, List.cons_append]
  unfold enter
  split
  · rfl
  · split
    · rw [hassign]
    · split
      · split <;> rfl
      · rfl

theorem length_enter (token : String) (catalog : Catalog) (m : Machine) :
    m.stack.length ≤ (m.enter token catalog).2.2.stack.length := by
  unfold enter
  split
  · exact Nat.le_succ _
  · split
    · exact Nat.le_refl _
    · split
      · split
        · exact Nat.le_refl _
        · exact Nat.le_succ _
      · exact Nat.le_succ _

end Stack.Machine

namespace Console

open Act

def Apart (c : Console) : Prop := ∀ p ∈ c.defined, Word.ofName? p.1 = none

theorem Apart.meaning_name {c : Console} (h : c.Apart) (w : Word) :
    c.meaning? w.name = some (.word w) := by
  have hfind : c.defined.find? (·.1 = w.name) = none := by
    rw [List.find?_eq_none]
    intro p hp he
    have hn := h p hp
    rw [of_decide_eq_true he, ofName?_name] at hn
    cases hn
  rw [meaning?, hfind, ofName?_name, Option.map_some]

/-- Between two tokens, where no word waits, so many values lie on the stack or more, and the words
mean this. -/
structure Poised (meaning : String → Option Meaning) (n : Nat) (d : Desk) : Prop where
  height : n ≤ d.console.interpreter.machine.stack.length
  settled : d.console.Settled
  pending : d.console.pending = none
  words : ∀ token, d.console.meaning? token = meaning token

section Poised

variable {meaning : String → Option Meaning} {n m : Nat} {d : Desk}

theorem Poised.mono (hm : m ≤ n) (h : Poised meaning n d) : Poised meaning m d :=
  ⟨Nat.le_trans hm h.height, h.settled, h.pending, h.words⟩

theorem Poised.atop (h : Poised meaning n d) (below : List Value) :
    Poised meaning n (d.atop below) :=
  ⟨by simpa [Desk.atop] using Nat.le_add_right_of_le h.height,
    ⟨h.settled.printed, h.settled.popWord⟩, h.pending, h.words⟩

end Poised

/-- At a desk, what is laid beneath the stack makes no difference to an act and stays where it is;
so many values are left above it where the act succeeds. -/
def FramesAt {α : Type} (meaning : String → Option Meaning) (below : List Value) (m : Nat)
    (act : Act α) (d : Desk) : Prop :=
  act.run (d.atop below) = ((act.run d).1, (act.run d).2.atop below) ∧
    ∀ a, (act.run d).1 = .ok a → Poised meaning m (act.run d).2

def Frames {α : Type} (meaning : String → Option Meaning) (below : List Value) (n m : Nat)
    (act : Act α) : Prop :=
  ∀ d, Poised meaning n d → FramesAt meaning below m act d

section Frames

variable {α β : Type} {meaning : String → Option Meaning} {below : List Value} {n m k : Nat}

theorem FramesAt.bind {act : Act α} {f : α → Act β} {d : Desk}
    (h : FramesAt meaning below k act d)
    (hf : ∀ a, (act.run d).1 = .ok a → FramesAt meaning below m (f a) (act.run d).2) :
    FramesAt meaning below m (act >>= f) d := by
  obtain ⟨hr, -⟩ := h
  rw [FramesAt, run_bind, run_bind, hr]
  generalize act.run d = x at hf
  obtain ⟨_ | a, e⟩ := x
  · exact ⟨rfl, nofun⟩
  · exact hf a rfl

namespace Frames

theorem bind {act : Act α} {f : α → Act β} (h : Frames meaning below n k act)
    (hf : ∀ a, Frames meaning below k m (f a)) : Frames meaning below n m (act >>= f) :=
  fun d hd => (h d hd).bind fun a ha => hf a _ ((h d hd).2 a ha)

theorem mono {act : Act α} (h : Frames meaning below n k act) (hm : m ≤ k) :
    Frames meaning below n m act :=
  fun d hd => ⟨(h d hd).1, fun a ha => ((h d hd).2 a ha).mono hm⟩

theorem pure (a : α) : Frames meaning below n n (Pure.pure a : Act α) :=
  fun _ hd => ⟨rfl, fun _ _ => hd⟩

theorem fail (token : String) (cause : CommandFault) :
    Frames meaning below n m (Act.fail token cause : Act α) := fun _ _ => ⟨rfl, nofun⟩

theorem look {f : Desk → Act α} (hf : ∀ d, Frames meaning below n m (f d))
    (ho : ∀ d : Desk, f (d.atop below) = f d) : Frames meaning below n m (get >>= f) := by
  intro d hd
  have h := hf d d hd
  rwa [FramesAt, run_get_bind, run_get_bind, ho]

theorem modified {f : Desk → Desk} (ho : ∀ d : Desk, f (d.atop below) = (f d).atop below)
    (hf : ∀ d, Poised meaning n d → Poised meaning n (f d)) :
    Frames meaning below n n (modify f : Act Unit) :=
  fun d hd => ⟨Prod.ext rfl (ho d), fun _ _ => hf d hd⟩

theorem forM {as : List α} (height : Nat → Nat) {f : α → Act Unit}
    (hf : ∀ i (hi : i < as.length), Frames meaning below (height i) (height (i + 1)) (f as[i])) :
    Frames meaning below (height 0) (height as.length) (as.forM f) := by
  induction as generalizing height with
  | nil => exact pure ()
  | cons a as ih =>
      refine (hf 0 (Nat.succ_pos _)).bind fun _ => ?_
      exact ih (fun i => height (i + 1)) fun i hi => hf (i + 1) (Nat.succ_lt_succ hi)

theorem catalog : Frames meaning below n n Act.catalog := fun _ hd => ⟨rfl, fun _ _ => hd⟩

theorem write (text : String) : Frames meaning below n n (Act.write text) :=
  .modified (fun _ => rfl) fun _ hd =>
    ⟨hd.height, ⟨hd.settled.printed, hd.settled.popWord⟩, hd.pending, hd.words⟩

theorem onStudio (f : Studio → Studio) :
    Frames meaning below n n (modify fun d => { d with studio := f d.studio } : Act Unit) :=
  .modified (fun _ => rfl) fun _ hd => ⟨hd.height, hd.settled, hd.pending, hd.words⟩

theorem signal (s : Signal) : Frames meaning below n n (Act.signal s) :=
  .modified (fun _ => rfl) fun _ hd =>
    ⟨hd.height, ⟨hd.settled.printed, hd.settled.popWord⟩, hd.pending, hd.words⟩

theorem seekNow (position : Int) : Frames meaning below n n (Console.seekNow position) :=
  fun _ hd => ⟨rfl, fun _ _ => ⟨hd.height, hd.settled, hd.pending, hd.words⟩⟩

theorem push (v : Value) : Frames meaning below n (n + 1) (Act.push v) := by
  intro d hd
  rw [FramesAt, run_push_value hd.settled.printed, run_push_value (hd.atop below).settled.printed]
  exact ⟨rfl, fun _ _ => ⟨Nat.succ_le_succ hd.height,
    ⟨hd.settled.printed, hd.settled.popWord⟩, hd.pending, hd.words⟩⟩

theorem pop : Frames meaning below (n + 1) n Act.pop := by
  intro d hd
  obtain ⟨v, rest, hs⟩ := List.exists_cons_of_length_pos (Nat.zero_lt_of_lt hd.height)
  have hheight := hd.height
  have ho : (d.atop below).console.interpreter.machine.stack = v :: (rest ++ below) := by
    simp [Desk.atop, hs]
  rw [FramesAt, run_pop_eq hd.settled.popWord hd.settled.printed,
    run_pop_eq (hd.atop below).settled.popWord (hd.atop below).settled.printed, ho, hs]
  rw [hs, List.length_cons] at hheight
  exact ⟨rfl, fun _ _ => ⟨Nat.le_of_succ_le_succ hheight, ⟨rfl, hd.settled.popWord⟩, hd.pending,
    hd.words⟩⟩

theorem popReading (read : List Char → Option α) (word : String)
    (cause : String → CommandFault) :
    Frames meaning below (n + 1) n (Act.popReading read word cause) := by
  refine pop.bind fun v => catalog.bind fun catalog => ?_
  dsimp only
  split
  · exact .pure _
  · exact .fail _ _

theorem popItem (word : String) : Frames meaning below (n + 1) n (Act.popItem word) := by
  refine pop.bind fun v => ?_
  cases v with
  | item handle => exact .pure _
  | literal text => exact .fail _ _

theorem writeItems (hs : List Handle) : Frames meaning below n n (Console.writeItems hs) := by
  rw [writeItems_eq]
  exact forM (fun _ => n) fun _ _ => catalog.bind fun catalog => write _

end Frames

end Frames

namespace Entry

/-- The arguments of a word by its usage, "(", then a name for each of them, then "--". -/
def takes (e : Entry) : List (List Char) :=
  (Text.pieces ' ' (e.usage.toList.drop 1)).takeWhile (!"--".toList.isPrefixOf ·)

end Entry

namespace Word

def pops : Word → Nat
  | pow | insert => 2
  | exit | generation | help | includeScript | next | playing | playlist | position | prev
  | previous | speed | status | store => 0
  | _ => 1

theorem length_takes {w : Word} (hw : w.awaits = false) : w.entry.takes.length = w.pops := by
  revert hw
  cases w <;> decide

end Word

section Words

variable {meaning : String → Option Meaning} {below : List Value} {n : Nat}

/-- A word that pushes no tokens touches the values that it takes off, and none beneath. -/
theorem frames_word {w : Word} (ha : w.awaits = false) (hw : w.pushes = false)
    (push : String → Act Unit) : Frames meaning below (n + w.pops) n (w.run push) := by
  have hplayer (f : Player → Player) : Frames meaning below n n (Act.player f) :=
    .onStudio fun studio => { studio with player := f studio.player }
  -- Heights are lower bounds, so what a word leaves on top need not be counted.
  have hread (text : Desk → String) (ho : ∀ d : Desk, text (d.atop below) = text d) :
      Frames meaning below n n (do Act.pushText (text (← get))) :=
    .look (fun d => (Frames.push _).mono (Nat.le_succ n)) fun d => by rw [ho]
  have happly (f : Float → Float) : Frames meaning below (n + 1) n (applyReal w f) :=
    (Frames.popReading _ _ _).bind fun x => (Frames.push _).mono (Nat.le_succ n)
  cases w with
  | play =>
      refine Frames.pop.bind fun v => Frames.catalog.bind fun catalog => ?_
      cases v with
      | item handle =>
          dsimp only
          split
          · exact hplayer _
          · exact .write _
      | literal text =>
          dsimp only
          split
          · exact .write _
          · exact .pure _
  | add =>
      refine (Frames.popItem _).bind fun handle => Frames.catalog.bind fun catalog => ?_
      split
      · exact hplayer _
      · exact .pure _
  | grab =>
      refine (Frames.popReading _ _ _).bind fun index => .look (fun d => ?_) fun _ => rfl
      refine (hplayer _).bind fun _ => ?_
      split
      · exact (Frames.push _).mono (Nat.le_succ n)
      · exact .pure _
  | insert =>
      exact (Frames.popReading _ _ _).bind fun index => (Frames.popItem _).bind fun handle =>
        hplayer _
  | next | prev => exact hplayer _
  | seek => exact (Frames.popReading _ _ _).bind fun position => .seekNow position
  | setSpeed => exact (Frames.popReading _ _ _).bind fun speed => hplayer _
  | speed | position | generation => exact hread _ fun _ => rfl
  | playing | playlist | previous => exact .look (fun d => .writeItems _) fun _ => rfl
  | render =>
      exact Frames.pop.bind fun v => Frames.catalog.bind fun catalog =>
        (Frames.write _).bind fun _ => (Frames.push v).mono (Nat.le_succ n)
  | props =>
      exact (Frames.popItem _).bind fun handle => Frames.catalog.bind fun catalog =>
        (Frames.write _).bind fun _ => (Frames.push _).mono (Nat.le_succ n)
  | help => exact .look (fun d => .forM (fun _ => n) fun _ _ => .write _) fun _ => rfl
  | logLevel =>
      refine (Frames.popReading _ _ _).bind fun level => ?_
      split
      · exact .onStudio fun studio => { studio with logLevel := _ }
      · exact .fail _ _
  | server =>
      refine (Frames.popReading _ _ _).bind fun port => ?_
      split
      · exact .signal _
      · exact .fail _ _
  | exit => exact .signal _
  | pow =>
      exact (Frames.popReading _ _ _).bind fun y => (Frames.popReading _ _ _).bind fun x =>
        (Frames.push _).mono (Nat.le_succ n)
  | sin | cos | tan => exact happly _
  | status | clone => cases hw
  | store | includeScript => cases ha

/-- A token that is no word looks at what lies on top, and takes nothing off. -/
theorem frames_noWord (levels : Nat) {token : String} (hm : meaning token = none)
    (ht : Stack.Word.ofName? token = none) :
    Frames meaning below (n + 1) (n + 1) (pushAt (levels + 1) token) := by
  intro d hd
  have hs : d.console.interpreter.machine.stack ≠ [] :=
    List.ne_nil_of_length_pos (Nat.zero_lt_of_lt hd.height)
  have hlength := Machine.length_enter token d.studio.catalog d.console.interpreter.machine
  have henter := Machine.enter_atop below hs token d.studio.catalog
  have hatop : (d.atop below).console.interpreter.machine =
      d.console.interpreter.machine.atop below := rfl
  rw [← hd.words] at hm
  rw [FramesAt, run_pushAt_forward levels hd.pending hm,
    run_pushAt_forward levels (hd.atop below).pending hm, run_forward_noWord ht,
    run_forward_noWord ht]
  dsimp only
  rw [hatop, show (d.atop below).studio = d.studio from rfl, henter]
  exact ⟨rfl, fun _ _ =>
    ⟨Nat.le_trans hd.height hlength, ⟨rfl, hd.settled.popWord⟩, hd.pending, hd.words⟩⟩

theorem frames_print (levels : Nat) (hm : meaning "." = some (.word .play)) :
    Frames meaning below (n + 1) n (pushAt (levels + 1) ".") := by
  intro d hd
  have hword : Frames meaning below (n + 1) n (Word.play.run (pushAt levels)) :=
    frames_word (w := .play) rfl rfl _
  rw [← hd.words] at hm
  rw [FramesAt, run_pushAt_word levels hd.pending hm,
    run_pushAt_word levels (hd.atop below).pending hm]
  exact hword d hd

theorem frames_status (levels : Nat) (hm : meaning "." = some (.word .play)) :
    Frames meaning below n n (Word.status.run (pushAt (levels + 1))) := by
  refine .look (fun d => ?_) fun _ => rfl
  have hl : (statusOf d).length = 3 := by
    rw [statusOf]
    split <;> rfl
  have hput : Frames meaning below n (n + (statusOf d).length)
      ((statusOf d).forM fun k => Act.pushText (Number.ofInteger k)) :=
    .forM (fun i => n + i) fun _ _ => .push _
  rw [hl] at hput
  have hprint {k : Nat} : Frames meaning below (k + 1) k (pushAt (levels + 1) ".") :=
    frames_print levels hm
  exact hput.bind fun _ => hprint.bind fun _ => hprint.bind fun _ => hprint.bind fun _ => .pure _

/-- An item is copied by tokens of which none takes anything off, if none of them is a word. -/
theorem framesAt_clone (levels : Nat) {d : Desk} (hd : Poised meaning 1 d)
    (hu : ∀ k, d.console.interpreter.machine.stack.head? = some (.item k) →
      ∀ t ∈ (d.studio.catalog.get k).uri :: (d.studio.catalog.get k).assignments,
        meaning t = none ∧ Stack.Word.ofName? t = none) :
    FramesAt meaning below 0 (Word.clone.run (pushAt (levels + 1))) d := by
  have hlead : Frames meaning below 1 1 Word.clone.lead :=
    (Frames.popItem _).bind fun k => Frames.catalog.bind fun catalog =>
      (Frames.push _).bind fun _ => .pure _
  obtain ⟨v, rest, hs⟩ := List.exists_cons_of_length_pos hd.height
  rw [Word.run_eq_lead]
  refine (hlead d hd).bind fun ts hts => ?_
  have hpoised : Poised meaning 1 (Word.clone.lead.run d).2 := (hlead d hd).2 ts hts
  cases v with
  | literal text =>
      rw [Word.lead, run_bind, Act.popItem, run_bind,
        run_pop_eq hd.settled.popWord hd.settled.printed, hs] at hts
      cases hts
  | item k =>
      rw [run_lead_clone hd.settled hs] at hts
      cases hts
      have htokens := hu k (by rw [hs]; rfl)
      have hpush : Frames meaning below 1 1 (((d.studio.catalog.get k).uri ::
          (d.studio.catalog.get k).assignments).forM (pushAt (levels + 1))) :=
        .forM (fun _ => 1) fun i hi => by
          obtain ⟨hm, ht⟩ := htokens _ (List.getElem_mem hi)
          exact frames_noWord levels hm ht
      exact hpush.mono (Nat.zero_le _) _ hpoised

end Words

/-- A word that collects no tokens touches only its arguments. Where no word waits and at least as
many values lie on the stack as its usage names, more values beneath them make no difference: the
answer is the same, failures included, and so is all that the desk comes to, but for these values,
which lie beneath all the others afterwards as they did before. The word that copies says what the
item on top is spelled with, of which nothing may be a word; nothing is, of an item that tokens have
built, where no words are defined. -/
theorem interpret_atop {w : Word} {d : Desk} (hw : w.awaits = false) (hc : d.console.Settled)
    (hp : d.console.pending = none) (hd : d.console.Apart)
    (hn : w.entry.takes.length ≤ d.console.interpreter.machine.stack.length)
    (hu : ∀ k, w = .clone → d.console.interpreter.machine.stack.head? = some (.item k) →
      ∀ t ∈ (d.studio.catalog.get k).uri :: (d.studio.catalog.get k).assignments,
        d.console.meaning? t = none ∧ Stack.Word.ofName? t = none)
    (below : List Value) :
    (Console.interpret w.name).run (d.atop below) =
      (((Console.interpret w.name).run d).1, ((Console.interpret w.name).run d).2.atop below) := by
  rw [Word.length_takes hw] at hn
  have hpoised : Poised (fun token => d.console.meaning? token) w.pops d :=
    ⟨hn, hc, hp, fun _ => rfl⟩
  have hframes : FramesAt (fun token => d.console.meaning? token) below 0
      (w.run (pushAt (levels - 1))) d := by
    by_cases hpushes : w.pushes = true
    · cases w with
      | status => exact frames_status (levels - 2) (hd.meaning_name .play) d hpoised
      | clone => exact framesAt_clone (levels - 2) hpoised fun k hk => hu k rfl hk
      | _ => cases hpushes
    · refine frames_word hw (by simpa using hpushes) _ d ?_
      rwa [Nat.zero_add]
  have hrun {d : Desk} (hp : d.console.pending = none) (hd : d.console.Apart) :
      (Console.interpret w.name).run d =
        (w.run (pushAt (levels - 1)) >>= fun _ => pure Handling.handled).run d := by
    have hstep := run_interpretWith (pushAt (levels - 1)) w.name d
    rw [hp, hd.meaning_name, idle_eq hp] at hstep
    exact hstep
  rw [hrun hp hd, hrun (hpoised.atop below).pending hd]
  exact (hframes.bind (m := 0) fun a ha => Frames.pure _ _ (hframes.2 a ha)).1

/-- A colour is copied over a number; the number is not seen. -/
theorem interpret_atop_clone :
    let d : Desk :=
      { studio := { catalog := ⟨#[.fresh "colour:red" .colour]⟩ }
        console := { interpreter := { popWord := "dot", machine := { stack := [.item 0] } } } }
    let e := d.atop [.literal "5"]
    d.console.Settled ∧ Word.clone.entry.takes = ["item".toList] ∧
      ((Console.interpret Word.clone.name).run e).1 = .ok .handled ∧
      ((Console.interpret Word.clone.name).run e).2.console.interpreter.machine.stack =
        [.item 1, .item 0, .literal "5"] := by
  intro d e
  have hc : d.console.Settled := ⟨rfl, rfl⟩
  have happart : d.console.Apart := nofun
  have htakes : Word.clone.entry.takes = ["item".toList] := by decide
  have hi : Uri.openItem "colour:red" = .ok (.fresh "colour:red" .colour) := by decide +kernel
  have hb : Built (.fresh "colour:red" .colour) := .opened (by decide) (by decide) hi
  have hspelled (token : String)
      (ht : token ∈ (d.studio.catalog.get 0).uri :: (d.studio.catalog.get 0).assignments) :
      d.console.meaning? token = none ∧ Stack.Word.ofName? token = none := by
    have hword := noWord_of_built hb ht
    exact ⟨congrArg (Option.map Meaning.word) hword.console, hword.machine⟩
  have hrun := interpret_atop (w := .clone) (d := d) rfl hc rfl happart (by rw [htakes]; decide)
    (fun k _ hk => by cases hk; exact hspelled) [.literal "5"]
  refine ⟨hc, htakes, ?_⟩
  rw [hrun]
  decide +kernel

/-- An item whose URI is a word of the machine is copied by doing what the word does, here with the
number beneath it. -/
theorem interpret_clone_swaps :
    ¬∀ (w : Word) (d : Desk) (below : List Value), w.awaits = false → d.console.Settled →
      d.console.pending = none → d.console.Apart →
      w.entry.takes.length ≤ d.console.interpreter.machine.stack.length →
      (Console.interpret w.name).run (d.atop below) =
        (((Console.interpret w.name).run d).1,
          ((Console.interpret w.name).run d).2.atop below) := by
  intro h
  let d : Desk :=
    { studio := { catalog := ⟨#[.fresh "swap" .testPattern]⟩ }
      console := { interpreter := { popWord := "dot", machine := { stack := [.item 0] } } } }
  have hrun := h .clone d [.literal "5"] rfl ⟨rfl, rfl⟩ rfl nofun (by decide)
  have hstack := congrArg (·.2.console.interpreter.machine.stack) hrun
  revert hstack
  decide +kernel

end Console

end Playout
