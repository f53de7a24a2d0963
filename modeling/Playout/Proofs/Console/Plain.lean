import Playout.Proofs.Console.Residue

namespace Playout

open Media

namespace Console

open Act Stack

/-- The console waits for nothing and has no words of its own; it has raised these signals, and the
player is one of a kind. -/
structure Plain (K : Player → Prop) (signals : List Signal) (d : Desk) : Prop where
  printed : d.console.interpreter.machine.printed = ""
  popWord : d.console.interpreter.popWord = "dot"
  pending : d.console.pending = none
  signals : d.console.signals = signals
  defined : d.console.defined = []
  player : K d.studio.player

theorem ofName?_name (w : Word) : Word.ofName? w.name = some w := by
  cases w <;> decide

theorem name_of_ofName? {token : String} {w : Word} (h : Word.ofName? token = some w) :
    w.name = token := by
  simpa using List.find?_some h

section Plain

variable {K : Player → Prop} {signals : List Signal} {d : Desk}

theorem Plain.mono {K' : Player → Prop} (h : Plain K signals d) (hk : K' d.studio.player) :
    Plain K' signals d :=
  ⟨h.printed, h.popWord, h.pending, h.signals, h.defined, hk⟩

theorem plain_interpreter {α : Type}
    {f : Catalog → Interpreter → Except Fault α × Catalog × Interpreter}
    (hf : ∀ catalog i, i.popWord = "dot" → i.machine.printed = "" →
      (f catalog i).2.2.popWord = "dot" ∧ (f catalog i).2.2.machine.printed = "") :
    Respects (Within (Plain K signals)) (Act.interpreter f) := by
  refine .of_keeps fun d h => ?_
  obtain ⟨hw, hp⟩ := hf d.studio.catalog d.console.interpreter h.popWord h.printed
  exact ⟨hp, hw, h.pending, h.signals, h.defined, h.player⟩

theorem plain_forward (token : String) :
    Respects (Within (Plain K signals)) (Act.forward token) :=
  plain_interpreter fun _ _ hw _ => ⟨hw, rfl⟩

theorem run_pop (h : Plain K signals d) :
    Act.pop.run d =
      match d.console.interpreter.machine.stack with
      | [] => (.error (.command "dot" (.machine .underflow)),
          { d with console.interpreter.machine.fault := some .underflow })
      | v :: stack => (.ok v, { d with console.interpreter.machine := { stack } }) :=
  run_pop_eq h.popWord h.printed

theorem footing_plain (K : Player → Prop) (signals : List Signal) :
    Footing (Within (Plain K signals)) where
  studio h := by rw [h.1]
  defined h := by rw [h.1]
  logLevel level := .of_keeps fun _ h => ⟨h.printed, h.popWord, h.pending, h.signals, h.defined, h.player⟩
  write text := .of_keeps fun _ h => ⟨h.printed, h.popWord, h.pending, h.signals, h.defined, h.player⟩
  push v := plain_interpreter fun _ _ hw _ => ⟨hw, rfl⟩
  pop := plain_interpreter fun catalog i hw hp => Interpreter.settled_pop hw hp catalog

/-- A word that neither waits, nor signals, nor pushes leaves the console plain, and the player alone
unless it tells the player something. -/
theorem plain_word (push : String → Act Unit) {w : Word} (hpush : w.pushes = false)
    (hawait : w.awaits = false) (hsignal : w.signals = false)
    (hk : w.transports = true → ∀ p, K p) : Respects (Within (Plain K signals)) (w.run push) := by
  have hplayer (hw : w.transports = true) {d : Desk} (h : Plain K signals d) (studio : Studio) :
      Plain K signals { d with studio } :=
    ⟨h.printed, h.popWord, h.pending, h.signals, h.defined, hk hw _⟩
  refine (footing_plain K signals).word ?_ (fun hw f => ?_) (fun hw position => ?_) ?_ ?_
  · simp [hpush]
  · exact .of_keeps fun d h => hplayer hw h _
  · refine .of_keeps fun d h => ?_
    rw [run_seekNow]
    exact hplayer hw h _
  · simp [hawait]
  · simp [hsignal]

theorem Plain.meaning_eq (h : Plain K signals d) (token : String) :
    d.console.meaning? token = (Word.ofName? token).map .word := by
  simp [meaning?, h.defined]

theorem Plain.meaning_word (h : Plain K signals d) (w : Word) :
    d.console.meaning? w.name = some (.word w) := by
  rw [h.meaning_eq, ofName?_name, Option.map_some]

/-- A token that is no word of the console goes to the machine. -/
theorem plain_pushAt (n : Nat) {token : String} (ht : Word.ofName? token = none) :
    Respects (Within (Plain K signals)) (pushAt (n + 1) token) := by
  refine .of_keeps fun d h => ?_
  rw [run_pushAt_forward n h.pending (by rw [h.meaning_eq, ht, Option.map_none])]
  exact (plain_forward token).keeps h

theorem run_pushText (h : Plain K signals d) (text : String) :
    ∃ e, (Act.pushText text).run d = (.ok (), e) ∧ Plain K signals e ∧
      e.console.interpreter.machine.stack =
        .literal text :: d.console.interpreter.machine.stack :=
  ⟨_, rfl, ((footing_plain K signals).pushText text).keeps h, rfl⟩

theorem run_pushTexts (h : Plain K signals d) (texts : List String) :
    ∃ e, (texts.forM Act.pushText).run d = (.ok (), e) ∧ Plain K signals e ∧
      e.console.interpreter.machine.stack =
        texts.reverse.map .literal ++ d.console.interpreter.machine.stack := by
  induction texts generalizing d with
  | nil => exact ⟨d, rfl, h, rfl⟩
  | cons text texts ih =>
      obtain ⟨e, he, hp, hs⟩ := run_pushText h text
      obtain ⟨e', he', hp', hs'⟩ := ih hp
      rw [List.forM_eq_forM] at he' ⊢
      refine ⟨e', ?_, hp', ?_⟩
      · rw [List.forM_cons, run_bind, he]
        exact he'
      · rw [hs', hs]
        simp

theorem run_pushAt_print (n : Nat) (h : Plain K signals d) {text : String} {stack : List Value}
    (hs : d.console.interpreter.machine.stack = .literal text :: stack) :
    ∃ e, (pushAt (n + 1) Word.play.name).run d = (.ok (), e) ∧ Plain K signals e ∧
      e.console.interpreter.machine.stack = stack := by
  rw [run_pushAt_word n h.pending (h.meaning_word .play), Word.run, run_bind, run_pop h, hs]
  dsimp only
  rw [run_bind]
  have hp : Plain K signals { d with console.interpreter.machine := { stack } } :=
    ⟨rfl, h.popWord, h.pending, h.signals, h.defined, h.player⟩
  by_cases ht : text = ""
  · subst ht
    exact ⟨_, rfl, hp, rfl⟩
  · simp only [ne_eq, ht, not_false_eq_true, if_true]
    exact ⟨_, rfl, ((footing_plain K signals).write text).keeps hp, rfl⟩

theorem run_pushAt_prints (n : Nat) (h : Plain K signals d) {texts : List String}
    {stack : List Value}
    (hs : d.console.interpreter.machine.stack = texts.map .literal ++ stack) :
    ∃ e, ((List.replicate texts.length Word.play.name).forM (pushAt (n + 1))).run d = (.ok (), e) ∧
      Plain K signals e := by
  induction texts generalizing d with
  | nil => exact ⟨d, rfl, h⟩
  | cons text texts ih =>
      obtain ⟨e, he, hp, hs⟩ := run_pushAt_print n h hs
      obtain ⟨e', he', hp'⟩ := ih hp hs
      refine ⟨e', ?_, hp'⟩
      rw [List.forM_eq_forM] at he' ⊢
      rw [List.length_cons, List.replicate_succ, List.forM_cons, run_bind, he]
      exact he'

theorem plain_status (n : Nat) :
    Respects (Within (Plain K signals)) (Word.status.run (pushAt (n + 1))) := by
  refine .of_keeps fun d h => ?_
  let texts := (statusOf d).map Number.ofInteger
  obtain ⟨e, he, hp, hs⟩ := run_pushTexts h texts
  have hl : texts.reverse.length = 3 := by
    simp only [texts, List.length_reverse, List.length_map, statusOf]
    split <;> rfl
  obtain ⟨e', he', hp'⟩ := run_pushAt_prints n hp hs
  rw [hl] at he'
  have hrun : (Word.status.run (pushAt (n + 1))).run d = (.ok (), e') := by
    rw [Word.run, run_get_bind, run_bind]
    rw [List.forM_eq_forM, List.forM_map] at he
    rw [List.forM_eq_forM, he]
    exact he'
  rw [hrun]
  exact hp'

theorem popItem_eq_ok (h : Plain K signals d) {word : String} {handle : Handle}
    (hr : ((Act.popItem word).run d).1 = .ok handle) :
    d.console.interpreter.machine.stack.head? = some (.item handle) ∧
      ((Act.popItem word).run d).2.studio = d.studio := by
  rw [Act.popItem, run_bind, run_pop h] at hr ⊢
  cases hs : d.console.interpreter.machine.stack with
  | nil =>
      rw [hs] at hr
      cases hr
  | cons v stack =>
      rw [hs] at hr
      cases v with
      | literal text => cases hr
      | item k =>
          cases hr
          exact ⟨rfl, rfl⟩

theorem plain_clone (n : Nat) (h : Plain K signals d)
    (hu : ∀ handle, d.console.interpreter.machine.stack.head? = some (.item handle) →
      Word.ofName? (d.studio.catalog.get handle).uri = none) :
    Plain K signals ((Word.clone.run (pushAt (n + 1))).run d).2 := by
  have hp := ((footing_plain K signals).popItem Word.clone.name).keeps h
  have hok (handle : Handle) (hr : ((Act.popItem Word.clone.name).run d).1 = .ok handle) :=
    popItem_eq_ok h hr
  rw [Word.run, run_bind]
  generalize (Act.popItem Word.clone.name).run d = popped at hp hok ⊢
  obtain ⟨r, e⟩ := popped
  cases r with
  | error fault => exact hp
  | ok handle =>
      obtain ⟨hs, hd⟩ := hok handle rfl
      have hitem := (footing_plain K signals).push (.item handle)
      have huri : Respects (Within (Plain K signals))
          (pushAt (n + 1) (e.studio.catalog.get handle).uri) :=
        plain_pushAt n (hd ▸ hu handle hs)
      have hline : Respects (Within (Plain K signals))
          ((e.studio.catalog.get handle).assignments.forM (pushAt (n + 1))) :=
        .forM_of_mem fun given hg => plain_pushAt n (noWord_of_mem_assignments hg).console
      dsimp only
      rw [run_bind, run_catalog]
      exact (hitem.bind fun _ => huri.bind fun _ => hline).keeps hp

end Plain

end Console

end Playout
