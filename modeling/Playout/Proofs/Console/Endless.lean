import Playout.Proofs.Console.Opening

namespace Playout

open Media Stack

namespace Act

variable {α β : Type}

/-- Whatever becomes of the act, it comes back. -/
def Ends (act : Act α) : Prop := ∀ d, (act.run d).1 ≠ .error .endless

namespace Ends

theorem pure (a : α) : Ends (Pure.pure a : Act α) := fun _ => nofun

theorem fail (token : String) (cause : CommandFault) : Ends (Act.fail token cause : Act α) :=
  fun _ => nofun

theorem bind {act : Act α} {f : α → Act β} (h : Ends act) (hf : ∀ a, Ends (f a)) :
    Ends (act >>= f) := by
  intro d
  have hd := h d
  rw [run_bind]
  generalize act.run d = x at hd ⊢
  obtain ⟨_ | a, e⟩ := x
  · rintro ⟨⟩
    exact hd rfl
  · exact hf a e

theorem look {f : Desk → Act α} (hf : ∀ d, Ends (f d)) : Ends (get >>= f) := fun d => hf d d

theorem modify (f : Desk → Desk) : Ends (modify f : Act Unit) := fun _ => nofun

theorem forM {f : α → Act Unit} (hf : ∀ a, Ends (f a)) (as : List α) : Ends (as.forM f) := by
  induction as with
  | nil => exact pure ()
  | cons a as ih => exact (hf a).bind fun _ => ih

theorem catalog : Ends Act.catalog := fun _ => nofun

theorem write (text : String) : Ends (Act.write text) := modify _

theorem forward (token : String) : Ends (Act.forward token) := by
  intro d
  rw [Act.forward, Console.run_interpreter, Interpreter.push]
  dsimp only [Interpreter.check]
  split <;> rintro ⟨⟩

theorem push (v : Value) : Ends (Act.push v) := by
  intro d
  rw [Act.push, Console.run_interpreter, Interpreter.pushValue]
  dsimp only [Interpreter.check]
  split <;> nofun

theorem pop : Ends Act.pop := by
  intro d
  have hpush := forward d.console.interpreter.popWord d
  rw [Act.forward, Console.run_interpreter] at hpush
  rw [Act.pop, Console.run_interpreter, Interpreter.pop]
  generalize d.console.interpreter.push d.console.interpreter.popWord d.studio.catalog = x
    at hpush ⊢
  obtain ⟨_ | _, _, i⟩ := x
  · rintro ⟨⟩
    exact hpush rfl
  · dsimp only
    cases i.machine.takeSlot.1 <;> rintro ⟨⟩

theorem popReading (read : List Char → Option α) (word : String)
    (cause : String → CommandFault) : Ends (Act.popReading read word cause) := by
  refine pop.bind fun v => catalog.bind fun catalog => ?_
  dsimp only
  split
  · exact .pure _
  · exact .fail _ _

theorem popItem (word : String) : Ends (Act.popItem word) := by
  refine pop.bind fun v => ?_
  cases v with
  | item handle => exact .pure _
  | literal text => exact .fail _ _

theorem writeItems (hs : List Handle) : Ends (Console.writeItems hs) := by
  rw [Console.writeItems_eq]
  exact forM (fun _ => catalog.bind fun catalog => write _) hs

/-- What a word does by itself comes to its end. -/
theorem word {push : String → Act Unit} (hpush : ∀ token, Ends (push token)) (w : Console.Word) :
    Ends (w.run push) := by
  cases w with
  | play =>
      refine pop.bind fun v => catalog.bind fun catalog => ?_
      cases v with
      | item handle =>
          dsimp only
          split
          · exact .modify _
          · exact .write _
      | literal text =>
          dsimp only
          split
          · exact .write _
          · exact .pure _
  | add =>
      refine (popItem _).bind fun handle => catalog.bind fun catalog => ?_
      split
      · exact .modify _
      · exact .pure _
  | grab =>
      refine (popReading _ _ _).bind fun index => .look fun d => ?_
      refine (modify _).bind fun _ => ?_
      split
      · exact .push _
      · exact .pure _
  | insert => exact (popReading _ _ _).bind fun index => (popItem _).bind fun handle => .modify _
  | next | prev | exit => exact .modify _
  | seek => exact (popReading _ _ _).bind fun position => fun _ => nofun
  | setSpeed => exact (popReading _ _ _).bind fun speed => .modify _
  | speed | position | generation => exact .look fun d => .push _
  | status => exact .look fun d => (forM (fun n => .push _) _).bind fun _ => .forM hpush _
  | playing | playlist | previous => exact .look fun d => .writeItems _
  | render =>
      exact pop.bind fun v => catalog.bind fun catalog => (write _).bind fun _ => .push v
  | props =>
      exact (popItem _).bind fun handle => catalog.bind fun catalog =>
        (write _).bind fun _ => .push _
  | clone =>
      exact (popItem _).bind fun handle => catalog.bind fun catalog => (Ends.push _).bind fun _ =>
        (hpush _).bind fun _ => .forM hpush _
  | store | includeScript => exact .modify _
  | help => exact .look fun d => .forM (fun text => .write text) _
  | logLevel =>
      refine (popReading _ _ _).bind fun n => ?_
      split
      · exact .modify _
      · exact .fail _ _
  | server =>
      refine (popReading _ _ _).bind fun port => ?_
      split
      · exact .modify _
      · exact .fail _ _
  | pow => exact (popReading _ _ _).bind fun y => (popReading _ _ _).bind fun x => .push _
  | sin | cos | tan => exact (popReading _ _ _).bind fun x => .push _

end Ends

end Act

namespace Console

open Act

theorem ends_lead (w : Word) : Ends w.lead := by
  cases w with
  | status => exact .look fun d => (Ends.forM (fun n => .push _) _).bind fun _ => .pure _
  | clone =>
      exact (Ends.popItem _).bind fun handle => Ends.catalog.bind fun catalog =>
        (Ends.push _).bind fun _ => .pure _
  | _ => exact (Ends.word (fun _ => .pure _) _).bind fun _ => .pure _

theorem ends_assignStore (given : String) : Ends (assignStore given) := by
  rw [assignStore]
  split
  · exact .fail _ _
  · dsimp only
    split
    · exact Ends.pop.bind fun v => Ends.catalog.bind fun catalog =>
        (Ends.pure _).bind fun value => .modify _
    · exact (Ends.pure _).bind fun value => .modify _

theorem ends_readScript (name : String) : Ends (readScript name) := by
  refine .look fun d => ?_
  split
  · exact .fail _ _
  · split
    · exact .fail _ _
    · split
      · exact fun _ => nofun
      · exact .pure _

/-- What a token does by itself comes to its end; without end is only what it hands on. -/
theorem ends_opening (pending : Option Pending) (meaning : Option Meaning) (token : String) :
    Ends (opening pending meaning token) := by
  rcases pending with _ | _ | given
  · rcases meaning with _ | w | ts
    · exact (Ends.forward token).bind fun _ => .pure _
    · exact (ends_lead w).bind fun _ => .pure _
    · exact .pure _
  · exact (ends_readScript token).bind fun _ => .pure _
  · refine Ends.bind ?_ fun _ => .pure _
    rw [feed]
    split
    · exact .forM ends_assignStore given
    · exact .modify _

end Console

end Playout
