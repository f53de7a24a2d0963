import Playout.Proofs.Console.Opening
import Playout.Proofs.Player.Holding
import Playout.Proofs.Stack.Tied

namespace Playout

open Media Stack

namespace Act

variable {α β α' β' : Type} {R : Desk → Desk → Prop} {S : α → α' → Prop} {T : β → β' → Prop}

inductive Answers (S : α → α' → Prop) : Except Fault α → Except Fault α' → Prop
  | ok {a : α} {a' : α'} (h : S a a') : Answers S (.ok a) (.ok a')
  | error (fault : Fault) : Answers S (.error fault) (.error fault)

theorem Answers.eq {r r' : Except Fault α} (h : Answers Eq r r') : r = r' := by
  cases h with
  | ok h => rw [h]
  | error => rfl

theorem answers_eq (r : Except Fault α) : Answers Eq r r := by
  cases r with
  | ok => exact .ok rfl
  | error => exact .error _

def Meets (R : Desk → Desk → Prop) (S : α → α' → Prop) (act : Act α) (act' : Act α') (d e : Desk) :
    Prop :=
  Answers S (act.run d).1 (act'.run e).1 ∧ R (act.run d).2 (act'.run e).2

theorem Meets.bind {act : Act α} {act' : Act α'} {f : α → Act β} {f' : α' → Act β'} {d e : Desk}
    (h : Meets R S act act' d e)
    (hf : ∀ a a', S a a' → (act'.run e).1 = .ok a' →
      Meets R T (f a) (f' a') (act.run d).2 (act'.run e).2) :
    Meets R T (act >>= f) (act' >>= f') d e := by
  obtain ⟨hr, hs⟩ := h
  rw [Meets, run_bind, run_bind]
  generalize act.run d = x at hr hs hf
  generalize act'.run e = y at hr hs hf
  obtain ⟨r, d⟩ := x
  obtain ⟨r', e⟩ := y
  dsimp only at hr hs hf
  cases hr with
  | ok ha => exact hf _ _ ha rfl
  | error fault => exact ⟨.error fault, hs⟩

theorem meets_eq_iff {act : Act α} {d e : Desk} : Meets R Eq act act d e ↔ Agrees R act d e := by
  constructor
  · exact fun h => ⟨h.1.eq, h.2⟩
  · rintro ⟨hr, hs⟩
    exact ⟨hr ▸ answers_eq _, hs⟩

/-- Desks in the relation get answers that go together and come to desks in it. -/
def Pairs (R : Desk → Desk → Prop) (S : α → α' → Prop) (act : Act α) (act' : Act α') : Prop :=
  ∀ ⦃d e⦄, R d e → Meets R S act act' d e

namespace Pairs

theorem respects {act : Act α} (h : Pairs R Eq act act) : Respects R act :=
  fun _ _ hd => meets_eq_iff.1 (h hd)

theorem pure {a : α} {a' : α'} (h : S a a') : Pairs R S (Pure.pure a) (Pure.pure a') :=
  fun _ _ hd => ⟨.ok h, hd⟩

theorem fail (token : String) (cause : CommandFault) :
    Pairs R S (Act.fail token cause) (Act.fail token cause) :=
  fun _ _ hd => ⟨.error _, hd⟩

theorem bind {act : Act α} {act' : Act α'} {f : α → Act β} {f' : α' → Act β'}
    (ha : Pairs R S act act') (hf : ∀ a a', S a a' → Pairs R T (f a) (f' a')) :
    Pairs R T (act >>= f) (act' >>= f') :=
  fun _ _ hd => (ha hd).bind fun a a' h _ => hf a a' h (ha hd).2

theorem look {f : Desk → Act α} {f' : Desk → Act α'}
    (h : ∀ ⦃d e⦄, R d e → Meets R S (f d) (f' e) d e) : Pairs R S (get >>= f) (get >>= f') :=
  fun _ _ hd => h hd

theorem catalog {f : Catalog → Act α} {f' : Catalog → Act α'}
    (h : ∀ ⦃d e⦄, R d e → Pairs R S (f d.studio.catalog) (f' e.studio.catalog)) :
    Pairs R S (Act.catalog >>= f) (Act.catalog >>= f') := by
  intro d e hd
  rw [Meets, run_bind, run_bind, Console.run_catalog, Console.run_catalog]
  exact h hd hd

theorem modify {f : Desk → Desk} (h : ∀ ⦃d e⦄, R d e → R (f d) (f e)) :
    Pairs R Eq (modify f : Act Unit) (modify f) := fun _ _ hd => ⟨.ok rfl, h hd⟩

theorem forM {f : α → Act Unit} (hf : ∀ a, Pairs R Eq (f a) (f a)) (as : List α) :
    Pairs R Eq (as.forM f) (as.forM f) := by
  induction as with
  | nil => exact pure rfl
  | cons a as ih => exact (hf a).bind fun _ _ _ => ih

end Pairs

end Act

namespace Console

open Act

def Word.publishes : Word → Bool
  | grab | seek | speed | position | status | generation | playing | playlist | previous | add | insert
  | includeScript => true
  | _ => false

/-- What a word that does not publish needs of a relation: it holds values together, and the player
may come to hold fewer items but no others. -/
structure Grip (R : Desk → Desk → Prop) (ρ : Handle → Handle → Prop) : Prop where
  same : ∀ {d e h k}, R d e → ρ h k → d.studio.catalog.get h = e.studio.catalog.get k
  defined : ∀ {d e}, R d e → d.console.defined = e.console.defined
  pop : Pairs R (Tie ρ) Act.pop Act.pop
  push : ∀ {v w}, Tie ρ v w → Pairs R Eq (Act.push v) (Act.push w)
  write : ∀ text, Pairs R Eq (Act.write text) (Act.write text)
  player : ∀ f : Player → Player, (∀ p h, (f p).Holds h → p.Holds h) →
    Pairs R Eq (Act.player f) (Act.player f)
  collect : ∀ given, Pairs R Eq (Act.await (.assignments given)) (Act.await (.assignments given))
  signal : ∀ s, Pairs R Eq (Act.signal s) (Act.signal s)
  logLevel : ∀ level, Pairs R Eq (modify fun d => { d with studio.logLevel := level } : Act Unit)
    (modify fun d => { d with studio.logLevel := level })

namespace Grip

variable {R : Desk → Desk → Prop} {ρ : Handle → Handle → Prop} (h : Grip R ρ)

include h

theorem text {d e : Desk} (hd : R d e) {v w : Value} (hv : Tie ρ v w) :
    v.text d.studio.catalog = w.text e.studio.catalog := by
  cases hv with
  | literal text => rfl
  | item hr => exact congrArg Item.uri (h.same hd hr)

theorem render {d e : Desk} (hd : R d e) {v w : Value} (hv : Tie ρ v w) :
    v.render d.studio.catalog = w.render e.studio.catalog := by
  cases hv with
  | literal text => rfl
  | item hr => exact congrArg Item.render (h.same hd hr)

theorem popReading {α : Type} (read : List Char → Option α) (word : String)
    (cause : String → CommandFault) :
    Pairs R Eq (Act.popReading read word cause) (Act.popReading read word cause) := by
  refine h.pop.bind fun v w hv => .catalog fun d e hd => ?_
  rw [h.text hd hv]
  dsimp only
  split
  · exact .pure rfl
  · exact .fail _ _

theorem popInteger (word : String) : Pairs R Eq (Act.popInteger word) (Act.popInteger word) :=
  h.popReading _ _ _

theorem popReal (word : String) : Pairs R Eq (Act.popReal word) (Act.popReal word) :=
  h.popReading _ _ _

theorem popItem (word : String) : Pairs R ρ (Act.popItem word) (Act.popItem word) := by
  refine h.pop.bind fun v w hv => ?_
  cases hv with
  | literal text => exact .fail _ _
  | item hr => exact .pure hr

theorem pushText (text : String) : Pairs R Eq (Act.pushText text) (Act.pushText text) :=
  h.push (.literal text)

theorem word {w : Word} (hplay : w ≠ .play) (hpush : w.pushes = false)
    (hpublish : w.publishes = false) (push : String → Act Unit) :
    Pairs R Eq (w.run push) (w.run push) := by
  have hdeck (f : Deck → Deck) (hf : ∀ d, (f d).timeline = d.timeline) :
      Pairs R Eq (Act.deck f) (Act.deck f) := by
    refine h.player _ fun p k hk => ?_
    rw [Player.Holds, Player.onDeck, hf] at hk
    exact hk
  cases w with
  | pow =>
      exact (h.popReal _).bind fun y _ he => he ▸ (h.popReal _).bind fun x _ he =>
        he ▸ h.pushText _
  | sin | cos | tan => exact (h.popReal _).bind fun x _ he => he ▸ h.pushText _
  | exit => exact h.signal _
  | help =>
      refine .look fun d e hd => ?_
      rw [helpLines, helpLines, vocabulary, vocabulary, h.defined hd]
      exact Pairs.forM (fun text => h.write text) _ hd
  | logLevel =>
      refine (h.popInteger _).bind fun n _ he => ?_
      subst he
      split
      · exact h.logLevel _
      · exact .fail _ _
  | next => exact hdeck _ Deck.timeline_next
  | prev => exact hdeck _ Deck.timeline_prev
  | setSpeed => exact (h.popInteger _).bind fun speed _ he => he ▸ hdeck _ (Deck.timeline_setSpeed _)
  | props =>
      refine (h.popItem _).bind fun k k' hk => .catalog fun d e hd => ?_
      rw [h.same hd hk]
      exact (h.write _).bind fun _ _ _ => h.push (.item hk)
  | render =>
      refine h.pop.bind fun v w hv => .catalog fun d e hd => ?_
      rw [h.render hd hv]
      exact (h.write _).bind fun _ _ _ => h.push hv
  | server =>
      refine (h.popInteger _).bind fun port _ he => ?_
      subst he
      split
      · exact h.signal _
      · exact .fail _ _
  | store => exact h.collect _
  | play => exact absurd rfl hplay
  | status | clone => cases hpush
  | _ => cases hpublish

theorem assignStore (given : String) :
    Pairs R Eq (Console.assignStore given) (Console.assignStore given) := by
  have hplayer (name value : String) : Pairs R Eq
      (Act.player fun p => (p.setStoreProperty name value).2)
      (Act.player fun p => (p.setStoreProperty name value).2) :=
    h.player _ fun _ _ hk => hk.setStoreProperty
  rw [Console.assignStore]
  split
  · exact .fail _ _
  · dsimp only
    split
    · refine h.pop.bind fun v w hv => .catalog fun d e hd => ?_
      rw [h.text hd hv]
      exact (Pairs.pure rfl).bind fun value _ he => he ▸ hplayer _ _
    · exact (Pairs.pure rfl).bind fun value _ he => he ▸ hplayer _ _

end Grip

end Console

end Playout
