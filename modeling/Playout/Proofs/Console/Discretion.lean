import Playout.Proofs.Console.Grip
import Playout.Proofs.Console.Plain

namespace Playout

open Media Stack

namespace Console

open Act

/-- Consoles whose stacks go together. What is in `reach` here is not theirs, and the player here
holds nothing else. -/
structure Tied (reach : Handle → Prop) (ρ : Handle → Handle → Prop) (d e : Desk) : Prop where
  interpreter : d.console.interpreter.Tied ρ e.console.interpreter
  paired : Paired ρ d.studio.catalog e.studio.catalog
  apart : ∀ h, reach h → h < d.studio.catalog.items.size ∧ ∀ k, ¬ρ h k
  held : ∀ h, d.studio.player.Holds h → reach h
  pending : d.console.pending = e.console.pending
  listening : e.console.pending ≠ some .script
  signals : d.console.signals = e.console.signals
  defined : d.console.defined = [] ∧ e.console.defined = []
  named : ∀ {h k}, ρ h k → Word.ofName? (e.studio.catalog.get k).uri = none

namespace Tied

variable {reach : Handle → Prop} {ρ : Handle → Handle → Prop}

theorem grip : Grip (Tied reach ρ) ρ where
  same hd hr := hd.paired.same hr
  defined hd := hd.defined.1.trans hd.defined.2.symm
  pop := by
    intro d e hd
    have hi := hd.interpreter
    rw [Meets, run_pop_eq hi.popWord.1 hi.printed.1, run_pop_eq hi.popWord.2 hi.printed.2]
    have hs := hi.stack
    cases hx : d.console.interpreter.machine.stack with
    | nil =>
        rw [hx, List.forall₂_nil_left_iff] at hs
        rw [hs]
        exact ⟨.error _, { hd with interpreter := { hi with } }⟩
    | cons v stack =>
        rw [hx, List.forall₂_cons_left_iff] at hs
        obtain ⟨w, stack', hv, hs, hy⟩ := hs
        rw [hy]
        exact ⟨.ok hv, { hd with interpreter := ⟨hs, ⟨rfl, rfl⟩, hi.output, hi.popWord⟩ }⟩
  push hv d e hd :=
    ⟨.ok rfl, { hd with
      interpreter := hd.interpreter.pushValue hv d.studio.catalog e.studio.catalog }⟩
  write text := .modify fun d e hd => { hd with interpreter := hd.interpreter.write text }
  player f hf := .modify fun d e hd => { hd with held := fun h hh => hd.held h (hf _ h hh) }
  collect given := .modify fun d e hd => { hd with pending := rfl, listening := by simp }
  signal s := .modify fun d e hd => { hd with signals := congrArg (· ++ [s]) hd.signals }
  logLevel level := .modify fun d e hd => { hd with }

theorem idle {d e : Desk} (hd : Tied reach ρ d e) :
    Tied reach ρ { d with console := d.console.idle } { e with console := e.console.idle } :=
  { hd with pending := rfl, listening := by simp [Console.idle] }

theorem pop_ok {d e : Desk} (hd : Tied reach ρ d e) {w : Value} (h : (Act.pop.run e).1 = .ok w) :
    (∃ below, e.console.interpreter.machine.stack = w :: below) ∧
      (Act.pop.run e).2.studio.catalog = e.studio.catalog := by
  rw [run_pop_eq hd.interpreter.popWord.2 hd.interpreter.printed.2] at h ⊢
  cases hs : e.console.interpreter.machine.stack with
  | nil =>
      rw [hs] at h
      cases h
  | cons v stack =>
      rw [hs] at h
      cases h
      exact ⟨⟨stack, rfl⟩, rfl⟩

theorem play {d e : Desk} (hd : Tied reach ρ d e)
    (hf : ∀ h below, e.console.interpreter.machine.stack = .item h :: below →
      (e.studio.catalog.get h).frames = 0) (push : String → Act Unit) :
    Meets (Tied reach ρ) Eq (Word.play.run push) (Word.play.run push) d e := by
  refine (grip.pop hd).bind fun v w hv hw => ?_
  obtain ⟨⟨below, hs⟩, hc⟩ := hd.pop_ok hw
  have hd := (grip.pop hd).2
  rw [Meets, run_bind, run_bind, run_catalog, run_catalog]
  dsimp only
  cases hv with
  | literal text =>
      dsimp only
      split
      · exact grip.write _ hd
      · exact Pairs.pure rfl hd
  | @item h k hr =>
      have hnone : ((Act.pop.run e).2.studio.catalog.get k).frames = 0 := by
        rw [hc]
        exact hf k below hs
      dsimp only
      rw [grip.same hd hr, grip.render hd (.item hr), hnone]
      exact grip.write _ hd

theorem clone : Pairs (Tied reach ρ) (fun ts ts' => ts = ts' ∧ ∀ t ∈ ts', Word.ofName? t = none)
    Word.clone.lead Word.clone.lead := by
  refine (grip.popItem _).bind fun h k hr => .catalog fun d e hd => ?_
  have hn := hd.named hr
  rw [hd.paired.same hr]
  refine (grip.push (.item hr)).bind fun _ _ _ => .pure ⟨rfl, fun t ht => ?_⟩
  rcases List.mem_cons.1 ht with rfl | ht
  · exact hn
  · exact (noWord_of_mem_assignments ht).console

end Tied

def Alongside (reach : Handle → Prop) (d e : Desk) : Prop := ∃ ρ, Tied reach ρ d e

section Alongside

variable {reach : Handle → Prop} {d e : Desk} {token : String}

theorem Tied.forward {ρ : Handle → Handle → Prop} (hd : Tied reach ρ d e)
    (hn : Word.ofName? token = none) : Agrees (Alongside reach) (Act.forward token) d e := by
  have he := d.console.interpreter.effect_push token d.studio.catalog
  obtain ⟨hr, ρ', hx, hp, hi⟩ := hd.interpreter.push hd.paired token
  rw [Agrees, Act.forward, run_interpreter, run_interpreter]
  refine ⟨hr, ρ', { hd with interpreter := hi, paired := hp, apart := ?_, named := ?_ }⟩
  · intro h hh
    obtain ⟨hlt, hnot⟩ := hd.apart h hh
    refine ⟨Nat.lt_of_lt_of_le hlt he.size_le, fun k hk => ?_⟩
    rcases hx hk with hk | ⟨rfl, -⟩
    · exact hnot k hk
    · exact Nat.lt_irrefl _ hlt
  · intro h k hk
    rw [← hp.same hk]
    rcases hx hk with hk | ⟨-, hu⟩
    · rw [he.uri_eq (hd.paired.left hk), hd.paired.same hk]
      exact hd.named hk
    · rw [hu]
      exact hn

theorem Tied.meaning_eq {ρ : Handle → Handle → Prop} (hd : Tied reach ρ d e) (token : String) :
    d.console.meaning? token = (Word.ofName? token).map .word ∧
      e.console.meaning? token = (Word.ofName? token).map .word := by
  simp [meaning?, hd.defined.1, hd.defined.2]

theorem Tied.waiting {ρ : Handle → Handle → Prop} (hd : Tied reach ρ d e) {p : Pending}
    (hp : e.console.pending = some p) (n : Nat) :
    Agrees (Alongside reach) (pushAt (n + 1) token) d e := by
  rw [Agrees, run_pushAt_waiting n (hd.pending.trans hp), run_pushAt_waiting n hp]
  cases p with
  | script => exact absurd hp hd.listening
  | assignments given =>
      have hfeed : Respects (Tied reach ρ) (feed (pushAt n) (.assignments given) token) := by
        rw [feed]
        split
        · exact (Pairs.forM Tied.grip.assignStore given).respects
        · exact (Tied.grip.collect _).respects
      exact (hfeed hd.idle).imp_right fun hs => ⟨ρ, hs⟩

theorem respects_pushAt (n : Nat) (hn : Word.ofName? token = none) :
    Respects (Alongside reach) (pushAt (n + 1) token) := by
  rintro d e ⟨ρ, hd⟩
  cases hp : e.console.pending with
  | some p => exact hd.waiting hp n
  | none =>
      obtain ⟨hm, hm'⟩ := hd.meaning_eq token
      rw [hn] at hm hm'
      rw [Agrees, run_pushAt_forward n (hd.pending.trans hp) hm, run_pushAt_forward n hp hm']
      exact hd.forward hn

/-- The token is no word that publishes an item or reads the player, and a "." finds no item with
frames. -/
def Permits (token : String) (d : Desk) : Prop :=
  d.console.pending = none → ∀ w, Word.ofName? token = some w →
    w.publishes = false ∧
      (w = .play → ∀ h below, d.console.interpreter.machine.stack = .item h :: below →
        (d.studio.catalog.get h).frames = 0)

theorem Tied.permits_iff {ρ : Handle → Handle → Prop} (hd : Tied reach ρ d e) (token : String) :
    Permits token d ↔ Permits token e := by
  have hs := hd.interpreter.stack
  have htop : (∀ h below, d.console.interpreter.machine.stack = .item h :: below →
        (d.studio.catalog.get h).frames = 0) ↔
      ∀ h below, e.console.interpreter.machine.stack = .item h :: below →
        (e.studio.catalog.get h).frames = 0 := by
    generalize d.console.interpreter.machine.stack = stack at hs
    generalize e.console.interpreter.machine.stack = stack' at hs
    cases hs with
    | nil => simp
    | cons hv hs =>
        cases hv with
        | literal text => simp
        | item hr => simp [hd.paired.same hr]
  rw [Permits, Permits, hd.pending, htop]

theorem Tied.word {ρ : Handle → Handle → Prop} (hd : Tied reach ρ d e) {w : Word}
    (hpublish : w.publishes = false)
    (hplay : w = .play → ∀ h below, e.console.interpreter.machine.stack = .item h :: below →
      (e.studio.catalog.get h).frames = 0) (n : Nat) :
    Agrees (Alongside reach) (w.run (pushAt (n + 1))) d e := by
  by_cases hplays : w = .play
  · subst hplays
    obtain ⟨hr, hs⟩ := hd.play (hplay rfl) (pushAt (n + 1))
    exact ⟨hr.eq, ρ, hs⟩
  by_cases hclones : w = .clone
  · subst hclones
    rw [Word.run_eq_lead]
    obtain ⟨hr, hs⟩ := Tied.clone hd
    refine meets_eq_iff.1 (Meets.bind ⟨hr, ρ, hs⟩ fun ts ts' hts _ => ?_)
    obtain ⟨rfl, hn⟩ := hts
    exact meets_eq_iff.2 (Respects.forM_of_mem (fun t ht => respects_pushAt n (hn t ht)) ⟨ρ, hs⟩)
  · have hpush : w.pushes = false := by
      cases w <;> first | rfl | exact absurd rfl hclones | cases hpublish
    have hword := (Tied.grip.word hplays hpush hpublish (pushAt (n + 1))).respects hd
    exact hword.imp_right fun hs => ⟨ρ, hs⟩

theorem agrees_push (hd : Alongside reach d e) (ht : Permits token e) :
    Agrees (Alongside reach) (Console.push token) d e := by
  obtain ⟨ρ, hd⟩ := hd
  cases hp : e.console.pending with
  | some p => exact hd.waiting hp (levels - 1)
  | none =>
      cases hw : Word.ofName? token with
      | none => exact respects_pushAt (levels - 1) hw ⟨ρ, hd⟩
      | some w =>
          obtain ⟨hm, hm'⟩ := hd.meaning_eq token
          rw [hw] at hm hm'
          rw [Agrees, run_push_word (hd.pending.trans hp) hm, run_push_word hp hm']
          obtain ⟨hpublish, hplay⟩ := ht hp w hw
          exact hd.word hpublish hplay (levels - 2)

def Discreet : List String → Desk → Prop
  | [], _ => True
  | token :: rest, d =>
    Permits token d ∧
      (((Console.push token).run d).1 = .ok () → Discreet rest ((Console.push token).run d).2)

theorem discreet_iff (ts : List String) (hd : Alongside reach d e) :
    Discreet ts d ↔ Discreet ts e := by
  induction ts generalizing d e with
  | nil => rfl
  | cons token rest ih =>
      have hp : Permits token d ↔ Permits token e := hd.elim fun ρ hd => hd.permits_iff token
      rw [Discreet, Discreet, hp]
      refine and_congr_right fun ht => ?_
      obtain ⟨hr, hs⟩ := agrees_push hd ht
      rw [hr, ih hs]

theorem agrees_forM (ts : List String) (hd : Alongside reach d e) (ht : Discreet ts e) :
    Agrees (Alongside reach) (ts.forM Console.push) d e := by
  induction ts generalizing d e with
  | nil => exact ⟨rfl, hd⟩
  | cons token rest ih =>
      obtain ⟨hp, hrest⟩ := ht
      have ha := agrees_push hd hp
      exact ha.bind fun _ hok => ih ha.2 (hrest (ha.1 ▸ hok))

def DiscreetLine (line : String) (d : Desk) : Prop :=
  ∀ tokens, Token.ofLine line = .ok tokens → Discreet tokens d

/-- Without these words, and without ".", a line is discreet wherever it is said. -/
theorem discreetLine_of_harmless {line : String} {ts : List String} (hl : Token.ofLine line = .ok ts)
    (ht : ∀ token ∈ ts, ∀ w ∈ Word.ofName? token, w.publishes = false ∧ w ≠ .play) (d : Desk) :
    DiscreetLine line d := by
  intro tokens he
  obtain rfl : ts = tokens := Except.ok.inj (hl.symm.trans he)
  clear hl he
  induction ts generalizing d with
  | nil => trivial
  | cons token rest ih =>
      obtain ⟨htoken, hrest⟩ := List.forall_mem_cons.1 ht
      refine ⟨fun _ w hw => ?_, fun _ => ih hrest _⟩
      obtain ⟨hpublish, hplay⟩ := htoken w hw
      exact ⟨hpublish, fun he => absurd he hplay⟩

theorem discreetLine_iff (line : String) (hd : Alongside reach d e) :
    DiscreetLine line d ↔ DiscreetLine line e :=
  forall₂_congr fun tokens _ => discreet_iff tokens hd

theorem agrees_orIdle {α : Type} {act : Act α} (h : Agrees (Alongside reach) act d e) :
    Agrees (Alongside reach) (Console.orIdle act) d e := by
  obtain ⟨hr, hs⟩ := h
  rw [Agrees, run_orIdle, run_orIdle]
  generalize act.run d = x at hr hs
  generalize act.run e = y at hr hs
  obtain ⟨r, d⟩ := x
  obtain ⟨r', e⟩ := y
  obtain rfl : r = r' := hr
  cases r with
  | error fault => exact ⟨rfl, hs.imp fun _ => Tied.idle⟩
  | ok a => exact ⟨rfl, hs⟩

theorem agrees_define (line : String) (hd : Alongside reach d e) (hl : DiscreetLine line e) :
    Agrees (Alongside reach) (Console.define line) d e := by
  refine agrees_orIdle ?_
  cases ht : Token.ofLine line with
  | error cause => exact ⟨rfl, hd⟩
  | ok tokens => exact agrees_forM tokens hd (hl tokens ht)

end Alongside

end Console

end Playout
