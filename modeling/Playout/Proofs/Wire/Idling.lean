import Playout.Proofs.Console.Opening
import Playout.Proofs.Wire.Isolation

namespace Playout

namespace Console

open Act Stack

/-- Tokens that are interpreted one after the other, of which none fails. -/
inductive Interprets : List String → Desk → Desk → Prop
  | none {d : Desk} : Interprets [] d d
  | more {token : String} {ts : List String} {d d' e : Desk} {r : Handling}
    (h : (Console.interpret token).run d = (.ok r, d')) (hs : Interprets ts d' e) :
    Interprets (token :: ts) d e

theorem run_push_eq_ok {token : String} {d e : Desk} :
    (Console.push token).run d = (.ok (), e) ↔
      ∃ r, (Console.interpret token).run d = (.ok r, e) := by
  change (pushAt (levels - 1 + 1) token).run d = _ ↔
    ∃ r, (interpretWith (pushAt (levels - 1)) token).run d = _
  rw [run_pushAt]
  generalize (interpretWith (pushAt (levels - 1)) token).run d = x
  obtain ⟨_ | r, d'⟩ := x <;> simp

theorem run_forM_push_eq_ok {ts : List String} {d e : Desk} :
    (ts.forM Console.push).run d = (.ok (), e) ↔ Interprets ts d e := by
  induction ts generalizing d with
  | nil =>
      constructor
      · rintro ⟨⟩
        exact .none
      · rintro ⟨⟩
        rfl
  | cons token ts ih =>
      rw [List.forM_eq_forM] at ih ⊢
      rw [List.forM_cons]
      constructor
      · intro h
        obtain ⟨_, d', hfirst, h⟩ := bind_eq_ok h
        obtain ⟨r, hr⟩ := run_push_eq_ok.1 hfirst
        exact .more hr (ih.1 h)
      · rintro (_ | ⟨hr, hs⟩)
        rw [run_bind, run_push_eq_ok.2 ⟨_, hr⟩]
        exact ih.2 hs

/-- What is interpreted well, is so as far as any of its tokens. -/
theorem interprets_append {said rest : List String} {d e : Desk} :
    Interprets (said ++ rest) d e ↔ ∃ d', Interprets said d d' ∧ Interprets rest d' e := by
  induction said generalizing d with
  | nil =>
      constructor
      · exact fun h => ⟨d, .none, h⟩
      · rintro ⟨_, ⟨⟩, h⟩
        exact h
  | cons token said ih =>
      constructor
      · rintro (_ | ⟨hr, hs⟩)
        obtain ⟨d', hsaid, hrest⟩ := ih.1 hs
        exact ⟨d', .more hr hsaid, hrest⟩
      · rintro ⟨d', _ | ⟨hr, hsaid⟩, hrest⟩
        exact .more hr (ih.2 ⟨d', hsaid, hrest⟩)

theorem Interprets.unique {ts : List String} {d e e' : Desk} (h : Interprets ts d e)
    (h' : Interprets ts d e') : e = e' :=
  congrArg Prod.snd ((run_forM_push_eq_ok.2 h).symm.trans (run_forM_push_eq_ok.2 h'))

theorem lockstep_signals (raised : List Signal) :
    Lockstep (fun _ : Unit => Within fun d => raised <+: d.console.signals) id :=
  .within (fun h _ _ _ => h) (fun _ => .of_keeps fun _ h => h.trans (List.prefix_append _ _))
    (fun _ => .of_keeps fun _ h => h) (fun _ => .of_keeps fun _ h => h)
    (fun _ => .of_keeps fun _ h => h) (.of_keeps fun _ h => h)

theorem Interprets.signals_prefix {ts : List String} {d e : Desk} (h : Interprets ts d e) :
    d.console.signals <+: e.console.signals := by
  have hkeeps : Respects (Within fun e => d.console.signals <+: e.console.signals)
      (ts.forM Console.push) :=
    .forM ((lockstep_signals d.console.signals).push_token ()) ts
  have hfinal := hkeeps.keeps (List.prefix_refl d.console.signals)
  rwa [run_forM_push_eq_ok.2 h] at hfinal

end Console

namespace Wire.Request

open Act Console Stack

theorem verdict_eq_ok {r : Except Fault Unit} {pending : Option Pending} {signals : List Signal} :
    verdict r pending signals = .ok () ↔ r = .ok () ∧ pending = none ∧ signals = [] := by
  rcases r with _ | _ <;> rcases pending with _ | _ <;> rcases signals with _ | _ <;> simp [verdict]

/-- A request is answered well if all of its tokens are interpreted, no word is left waiting at the
end and no signal was raised. -/
theorem handle_eq_ok {head : String} {d : Desk} :
    (handle head d).1 = .ok () ↔
      ∃ ts e, tokens head = .ok ts ∧ Interprets ts d e ∧ e.console.pending = none ∧
        e.console.signals = [] := by
  cases ht : tokens head with
  | error cause => simp [handle, ht]
  | ok ts =>
      rw [handle_of_tokens_ok ht]
      dsimp only
      rw [verdict_eq_ok]
      constructor
      · rintro ⟨hr, hpending, hsignals⟩
        exact ⟨ts, _, rfl, run_forM_push_eq_ok.1 (Prod.ext hr rfl), hpending, hsignals⟩
      · rintro ⟨_, e, ⟨⟩, hs, hpending, hsignals⟩
        rw [run_forM_push_eq_ok.2 hs]
        exact ⟨rfl, hpending, hsignals⟩

/-- No request wedges the console that it shares with others. After any sequence of requests, whatever
they name and whatever becomes of them, no word waits there, nothing is printed, no signal is raised
and no script is being read. A request is answered well exactly if its tokens are interpreted one after
the other without failure, none of them raises a signal and no word is left waiting at the end. -/
theorem handle_leaves_idle {dirs : List String} {c : Console} (h : Shared dirs c) (head : String)
    (studio : Studio) :
    let d : Desk := ⟨studio, c⟩
    let after := (handle head d).2.console
    (after.pending = none ∧ after.interpreter.output = [] ∧ after.signals = [] ∧ after.depth = 0) ∧
      ((handle head d).1 = .ok () ↔
        ∃ ts e, tokens head = .ok ts ∧ Interprets ts d e ∧ e.console.pending = none ∧
          ∀ said d', said <+: ts → Interprets said d d' → d'.console.signals = []) := by
  intro d after
  have hidle : Idle dirs after := h.idle.handle head studio
  refine ⟨⟨hidle.pending, hidle.output, hidle.signals, hidle.depth⟩, handle_eq_ok.trans ?_⟩
  constructor
  · rintro ⟨ts, e, ht, hs, hpending, hsignals⟩
    refine ⟨ts, e, ht, hs, hpending, fun said d' hsaid hd' => ?_⟩
    obtain ⟨rest, rfl⟩ := hsaid
    obtain ⟨d'', hd'', hrest⟩ := interprets_append.1 hs
    obtain rfl := hd'.unique hd''
    exact List.prefix_nil.1 (hsignals ▸ hrest.signals_prefix)
  · rintro ⟨ts, e, ht, hs, hpending, hsignals⟩
    exact ⟨ts, e, ht, hs, hpending, hsignals ts e (List.prefix_refl ts) hs⟩

/-- A script by the name of the word that adds leaves the console and then has a word wait, which is no
good request; the next one is. -/
theorem handle_leaves_idle_after_script :
    let files := Files.ofList [("add", "exit\nstore".toUTF8.toList)]
    let d : Desk := ⟨{ files }, {}⟩
    let script := handle "GET /?src=include HTTP/1.0" d
    let item := handle "GET /?src=test%3Aa HTTP/1.0" script.2
    Shared [] script.2.console ∧ script.1.isOk = false ∧
      (item.2.console.pending = none ∧ item.2.console.signals = []) ∧
      ∃ ts e, tokens "GET /?src=test%3Aa HTTP/1.0" = .ok ts ∧ Interprets ts script.2 e ∧
        e.console.pending = none := by
  intro files d script item
  have hs : Shared [] script.2.console := Shared.fresh.handled "GET /?src=include HTTP/1.0" { files }
  obtain ⟨⟨hpending, -, hsignals, -⟩, hok⟩ :=
    handle_leaves_idle hs "GET /?src=test%3Aa HTTP/1.0" script.2.studio
  have hitem : item.1 = .ok () := eq_ok_of_isOk (by decide +kernel)
  obtain ⟨ts, e, ht, hsaid, hwait, -⟩ := hok.1 hitem
  exact ⟨hs, by decide +kernel, ⟨hpending, hsignals⟩, ts, e, ht, hsaid, hwait⟩

end Wire.Request

end Playout
