import Playout.Proofs.Console.Plain
import Playout.Proofs.Number.Reading
import Playout.Proofs.Player.Generation
import Playout.Proofs.Stack.Built
import Playout.Proofs.Wire.Isolation

namespace Playout

open Media

namespace Wire.Request

open Act Console Stack

variable {p : Player} {signals : List Signal} {d : Desk}

theorem Idle.plain {dirs : List String} {c : Console} (h : Idle dirs c) (studio : Studio) :
    Plain (· = studio.player) [] ⟨studio, c⟩ :=
  ⟨h.printed, h.popWord, h.pending, h.signals, h.defined, rfl⟩

/-- A frame count changes the item on top or fails; the stack stays. -/
theorem stack_frame {token : String} (ht : frameMark <+: token.toList)
    (h : Plain (· = p) signals d) :
    ((Console.push token).run d).2.console.interpreter.machine.stack =
      d.console.interpreter.machine.stack := by
  obtain ⟨value, hv⟩ := ht
  have htoken : token = "frames" ++ "=" ++ String.ofList value := by
    rw [← String.toList_inj, String.toList_append, String.toList_ofList, ← hv]
    rfl
  have ha : Machine.assignment? token = some ("frames", String.ofList value) :=
    (Machine.assignment?_eq_some_iff _ _ _).2 ⟨htoken, by decide, by decide⟩
  have hreal : Number.real? token.toList = none :=
    Number.real?_eq_none (c := '=') (by simp [htoken]) (.inl rfl)
  have henter (catalog : Catalog) (m : Machine) : (m.enter token catalog).2.2 = m := by
    simp [Machine.enter, hreal, ha]
  rw [run_push_noWord (noWord_of_frameMark ⟨value, hv⟩) h.pending h.defined]
  dsimp only [Interpreter.collect, Machine.drain]
  rw [henter]

theorem plain_add (h : Plain (· = p) signals d) :
    let after := (Console.push Console.Word.add.name).run d
    Plain (fun q => q = p ∨ after.1 = .ok () ∧ ∃ item,
      d.console.interpreter.machine.stack.head? = some (.item item) ∧
      q = p.onDeck (Deck.add item)) signals after.2 := by
  have hp := ((footing_plain (· = p) signals).popItem Console.Word.add.name).keeps h
  have htop (item : Handle) (hr : ((Act.popItem Console.Word.add.name).run d).1 = .ok item) :=
    (popItem_eq_ok h hr).1
  rw [run_push_word h.pending (h.meaning_word .add), Word.run, run_bind]
  generalize (Act.popItem Console.Word.add.name).run d = popped at hp htop ⊢
  obtain ⟨r, e⟩ := popped
  cases r with
  | error fault => exact hp.mono (.inl hp.player)
  | ok item =>
      dsimp only
      rw [run_bind, run_catalog]
      dsimp only
      split
      · refine ⟨hp.printed, hp.popWord, hp.pending, hp.signals, hp.defined,
          .inr ⟨rfl, item, htop item rfl, ?_⟩⟩
        exact congrArg (Player.onDeck (Deck.add item)) hp.player
      · exact hp.mono (.inl hp.player)

/-- Behind its source a request can add the item that lies on top, if nothing fails. -/
theorem plain_behind (h : Plain (· = p) signals d) {arguments : List String}
    (hargs : ∀ argument ∈ arguments, frameMark <+: argument.toList) :
    let after := Act.run ((arguments ++ [Console.Word.add.name]).forM Console.push) d
    Plain (fun q => q = p ∨ after.1 = .ok () ∧ ∃ item,
      d.console.interpreter.machine.stack.head? = some (.item item) ∧
      q = p.onDeck (Deck.add item)) signals after.2 := by
  induction arguments generalizing d with
  | nil =>
      rw [List.nil_append, List.forM_eq_forM, List.forM_cons, List.forM_nil, bind_pure_unit]
      exact plain_add h
  | cons argument arguments ih =>
      obtain ⟨hargument, hargs⟩ := List.forall_mem_cons.1 hargs
      have hp := (plain_pushAt (levels - 1) (noWord_of_frameMark hargument).console).keeps h
      have hs := stack_frame hargument h
      change Plain _ _ ((Console.push argument).run d).2 at hp
      rw [List.forM_eq_forM] at ih ⊢
      rw [List.cons_append, List.forM_cons, run_bind]
      generalize (Console.push argument).run d = pushed at hp hs ⊢
      obtain ⟨r, e⟩ := pushed
      cases r with
      | error fault => exact hp.mono (.inl hp.player)
      | ok =>
          have hi := ih hp hargs
          rw [hs] at hi
          exact hi

theorem run_waiting {given : List String} (hd : d.console.pending = some (.assignments given))
    {tokens : List String} (ht : ∀ token ∈ tokens, token ≠ Console.Word.play.name) :
    ((tokens.forM Console.push).run d).2.studio = d.studio := by
  induction tokens generalizing d given with
  | nil => rfl
  | cons token tokens ih =>
      obtain ⟨hne, ht⟩ := List.forall_mem_cons.1 ht
      have hrun : (Console.push token).run d =
          (.ok (), { d with console := { d.console with
            pending := some (.assignments (given ++ [token])) } }) := by
        rw [run_push_waiting hd, feed, if_neg hne]
        rfl
      have hi := ih (d := { d with console := { d.console with
        pending := some (.assignments (given ++ [token])) } }) rfl ht
      rw [List.forM_eq_forM] at hi ⊢
      rw [List.forM_cons, run_bind, hrun]
      exact hi

/-- The desk as the source of a request leaves it: its first token, and where a script is waited for
the name of the script. -/
def sourced : List String → Desk → Desk
  | [], d => d
  | token :: more, d =>
    let (r, e) := (Console.push token).run d
    if r.isOk ∧ e.console.pending = some .script then sourced more e else e

theorem sourced_of_done {token : String} {more : List String}
    (h : ((Console.push token).run d).2.console.pending ≠ some .script) :
    sourced (token :: more) d = ((Console.push token).run d).2 := by
  rw [sourced]
  exact if_neg fun hp => h hp.2

/-- The player as a source left it, or with the item that was on top then added as well. For that the
source must have raised a signal. -/
inductive Behind (left : Desk) : Player → Prop
  | kept : Behind left left.studio.player
  | added {item : Handle} (hs : left.console.signals ≠ [])
    (ht : left.console.interpreter.machine.stack.head? = some (.item item)) :
    Behind left (left.studio.player.onDeck (Deck.add item))

theorem Behind.eq_of_quiet {left : Desk} (h : Behind left p) (hs : left.console.signals = []) :
    p = left.studio.player := by
  cases h with
  | kept => rfl
  | added hn => exact absurd hs hn

section Refused

variable {dirs arguments more : List String}
  (hargs : ∀ argument ∈ arguments, frameMark <+: argument.toList)
  (hmore : more <:+ arguments ++ [Console.Word.add.name])

include hargs hmore

theorem behind_run (hd : AlikeAt dirs 0 d d) (hp : d.console.pending ≠ some .script)
    (hr : let after := Act.run (more.forM Console.push) d
      (verdict after.1 after.2.console.pending after.2.console.signals).isOk = false) :
    Behind d (Act.run (more.forM Console.push) d).2.studio.player := by
  rcases List.suffix_concat_iff.1 hmore with rfl | ⟨rest, rfl, hrest⟩
  · exact .kept
  · have hframes (argument : String) (hm : argument ∈ rest) : frameMark <+: argument.toList :=
      hargs argument (hrest.subset hm)
    rcases hw : d.console.pending with _ | _ | given
    · have hplain : Plain (· = d.studio.player) d.console.signals d :=
        ⟨hd.interpreter.printed.1, hd.interpreter.popWord.1, hw, rfl, hd.defined.1, rfl⟩
      have hb := plain_behind hplain hframes
      rcases hb.player with hq | ⟨hok, item, htop, hq⟩
      · rw [hq]
        exact .kept
      · rw [hq]
        refine .added (fun hn => ?_) htop
        dsimp only at hr
        rw [hok, hb.pending, hb.signals, hn] at hr
        cases hr
    · exact absurd hw hp
    · rw [run_waiting hw fun token hm => ?_]
      · exact .kept
      · rintro rfl
        rcases List.mem_append.1 hm with hm | hm
        · exact absurd (noWord_of_frameMark (hframes _ hm)).console (by decide)
        · exact absurd hm (by decide)

theorem behind_sourced {source : String} (hd : AlikeAt dirs 0 d d)
    (hr : let after := Act.run ((source :: more).forM Console.push) d
      (verdict after.1 after.2.console.pending after.2.console.signals).isOk = false) :
    Behind (sourced (source :: more) d)
      (Act.run ((source :: more).forM Console.push) d).2.studio.player := by
  induction more generalizing source d with
  | nil =>
      have hs : sourced [source] d = ((Console.push source).run d).2 := by simp [sourced]
      rw [hs, List.forM_eq_forM, List.forM_cons, List.forM_nil, bind_pure_unit]
      exact .kept
  | cons next more ih =>
      have he := ((lockstep_alike dirs).push_token 0 source hd).2
      rw [sourced]
      rw [List.forM_eq_forM] at hr ⊢
      rw [List.forM_cons, run_bind] at hr ⊢
      generalize (Console.push source).run d = pushed at he hr ⊢
      obtain ⟨r, e⟩ := pushed
      cases r with
      | error fault => exact .kept
      | ok =>
          by_cases hp : e.console.pending = some .script
          · dsimp only
            rw [if_pos ⟨rfl, hp⟩]
            exact ih ((List.suffix_cons next more).trans hmore) he hr
          · dsimp only
            rw [if_neg fun h => hp h.2]
            exact behind_run hargs hmore he hp hr

end Refused

theorem plain_signal {w : Console.Word} (hw : w.signals = true) (h : Plain (· = p) signals d) :
    ∃ raised, Plain (· = p) raised ((Console.push w.name).run d).2 := by
  rw [run_push_word h.pending (h.meaning_word _)]
  cases w with
  | exit => exact ⟨_, h.printed, h.popWord, h.pending, rfl, h.defined, h.player⟩
  | server =>
      have hp := ((footing_plain (· = p) signals).popInteger Console.Word.server.name).keeps h
      rw [Word.run, run_bind]
      generalize (Act.popInteger Console.Word.server.name).run d = popped at hp ⊢
      obtain ⟨r, e⟩ := popped
      cases r with
      | error fault => exact ⟨_, hp⟩
      | ok port =>
          dsimp only
          split
          · exact ⟨_, hp.printed, hp.popWord, hp.pending, rfl, hp.defined, hp.player⟩
          · exact ⟨_, hp⟩
  | _ => cases hw

theorem run_script_missing (push : String → Act Unit) {name : String}
    (hn : ∀ path, d.console.locate? d.studio.files name = some path →
      ∀ text, d.studio.files.readText path ≠ .ok text) :
    ∃ fault, (runScriptWith push name).run d = (.error fault, d) := by
  rw [runScriptWith, run_get_bind]
  cases hl : d.console.locate? d.studio.files name with
  | none => exact ⟨_, rfl⟩
  | some path =>
      dsimp only
      split
      · exact ⟨_, rfl⟩
      · cases ht : d.studio.files.readText path with
        | error cause => exact ⟨_, rfl⟩
        | ok text => exact absurd ht (hn path hl text)

theorem run_push_awaiting {w : Console.Word} {waits : Pending} (h : Plain (· = p) signals d)
    (hw : w.run pushWithin = Act.await waits) :
    (Console.push w.name).run d =
      (.ok (), { d with console := { d.console with pending := some waits } }) := by
  rw [run_push_word h.pending (h.meaning_word _), hw]
  rfl

theorem plain_pushing {w : Console.Word} (hw : w.pushes = true) (h : Plain (· = p) signals d)
    (hu : w = .clone → ∀ item, d.console.interpreter.machine.stack.head? = some (.item item) →
      Console.Word.ofName? (d.studio.catalog.get item).uri = none) :
    Plain (· = p) signals ((w.run pushWithin).run d).2 := by
  cases w with
  | status => exact (plain_status (levels - 2)).keeps h
  | clone => exact plain_clone (levels - 2) h (hu rfl)
  | _ => cases hw

/-- What a request that is refused may have done to the player, by the word that is its source and the
token behind that, where the source has left such a desk. -/
inductive Excused (d left : Desk) (next : String) : Console.Word → Player → Prop
  | transport {w : Console.Word} (hw : w.transports = true) :
    Excused d left next w ((Console.push w.name).run d).2.studio.player
  | signal {w : Console.Word} {item : Handle} (hw : w.signals = true)
    (ht : ((Console.push w.name).run d).2.console.interpreter.machine.stack.head? =
      some (.item item)) :
    Excused d left next w (d.studio.player.onDeck (Deck.add item))
  /-- The URI of the item that is copied is the name of a word. -/
  | named {item : Handle} {w : Console.Word} {q : Player}
    (hs : d.console.interpreter.machine.stack.head? = some (.item item))
    (hu : (d.studio.catalog.get item).uri = w.name) (hb : Behind left q) :
    Excused d left next .clone q
  | script {path text : String} {q : Player}
    (hl : d.console.locate? d.studio.files next = some path)
    (ht : d.studio.files.readText path = .ok text) (hb : Behind left q) :
    Excused d left next .includeScript q

section Word

variable {q : Player} {w : Console.Word} {next : String} {rest : List String}
  (h : Plain (· = d.studio.player) [] d) (hb : Behind (sourced (w.name :: next :: rest) d) q)

include h hb

/-- A word that waits gets the tokens behind it: to keep, or for the name of a script. -/
theorem excused_waiting (hw : w.awaits = true) :
    q = d.studio.player ∨ Excused d (sourced (w.name :: next :: rest) d) next w q := by
  cases w with
  | store =>
      left
      have hrun := run_push_awaiting h (w := .store) rfl
      rw [sourced_of_done (by rw [hrun]; exact nofun), hrun] at hb
      exact hb.eq_of_quiet h.signals
  | includeScript =>
      by_cases hx : ∃ path text, d.console.locate? d.studio.files next = some path ∧
          d.studio.files.readText path = .ok text
      · obtain ⟨path, text, hl, ht⟩ := hx
        exact .inr (.script hl ht hb)
      · left
        obtain ⟨fault, he⟩ := run_script_missing pushWithin
          (d := { d with console := d.console.idle }) fun path hl text ht => hx ⟨path, text, hl, ht⟩
        have hnext : (Console.push next).run
            { d with console := { d.console with pending := some .script } } =
              (.error fault, { d with console := d.console.idle }) := by
          rw [run_push_waiting rfl, feed]
          exact he
        rw [sourced, run_push_awaiting h rfl] at hb
        dsimp only at hb
        rw [if_pos ⟨rfl, rfl⟩, sourced, hnext] at hb
        exact hb.eq_of_quiet h.signals
  | _ => cases hw

theorem excused_of_word :
    q = d.studio.player ∨ Excused d (sourced (w.name :: next :: rest) d) next w q := by
  have hrun := run_push_word h.pending (h.meaning_word w)
  have hleft {K : Player → Prop} {raised : List Signal}
      (hs : Plain K raised ((Console.push w.name).run d).2) :
      Behind ((Console.push w.name).run d).2 q := by
    rwa [sourced_of_done (by rw [hs.pending]; exact nofun)] at hb
  have hquiet {K : Player → Prop} (hs : Plain K [] ((Console.push w.name).run d).2) :
      q = ((Console.push w.name).run d).2.studio.player :=
    (hleft hs).eq_of_quiet hs.signals
  have halone (hs : Plain (· = d.studio.player) [] ((w.run pushWithin).run d).2) :
      q = d.studio.player := by
    rw [← hrun] at hs
    exact (hquiet hs).trans hs.player
  cases hawait : w.awaits with
  | true => exact excused_waiting h hb hawait
  | false =>
      cases hsignal : w.signals with
      | true =>
          obtain ⟨raised, hs⟩ := plain_signal hsignal h
          cases hleft hs with
          | kept => exact .inl hs.player
          | added _ ht =>
              rw [hs.player]
              exact .inr (.signal hsignal ht)
      | false =>
          cases hpush : w.pushes with
          | true =>
              by_cases hu : w = .clone → ∀ item,
                  d.console.interpreter.machine.stack.head? = some (.item item) →
                  Console.Word.ofName? (d.studio.catalog.get item).uri = none
              · exact .inl (halone (plain_pushing hpush h hu))
              · right
                push Not at hu
                obtain ⟨rfl, item, hs, hu⟩ := hu
                obtain ⟨named, hu⟩ := Option.ne_none_iff_exists'.1 hu
                exact .named hs (name_of_ofName? hu).symm hb
          | false =>
              cases htransport : w.transports with
              | true =>
                  have hk := (plain_word (K := fun _ => True) pushWithin hpush hawait hsignal
                    fun _ _ => trivial).keeps (h.mono trivial)
                  rw [← hrun] at hk
                  rw [hquiet hk]
                  exact .inr (.transport htransport)
              | false =>
                  have hk : Respects (Act.Within (Plain (· = d.studio.player) []))
                      (w.run pushWithin) :=
                    plain_word pushWithin hpush hawait hsignal fun hw => by simp [htransport] at hw
                  exact .inl (halone (hk.keeps h))

end Word

/-- A request that is refused leaves the player as it was, but for what its source did. -/
theorem handle_refused {dirs : List String} {c : Console} (h : Shared dirs c) (studio : Studio)
    {head : String} (hr : (handle head ⟨studio, c⟩).1.isOk = false) :
    (handle head ⟨studio, c⟩).2.studio.player = studio.player ∨
      ∃ w next rest, tokens head = .ok (Console.Word.name w :: next :: rest) ∧
        Excused ⟨studio, c⟩ (sourced (Console.Word.name w :: next :: rest) ⟨studio, c⟩) next w
          (handle head ⟨studio, c⟩).2.studio.player := by
  have hp := h.idle.plain studio
  cases ht : tokens head with
  | error cause =>
      left
      rw [handle, ht]
  | ok ts =>
      obtain ⟨source, arguments, rfl, hargs⟩ := tokens_eq_ok ht
      rw [handle_of_tokens_ok ht] at hr ⊢
      have hb := behind_sourced hargs (List.suffix_refl _) (h.idle.alike_self studio) hr
      cases hw : Console.Word.ofName? source with
      | none =>
          left
          have hs := (plain_pushAt (levels - 1) hw).keeps hp
          change Plain _ _ ((Console.push source).run _).2 at hs
          rw [sourced_of_done (by simp [hs.pending])] at hb
          exact (hb.eq_of_quiet hs.signals).trans hs.player
      | some w =>
          obtain rfl := name_of_ofName? hw
          obtain ⟨next, rest, hnext⟩ : ∃ next rest,
              arguments ++ [Console.Word.add.name] = next :: rest := by
            cases arguments <;> exact ⟨_, _, rfl⟩
          rw [hnext] at hb
          rw [List.cons_append, hnext]
          exact (excused_of_word hp hb).imp_right fun hx => ⟨w, next, rest, rfl, hx⟩

theorem handle_refused_unknown :
    let studio : Studio := { player.deck := ({} : Deck).add 0 }
    let head := "GET /?src=nope%3Ax&frames=4 HTTP/1.0"
    (handle head ⟨studio, {}⟩).1.isOk = false ∧
      (handle head ⟨studio, {}⟩).2.studio.player = studio.player := by
  intro studio head
  have hr : (handle head ⟨studio, {}⟩).1.isOk = false := by decide +kernel
  refine ⟨hr, ?_⟩
  rcases handle_refused (@Shared.fresh []) studio hr with hk | ⟨w, next, rest, ht, -⟩
  · exact hk
  · have hs : ((tokens head).toOption.bind List.head?).bind Console.Word.ofName? = none := by
      decide +kernel
    rw [ht] at hs
    exact absurd hs (by simp [Except.toOption, ofName?_name])

theorem handle_next_refused :
    ¬∀ dirs c studio head, Shared dirs c → (handle head ⟨studio, c⟩).1.isOk = false →
      (handle head ⟨studio, c⟩).2.studio.player.deck.face = studio.player.deck.face ∧
        (handle head ⟨studio, c⟩).2.studio.player.deck.generation =
          studio.player.deck.generation := by
  intro h
  have hr : (handle "GET /?src=next HTTP/1.0"
      ⟨{ player.deck := ({} : Deck).add 0 }, {}⟩).1.isOk = false := by decide +kernel
  have hg := (h [] _ _ _ .fresh hr).2
  revert hg
  decide +kernel

end Wire.Request

end Playout
