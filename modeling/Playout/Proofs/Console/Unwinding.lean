import Playout.Proofs.Console.Cloning
import Playout.Proofs.Console.Endless
import Playout.Proofs.Stack.Effect

namespace Playout

open Media

namespace Desk

def inner (d : Desk) : Desk :=
  { d with console := { d.console with depth := d.console.depth + 1 } }

def outer (d : Desk) : Desk :=
  { d with console := { d.console with depth := d.console.depth - 1 } }

def after (r : Except Fault Unit) (d : Desk) : Desk :=
  match r with
  | .ok _ => d
  | .error _ => d.idle

end Desk

namespace Console

open Act Stack

inductive Task where
  | token (token : String)
  | line (line : String)
  | all (tasks : List Task)

/-- What is seen of a run from outside: tokens that are taken up and done with, and scripts that are
entered, with the number of scripts around them. -/
inductive Mark where
  | began (depth : Nat) (token : String)
  | entered (depth : Nat)
  | ended (depth : Nat) (token : String) (r : Except Fault Unit)

namespace Mark

def depth : Mark → Nat
  | began depth _ | entered depth | ended depth _ _ => depth

def failure? : Mark → Option Fault
  | ended _ _ (.error fault) => some fault
  | ended _ _ (.ok _) | began _ _ | entered _ => none

end Mark

/-- A task is run from one desk to another. No level of words is counted here. -/
inductive Runs : Task → Desk → List Mark → Except Fault Unit → Desk → Prop
  | refused {token : String} {d e : Desk} {fault : Fault}
    (ho : openAt token d = (.error fault, e)) :
    Runs (.token token) d
      [.began d.console.depth token, .ended d.console.depth token (.error fault)] (.error fault) e
  | handed {token : String} {ts : List String} {d d' e : Desk} {marks : List Mark}
    {r : Except Fault Unit} (ho : openAt token d = (.ok (.tokens ts), d'))
    (h : Runs (.all (ts.map .token)) d' marks r e) :
    Runs (.token token) d
      (.began d.console.depth token :: marks ++ [.ended d.console.depth token r]) r e
  | read {token : String} {lines : List String} {d d' e : Desk} {marks : List Mark}
    {r : Except Fault Unit} (ho : openAt token d = (.ok (.script lines), d'))
    (h : Runs (.all (lines.map .line)) d'.inner marks r e) :
    Runs (.token token) d
      (.began d.console.depth token :: .entered (d.console.depth + 1) :: marks ++
        [.ended d.console.depth token r]) r e.outer
  | unread {line : String} {d : Desk} {cause : ParseFault} (hl : Token.ofLine line = .error cause) :
    Runs (.line line) d [] (.error (.parse cause)) d.idle
  | line {line : String} {ts : List String} {d e : Desk} {marks : List Mark}
    {r : Except Fault Unit} (hl : Token.ofLine line = .ok ts)
    (h : Runs (.all (ts.map .token)) d marks r e) :
    Runs (.line line) d marks r (e.after r)
  | done {d : Desk} : Runs (.all []) d [] (.ok ()) d
  | next {task : Task} {tasks : List Task} {d d' e : Desk} {marks more : List Mark}
    {r : Except Fault Unit} (h : Runs task d marks (.ok ()) d')
    (k : Runs (.all tasks) d' more r e) :
    Runs (.all (task :: tasks)) d (marks ++ more) r e
  | failed {task : Task} {tasks : List Task} {d e : Desk} {marks : List Mark} {fault : Fault}
    (h : Runs task d marks (.error fault) e) :
    Runs (.all (task :: tasks)) d marks (.error fault) e

/-- There is one way only. -/
theorem Runs.unique {task : Task} {d e e' : Desk} {marks marks' : List Mark}
    {r r' : Except Fault Unit} (h : Runs task d marks r e) (k : Runs task d marks' r' e') :
    marks' = marks ∧ r' = r ∧ e' = e := by
  induction h generalizing marks' r' e' with
  | refused ho =>
      cases k with
      | refused ho' =>
          cases ho.symm.trans ho'
          exact ⟨rfl, rfl, rfl⟩
      | handed ho' | read ho' => cases ho.symm.trans ho'
  | handed ho h ih =>
      cases k with
      | refused ho' | read ho' => cases ho.symm.trans ho'
      | handed ho' k =>
          cases ho.symm.trans ho'
          obtain ⟨rfl, rfl, rfl⟩ := ih k
          exact ⟨rfl, rfl, rfl⟩
  | read ho h ih =>
      cases k with
      | refused ho' | handed ho' => cases ho.symm.trans ho'
      | read ho' k =>
          cases ho.symm.trans ho'
          obtain ⟨rfl, rfl, rfl⟩ := ih k
          exact ⟨rfl, rfl, rfl⟩
  | unread hl =>
      cases k with
      | unread hl' =>
          cases hl.symm.trans hl'
          exact ⟨rfl, rfl, rfl⟩
      | line hl' k => cases hl.symm.trans hl'
  | line hl h ih =>
      cases k with
      | unread hl' => cases hl.symm.trans hl'
      | line hl' k =>
          cases hl.symm.trans hl'
          obtain ⟨rfl, rfl, rfl⟩ := ih k
          exact ⟨rfl, rfl, rfl⟩
  | done =>
      cases k
      exact ⟨rfl, rfl, rfl⟩
  | next h k ih ih' =>
      cases k with
      | next h' k' =>
          obtain ⟨rfl, -, rfl⟩ := ih h'
          obtain ⟨rfl, rfl, rfl⟩ := ih' k'
          exact ⟨rfl, rfl, rfl⟩
      | failed h' =>
          obtain ⟨-, he, -⟩ := ih h'
          cases he
  | failed h ih =>
      cases k with
      | next h' k' =>
          obtain ⟨-, he, -⟩ := ih h'
          cases he
      | failed h' =>
          obtain ⟨rfl, he, rfl⟩ := ih h'
          cases he
          exact ⟨rfl, rfl, rfl⟩

theorem footing_depth {depth : Nat} : Footing (Within (·.console.depth = depth)) where
  studio h := by rw [h.1]
  defined h := by rw [h.1]
  logLevel level := .of_keeps fun _ h => h
  write text := .of_keeps fun _ h => h
  push v := .of_keeps fun _ h => h
  pop := .of_keeps fun _ h => h

/-- A script is entered only when what a token does by itself is done. -/
theorem depth_openAt {token : String} {d d' : Desk} {r : Except Fault Agenda}
    (ho : openAt token d = (r, d')) : d'.console.depth = d.console.depth := by
  have hplayer (f : Player → Player) :
      Respects (Within (·.console.depth = d.console.depth)) (Act.player f) := .of_keeps fun _ h => h
  have hawait (p : Pending) :
      Respects (Within (·.console.depth = d.console.depth)) (Act.await p) := .of_keeps fun _ h => h
  have hlead (w : Word) : Respects (Within (·.console.depth = d.console.depth)) w.lead :=
    footing_depth.lead hplayer (fun _ => .of_keeps fun _ h => h) hawait
      fun _ => .of_keeps fun _ h => h
  have hopening : Respects (Within (·.console.depth = d.console.depth))
      (opening d.console.pending (d.console.meaning? token) token) :=
    respects_opening (.of_keeps fun _ h => h) hlead (footing_depth.assignStore hplayer) hawait _ _
  have hk := hopening.keeps (d := d.idle) rfl
  rw [openAt] at ho
  rwa [ho] at hk

theorem depth_of_read {token : String} {lines : List String} {d d' : Desk}
    (ho : openAt token d = (.ok (.script lines), d')) : d.console.depth < deepest := by
  rcases opening_eq_ok ho with ⟨lines, -, hr⟩ | ⟨_, _, -, he, -⟩ | ⟨_, -, he⟩ | he
  · have h := (run_readScript token d.idle).2
    rw [hr] at h
    exact h rfl
  all_goals cases he

theorem Runs.depth {task : Task} {d e : Desk} {marks : List Mark} {r : Except Fault Unit}
    (h : Runs task d marks r e) : e.console.depth = d.console.depth := by
  induction h with
  | refused ho => exact depth_openAt ho
  | handed ho _ ih => exact ih.trans (depth_openAt ho)
  | read ho _ ih => exact (congrArg (· - 1) ih).trans (depth_openAt ho)
  | unread | done => rfl
  | @line _ _ _ _ _ r _ _ ih => cases r <;> exact ih
  | next _ _ ih ih' => exact ih'.trans ih
  | failed _ ih => exact ih

theorem depth_le_around {bound depth : Nat} {token : String} {r : Except Fault Unit}
    {marks : List Mark} (hd : depth ≤ bound) (h : ∀ mark ∈ marks, mark.depth ≤ bound) :
    ∀ mark ∈ .began depth token :: marks ++ [.ended depth token r], mark.depth ≤ bound := by
  rw [List.forall_mem_append, List.forall_mem_cons, List.forall_mem_singleton]
  exact ⟨⟨hd, h⟩, hd⟩

/-- No script is entered deeper than scripts may nest. -/
theorem Runs.nested {task : Task} {d e : Desk} {marks : List Mark} {r : Except Fault Unit}
    (h : Runs task d marks r e) : ∀ mark ∈ marks, mark.depth ≤ max deepest d.console.depth := by
  induction h with
  | refused ho => exact @depth_le_around _ _ _ _ [] (Nat.le_max_right _ _) nofun
  | handed ho h ih =>
      rw [depth_openAt ho] at ih
      exact depth_le_around (Nat.le_max_right _ _) ih
  | @read _ _ d d' _ _ _ ho h ih =>
      have hdeep := depth_of_read ho
      have hinner : d'.inner.console.depth = d.console.depth + 1 :=
        congrArg (· + 1) (depth_openAt ho)
      rw [hinner, Nat.max_eq_left hdeep] at ih
      rw [Nat.max_eq_left (Nat.le_of_lt hdeep)]
      exact depth_le_around (Nat.le_of_lt hdeep) (List.forall_mem_cons.2 ⟨hdeep, ih⟩)
  | unread | done => exact nofun
  | line _ _ ih => exact ih
  | next h _ ih ih' =>
      rw [h.depth] at ih'
      exact fun mark hm => (List.mem_append.1 hm).elim (ih mark) (ih' mark)
  | failed _ ih => exact ih

theorem Kept.opened {P : Desk → Prop} (hP : Kept (fun _ => True) P) {token : String} {d d' : Desk}
    {r : Except Fault Agenda} (ho : openAt token d = (r, d')) (hd : P d) : P d' := by
  have hk : P (openAt token d).2 := hP.opens hd trivial
  rwa [ho] at hk

/-- What each token keeps by what it does itself, a whole run keeps. -/
theorem Runs.kept {P : Desk → Prop} (hP : Kept (fun _ => True) P) {task : Task} {d e : Desk}
    {marks : List Mark} {r : Except Fault Unit} (h : Runs task d marks r e) (hd : P d) : P e := by
  induction h with
  | refused ho => exact hP.opened ho hd
  | handed ho _ ih => exact ih (hP.opened ho hd)
  | read ho _ ih =>
      have hinner := ih (hP.console (hP.opened ho hd) rfl rfl)
      exact hP.console hinner rfl rfl
  | unread => exact hP.console hd rfl rfl
  | @line _ _ _ _ _ r _ _ ih =>
      cases r with
      | ok => exact ih hd
      | error => exact hP.console (ih hd) rfl rfl
  | done => exact hd
  | next _ _ ih ih' => exact ih' (ih hd)
  | failed _ ih => exact ih hd

/-- The console has the words it began with, and there is no item by whose URI a copy of it would be
a copy of the copy. -/
structure Ready (d : Desk) : Prop where
  defined : d.console.defined = []
  uris : ∀ h, (d.studio.catalog.get h).uri ≠ Word.clone.name

theorem ready_interpreter {α : Type}
    {f : Catalog → Interpreter → Except Fault α × Catalog × Interpreter}
    (hf : ∀ catalog i, Effect catalog i.machine.stack (f catalog i).2.1
      (f catalog i).2.2.machine.stack) :
    Respects (Within Ready) (Act.interpreter f) :=
  .of_keeps fun d h => ⟨h.defined, (hf _ _).uri_ne (by decide) h.uris⟩

theorem footing_ready : Footing (Within Ready) where
  studio h := by rw [h.1]
  defined h := by rw [h.1]
  logLevel level := .of_keeps fun _ h => ⟨h.defined, h.uris⟩
  write text := .of_keeps fun _ h => ⟨h.defined, h.uris⟩
  push v := .of_keeps fun _ h => ⟨h.defined, h.uris⟩
  pop := ready_interpreter fun catalog i => i.effect_pop catalog

theorem ready_player (f : Player → Player) : Respects (Within Ready) (Act.player f) :=
  .of_keeps fun _ h => ⟨h.defined, h.uris⟩

theorem ready_await (p : Pending) : Respects (Within Ready) (Act.await p) :=
  .of_keeps fun _ h => ⟨h.defined, h.uris⟩

theorem ready_lead (w : Word) : Respects (Within Ready) w.lead := by
  have hsignal (s : Signal) : Respects (Within Ready) (Act.signal s) :=
    .of_keeps fun _ h => ⟨h.defined, h.uris⟩
  have hseek (position : Int) : Respects (Within Ready) (seekNow position) := by
    refine .of_keeps fun d h => ⟨h.defined, ?_⟩
    rw [run_seekNow, catalog_seek]
    exact h.uris
  exact footing_ready.lead ready_player hseek ready_await hsignal

theorem kept_ready : Kept (fun _ => True) Ready where
  console h _ hd := ⟨hd.trans h.defined, h.uris⟩
  opens {d token} h _ := by
    have hopening : Respects (Within Ready)
        (opening d.console.pending (d.console.meaning? token) token) :=
      respects_opening (ready_interpreter fun catalog i => i.effect_push token catalog) ready_lead
        (footing_ready.assignStore ready_player) ready_await _ _
    exact hopening.keeps (d := d.idle) ⟨h.defined, h.uris⟩
  hands _ _ _ := Agenda.says_true _

/-- A console with the words it began with, between two tokens. -/
structure Own (d : Desk) : Prop where
  defined : d.console.defined = []
  settled : d.console.Settled

theorem kept_own : Kept (fun _ => True) Own where
  console {d c} h hi hd := by
    refine ⟨hd.trans h.defined, ?_, ?_⟩
    · rw [hi]
      exact h.settled.printed
    · rw [hi]
      exact h.settled.popWord
  opens {d token} h _ := by
    have hl := lockstep_settled []
    have hlead (w : Word) :=
      (hl.footing ()).lead (hl.player ()) (hl.seekNow ()) (hl.awaits ()) (hl.signal ()) (w := w)
    have hopening := respects_opening (hl.forward () token) hlead (hl.assignStore ())
      (hl.awaits ()) d.console.pending (d.console.meaning? token)
    obtain ⟨hs, hd⟩ := hopening.keeps (d := d.idle)
      ⟨⟨h.settled.printed, h.settled.popWord⟩, h.defined⟩
    exact ⟨hd, hs⟩
  hands _ _ _ := Agenda.says_true _

/-- How deep the words can lie in one another that a token pushes. -/
def rank (token : String) : Nat :=
  if token = Word.clone.name then 2 else if token = Word.status.name then 1 else 0

theorem rank_le (token : String) : rank token ≤ 2 := by
  unfold rank
  split
  · exact Nat.le_refl _
  · split <;> decide

theorem rank_of_not_word {token : String} (ht : Word.ofName? token = none) : rank token = 0 := by
  have hne (w : Word) : token ≠ w.name := by
    rintro rfl
    rw [ofName?_name] at ht
    cases ht
  rw [rank, if_neg (hne _), if_neg (hne _)]

section Opens

variable {token : String} {d d' : Desk}

/-- The tokens that a word pushes lie less deep than the word, unless it copies an item by whose URI
it would be said again. -/
theorem rank_lead {w : Word} {ts : List String} (hl : w.lead.run d = (.ok ts, d')) :
    (∀ t ∈ ts, rank t < rank w.name) ∨
      w = .clone ∧ ∃ handle, (d'.studio.catalog.get handle).uri = Word.clone.name ∧
        ts = Word.clone.name :: (d'.studio.catalog.get handle).assignments := by
  rcases Word.lead_eq_ok hl with rfl | ⟨rfl, rfl⟩ | ⟨rfl, handle, rfl⟩
  · exact .inl (List.forall_mem_nil _)
  · refine .inl fun t ht => ?_
    simp only [List.mem_cons, List.not_mem_nil, or_false, or_self] at ht
    subst ht
    decide
  · by_cases hu : (d'.studio.catalog.get handle).uri = Word.clone.name
    · exact .inr ⟨rfl, handle, hu, by rw [hu]⟩
    · refine .inl fun t ht => ?_
      have hclone : rank Word.clone.name = 2 := by decide
      rw [hclone]
      rcases List.mem_cons.1 ht with rfl | ht
      · rw [rank, if_neg hu]
        split <;> decide
      · rw [rank_of_not_word (noWord_of_mem_assignments ht).console]
        decide

theorem rank_handed (hd : d.console.defined = []) {ts : List String}
    (ho : openAt token d = (.ok (.tokens ts), d')) :
    (∀ t ∈ ts, rank t < rank token) ∨
      Word.clone.lead.run d.idle = (.ok ts, d') ∧
        ∃ handle, (d'.studio.catalog.get handle).uri = Word.clone.name ∧
          ts = Word.clone.name :: (d'.studio.catalog.get handle).assignments := by
  have hm : d.console.meaning? token = (Word.ofName? token).map .word := by
    simp [meaning?, hd]
  rw [openAt, hm] at ho
  rcases opening_eq_ok ho with ⟨lines, he, -⟩ | ⟨w, ts, hw, he, hl⟩ | ⟨ts, hw, -⟩ | he
  · cases he
  · cases he
    obtain ⟨w', hw, he⟩ := Option.map_eq_some_iff.1 hw
    cases he
    rw [← name_of_ofName? hw]
    refine (rank_lead hl).imp_right ?_
    rintro ⟨rfl, hu⟩
    exact ⟨hl, hu⟩
  · obtain ⟨w, -, hw⟩ := Option.map_eq_some_iff.1 hw
    cases hw
  · cases he
    exact .inl (List.forall_mem_nil _)

end Opens

theorem Runs.ne_endless {task : Task} {d e : Desk} {marks : List Mark} {r : Except Fault Unit}
    (h : Runs task d marks r e) : r ≠ .error .endless := by
  induction h with
  | @refused token d _ fault ho =>
      have hends := ends_opening d.console.pending (d.console.meaning? token) token d.idle
      rw [openAt] at ho
      rw [ho] at hends
      rintro ⟨⟩
      exact hends rfl
  | unread | done => rintro ⟨⟩
  | handed _ _ ih | read _ _ ih | line _ _ ih | next _ _ _ ih | failed _ ih => exact ih

/-- On top lies an item whose URI is the name of the word that copies. -/
structure Circular (d : Desk) : Prop where
  own : Own d
  pending : d.console.pending = none
  top : ∃ k stack, d.console.interpreter.machine.stack = .item k :: stack ∧
    (d.studio.catalog.get k).uri = Word.clone.name

/-- To copy it, the word that copies has to be said first, and the item is on top as before. -/
theorem Circular.opens {d : Desk} (h : Circular d) :
    ∃ ts e, openAt Word.clone.name d = (.ok (.tokens (Word.clone.name :: ts)), e) ∧ Circular e := by
  obtain ⟨k, stack, hs, hu⟩ := h.top
  have hm : d.console.meaning? Word.clone.name = some (.word .clone) := by
    simp [meaning?, h.own.defined, ofName?_name]
  have hidle : d.idle = d := idle_eq h.pending
  refine ⟨(d.studio.catalog.get k).assignments,
    { d with console.interpreter.machine := { stack := .item k :: stack } }, ?_,
    ⟨h.own.defined, rfl, h.own.settled.popWord⟩, h.pending, k, stack, rfl, hu⟩
  rw [openAt, hidle, h.pending, hm, opening, run_bind, run_lead_clone h.own.settled hs, hu]
  rfl

theorem Circular.not_runs {task : Task} {d e : Desk} {marks : List Mark} {r : Except Fault Unit}
    (hc : Circular d) (h : Runs task d marks r e) :
    task ≠ .token Word.clone.name ∧ ∀ tasks, task ≠ .all (.token Word.clone.name :: tasks) := by
  induction h with
  | refused ho | read ho =>
      refine ⟨?_, nofun⟩
      rintro ⟨⟩
      obtain ⟨_, _, ho', -⟩ := hc.opens
      cases ho.symm.trans ho'
  | handed ho h ih =>
      refine ⟨?_, nofun⟩
      rintro ⟨⟩
      obtain ⟨_, _, ho', hc'⟩ := hc.opens
      cases ho.symm.trans ho'
      exact (ih hc').2 _ rfl
  | unread | line | done => exact ⟨nofun, nofun⟩
  | next h k ih ih' | failed h ih =>
      refine ⟨nofun, ?_⟩
      rintro tasks ⟨⟩
      exact (ih hc).1 rfl

/-- Where the word that copies is said again, it has put the item back on top. -/
theorem circular_of_lead {d e : Desk} {ts : List String} (hd : Own d)
    (hp : d.console.pending = none)
    (hl : Word.clone.lead.run d = (.ok (Word.clone.name :: ts), e)) : Circular e := by
  cases hs : d.console.interpreter.machine.stack with
  | nil =>
      rw [Word.lead, run_bind, Act.popItem, run_bind,
        run_pop_eq hd.settled.popWord hd.settled.printed, hs] at hl
      cases hl
  | cons v stack =>
      cases v with
      | literal text =>
          rw [Word.lead, run_bind, Act.popItem, run_bind,
            run_pop_eq hd.settled.popWord hd.settled.printed, hs] at hl
          cases hl
      | item k =>
          rw [run_lead_clone hd.settled hs, Prod.mk.injEq, Except.ok.injEq, List.cons.injEq] at hl
          obtain ⟨⟨hu, -⟩, rfl⟩ := hl
          exact ⟨⟨hd.defined, rfl, hd.settled.popWord⟩, hp, k, stack, rfl, hu⟩

/-- What holds of a task and the desk before it, and then of all that the task comes down to, where
no word says words as deep as itself. -/
structure Descends (Q : Task → Desk → Prop) : Prop where
  handed : ∀ {token ts d d'}, Q (.token token) d → openAt token d = (.ok (.tokens ts), d') →
    Q (.all (ts.map .token)) d' ∧ ∀ t ∈ ts, rank t < rank token
  read : ∀ {token lines d d'}, Q (.token token) d → openAt token d = (.ok (.script lines), d') →
    Q (.all (lines.map .line)) d'.inner
  line : ∀ {line ts d}, Q (.line line) d → Token.ofLine line = .ok ts → Q (.all (ts.map .token)) d
  first : ∀ {task tasks d}, Q (.all (task :: tasks)) d → Q task d
  next : ∀ {task tasks d d' marks}, Q (.all (task :: tasks)) d → Runs task d marks (.ok ()) d' →
    Q (.all tasks) d'

theorem descends_ready : Descends fun _ d => Ready d where
  handed hd ho := by
    have hd' := kept_ready.opened ho hd
    refine ⟨hd', (rank_handed hd.defined ho).resolve_right ?_⟩
    rintro ⟨-, handle, hu, -⟩
    exact hd'.uris handle hu
  read hd ho := by
    have hd' := kept_ready.opened ho hd
    exact ⟨hd'.defined, hd'.uris⟩
  line hd _ := hd
  first hd := hd
  next hd h := h.kept kept_ready hd

theorem descends_runs : Descends fun task d => Own d ∧ ∃ marks r e, Runs task d marks r e where
  handed h ho := by
    obtain ⟨hd, _, _, _, hr⟩ := h
    cases hr with
    | refused ho' | read ho' => cases ho.symm.trans ho'
    | handed ho' hr =>
        cases ho.symm.trans ho'
        refine ⟨⟨kept_own.opened ho hd, _, _, _, hr⟩,
          (rank_handed hd.defined ho).resolve_right ?_⟩
        rintro ⟨hl, handle, -, rfl⟩
        have hidle : Own (Desk.idle _) := kept_own.console hd rfl rfl
        exact ((circular_of_lead hidle rfl hl).not_runs hr).2 _ rfl
  read h ho := by
    obtain ⟨hd, _, _, _, hr⟩ := h
    cases hr with
    | refused ho' | handed ho' => cases ho.symm.trans ho'
    | read ho' hr =>
        cases ho.symm.trans ho'
        exact ⟨kept_own.console (kept_own.opened ho hd) rfl rfl, _, _, _, hr⟩
  line h hl := by
    obtain ⟨hd, _, _, _, hr⟩ := h
    cases hr with
    | unread hl' => cases hl.symm.trans hl'
    | line hl' hr =>
        cases hl.symm.trans hl'
        exact ⟨hd, _, _, _, hr⟩
  first h := by
    obtain ⟨hd, _, _, _, hr⟩ := h
    cases hr with
    | next hr _ | failed hr => exact ⟨hd, _, _, _, hr⟩
  next h hr := by
    obtain ⟨hd, _, _, _, hk⟩ := h
    refine ⟨hr.kept kept_own hd, ?_⟩
    cases hk with
    | next hr' hk =>
        obtain ⟨-, -, rfl⟩ := hr.unique hr'
        exact ⟨_, _, _, hk⟩
    | failed hr' =>
        obtain ⟨-, he, -⟩ := hr.unique hr'
        cases he

def Finishes (task : Task) (act : Act Unit) (d : Desk) : Prop :=
  ∃ marks, Runs task d marks (act.run d).1 (act.run d).2

section Finishes

variable {n depth : Nat} {d : Desk} {Q : Task → Desk → Prop}

theorem finishes_cons {α : Type} {task : α → Task} {act : α → Act Unit} {a : α} {as : List α}
    (ha : Finishes (task a) (act a) d)
    (hrest : ∀ e, (act a).run d = (.ok (), e) →
      Finishes (.all (as.map task)) (as.forM act) e) :
    Finishes (.all ((a :: as).map task)) ((a :: as).forM act) d := by
  obtain ⟨marks, hr⟩ := ha
  rw [Finishes, List.forM_eq_forM, List.forM_cons, run_bind, List.map_cons]
  generalize (act a).run d = x at hr hrest ⊢
  obtain ⟨_ | _, e⟩ := x
  · exact ⟨marks, .failed hr⟩
  · obtain ⟨more, hm⟩ := hrest e rfl
    exact ⟨marks ++ more, .next hr hm⟩

theorem finishes_forM (hQ : Descends Q) {α : Type} {task : α → Task} {act : α → Act Unit}
    {as : List α}
    (h : ∀ a ∈ as, ∀ e, Q (task a) e → e.console.depth = depth → Finishes (task a) (act a) e)
    (hd : Q (.all (as.map task)) d) (hdepth : d.console.depth = depth) :
    Finishes (.all (as.map task)) (as.forM act) d := by
  induction as generalizing d with
  | nil => exact ⟨[], .done⟩
  | cons a as ih =>
      obtain ⟨marks, hr⟩ := h a List.mem_cons_self d (hQ.first hd) hdepth
      refine finishes_cons ⟨marks, hr⟩ fun e he => ?_
      rw [he] at hr
      exact ih (fun b hb => h b (List.mem_cons_of_mem _ hb)) (hQ.next hd hr)
        (hr.depth.trans hdepth)

theorem finishes_defineWith {push : String → Act Unit} {line : String}
    (h : ∀ ts, Token.ofLine line = .ok ts →
      Finishes (.all (ts.map .token)) (ts.forM push) d) :
    Finishes (.line line) (defineWith push line) d := by
  rw [Finishes, defineWith, run_orIdle]
  cases hl : Token.ofLine line with
  | error cause => exact ⟨[], .unread hl⟩
  | ok ts =>
      obtain ⟨marks, hr⟩ := h ts hl
      refine ⟨marks, ?_⟩
      have hline := Runs.line hl hr
      dsimp only
      generalize (ts.forM push).run d = x at hline ⊢
      obtain ⟨_ | _, e⟩ := x <;> exact hline

/-- So many levels are enough to run a token to its end. Whatever the ranks of the tokens of a
script, with the script there is one level less for scripts. -/
theorem finishes_pushAt (hQ : Descends Q) {token : String}
    (hn : 3 * (deepest - d.console.depth) + rank token < n) (hd : Q (.token token) d) :
    Finishes (.token token) (pushAt n token) d := by
  induction n generalizing token d with
  | zero => omega
  | succ n ih =>
      rw [Finishes, run_pushAt_succ]
      cases hx : openAt token d with
      | mk r d' =>
          have hdepth := depth_openAt hx
          cases r with
          | error fault => exact ⟨_, .refused hx⟩
          | ok agenda =>
              cases agenda with
              | tokens ts =>
                  obtain ⟨hd', hrank⟩ := hQ.handed hd hx
                  have hpush (t : String) (ht : t ∈ ts) (e : Desk) (h : Q (.token t) e)
                      (he : e.console.depth = d.console.depth) :
                      Finishes (.token t) (pushAt n t) e := by
                    have hrank := hrank t ht
                    exact ih (by omega) h
                  obtain ⟨marks, hr⟩ := finishes_forM hQ hpush hd' hdepth
                  exact ⟨_, .handed hx hr⟩
              | script lines =>
                  have hdeep := depth_of_read hx
                  have hpush (t : String) (e : Desk) (h : Q (.token t) e)
                      (he : e.console.depth = d.console.depth + 1) :
                      Finishes (.token t) (pushAt n t) e := by
                    have hrank := rank_le t
                    exact ih (by omega) h
                  have hline (line : String) (e : Desk) (h : Q (.line line) e)
                      (he : e.console.depth = d.console.depth + 1) :
                      Finishes (.line line) (defineWith (pushAt n) line) e :=
                    finishes_defineWith fun ts hl =>
                      finishes_forM hQ (fun t _ => hpush t) (hQ.line h hl) he
                  obtain ⟨marks, hr⟩ := finishes_forM hQ (fun line _ => hline line)
                    (hQ.read hd hx) (congrArg (· + 1) hdepth)
                  exact ⟨_, .read hx hr⟩

theorem finishes_define (hQ : Descends Q) {line : String} (hd : Q (.line line) d) :
    Finishes (.line line) (define line) d := by
  refine finishes_defineWith fun ts hl =>
    finishes_forM hQ (fun token _ e he _ => ?_) (hQ.line hd hl) rfl
  have hrank := rank_le token
  have hlevels : 3 * deepest + 2 < levels := by decide
  exact finishes_pushAt hQ (by omega) he

theorem finishes_forM_of_ne {α : Type} {task : α → Task} {act : α → Act Unit} {as : List α}
    (h : ∀ a ∈ as, ∀ d, ((act a).run d).1 ≠ .error .endless → Finishes (task a) (act a) d)
    (hne : ((as.forM act).run d).1 ≠ .error .endless) :
    Finishes (.all (as.map task)) (as.forM act) d := by
  induction as generalizing d with
  | nil => exact ⟨[], .done⟩
  | cons a as ih =>
      rw [List.forM_eq_forM, List.forM_cons, run_bind] at hne
      refine finishes_cons (h a List.mem_cons_self d fun ha => hne ?_) fun e he => ?_
      · generalize (act a).run d = x at ha ⊢
        obtain ⟨fault | _, e⟩ := x
        · exact ha
        · cases ha
      · rw [he] at hne
        exact ih (fun b hb => h b (List.mem_cons_of_mem _ hb)) hne

theorem finishes_defineWith_of_ne {push : String → Act Unit}
    (h : ∀ token d, ((push token).run d).1 ≠ .error .endless →
      Finishes (.token token) (push token) d) {line : String}
    (hne : ((defineWith push line).run d).1 ≠ .error .endless) :
    Finishes (.line line) (defineWith push line) d := by
  rw [defineWith, run_orIdle] at hne
  refine finishes_defineWith fun ts hl => finishes_forM_of_ne (fun t _ => h t) fun hts => hne ?_
  rw [hl]
  dsimp only
  generalize (ts.forM push).run d = x at hts ⊢
  obtain ⟨fault | _, e⟩ := x
  · exact hts
  · cases hts

/-- So many levels that the answer is another are enough. -/
theorem finishes_pushAt_of_ne {n : Nat} {token : String}
    (hne : ((pushAt n token).run d).1 ≠ .error .endless) :
    Finishes (.token token) (pushAt n token) d := by
  induction n generalizing token d with
  | zero => exact absurd rfl hne
  | succ n ih =>
      rw [run_pushAt_succ] at hne
      rw [Finishes, run_pushAt_succ]
      cases hx : openAt token d with
      | mk r d' =>
          rw [hx] at hne
          cases r with
          | error fault => exact ⟨_, .refused hx⟩
          | ok agenda =>
              cases agenda with
              | tokens ts =>
                  obtain ⟨marks, hr⟩ := finishes_forM_of_ne (fun t _ _ => ih) hne
                  exact ⟨_, .handed hx hr⟩
              | script lines =>
                  have hlines : Finishes (.all (lines.map .line))
                      (lines.forM (defineWith (pushAt n))) d'.inner :=
                    finishes_forM_of_ne (fun line _ _ => finishes_defineWith_of_ne fun _ _ => ih)
                      hne
                  obtain ⟨marks, hr⟩ := hlines
                  exact ⟨_, .read hx hr⟩

/-- A line is answered as its one run ends, unless there is no end to be seen. -/
theorem finishes_define_iff (line : String) (d : Desk) :
    Finishes (.line line) (define line) d ↔ ((define line).run d).1 ≠ .error .endless := by
  constructor
  · rintro ⟨marks, hr⟩
    exact hr.ne_endless
  · exact finishes_defineWith_of_ne fun _ _ => finishes_pushAt_of_ne

end Finishes

/-- Every line ends where there are only the console's own words and no item has their copying word for
its URI. -/
theorem define_ends {d : Desk} (hd : d.console.defined = [])
    (hu : ∀ k, (d.studio.catalog.get k).uri ≠ Word.clone.name) (line : String) :
    ((define line).run d).1 ≠ .error .endless :=
  (finishes_define_iff line d).1 (finishes_define descends_ready ⟨hd, hu⟩)

theorem uri_ne_of_built {item : Item} (h : Built item) : item.uri ≠ Word.clone.name := by
  intro hu
  have hword := (noWord_of_built h List.mem_cons_self).console
  rw [hu, ofName?_name] at hword
  cases hword

theorem ready_of_lines {d : Desk} (h : Ready d) (lines : List String) :
    Ready (lines.foldl (fun d line => ((define line).run d).2) d) := by
  induction lines generalizing d with
  | nil => exact h
  | cons line lines ih =>
      obtain ⟨marks, hr⟩ : Finishes (.line line) (define line) d := finishes_define descends_ready h
      exact ih (hr.kept kept_ready h)

/-- Where tokens have made all items, every line ends, and so does every line after it, whatever items
these lines make. -/
theorem define_ends_of_lines {d : Desk} (hd : d.console.defined = [])
    (hb : ∀ k, Built (d.studio.catalog.get k)) (lines : List String) (line : String) :
    ((define line).run (lines.foldl (fun d line => ((define line).run d).2) d)).1 ≠
      .error .endless := by
  have hready := ready_of_lines ⟨hd, fun k => uri_ne_of_built (hb k)⟩ lines
  exact define_ends hready.defined hready.uris line

/-- Up to the first failure nothing fails, and behind it there is nothing but the same failure of the
tokens around it. -/
def Stops (marks : List Mark) : Except Fault Unit → Prop
  | .ok _ => ∀ mark ∈ marks, mark.failure? = none
  | .error fault =>
    ∃ front back, marks = front ++ back ∧ (∀ mark ∈ front, mark.failure? = none) ∧
      ∀ mark ∈ back, mark.failure? = some fault

section Stops

variable {marks more : List Mark} {r : Except Fault Unit}

theorem Stops.after_ok (h : ∀ mark ∈ marks, mark.failure? = none) (k : Stops more r) :
    Stops (marks ++ more) r := by
  cases r with
  | ok => exact fun mark hm => (List.mem_append.1 hm).elim (h mark) (k mark)
  | error fault =>
      obtain ⟨front, back, rfl, hfront, hback⟩ := k
      exact ⟨marks ++ front, back, (List.append_assoc _ _ _).symm,
        fun mark hm => (List.mem_append.1 hm).elim (h mark) (hfront mark), hback⟩

theorem Stops.ended (h : Stops marks r) (depth : Nat) (token : String) :
    Stops (marks ++ [.ended depth token r]) r := by
  cases r with
  | ok => exact Stops.after_ok h fun mark hm => by rw [List.mem_singleton.1 hm]; rfl
  | error fault =>
      obtain ⟨front, back, rfl, hfront, hback⟩ := h
      refine ⟨front, back ++ [.ended depth token (.error fault)], List.append_assoc _ _ _, hfront,
        fun mark hm => (List.mem_append.1 hm).elim (hback mark) fun hm => ?_⟩
      rw [List.mem_singleton.1 hm]
      rfl

theorem Runs.stops {task : Task} {d e : Desk} (h : Runs task d marks r e) : Stops marks r := by
  induction h with
  | @refused token d e fault ho =>
      exact ⟨[.began d.console.depth token], [.ended d.console.depth token (.error fault)], rfl,
        by simp [Mark.failure?], by simp [Mark.failure?]⟩
  | @handed token _ d _ _ _ _ _ _ ih =>
      have hfront : ∀ mark ∈ [Mark.began d.console.depth token], mark.failure? = none := by
        simp [Mark.failure?]
      exact (Stops.after_ok hfront ih).ended d.console.depth token
  | @read token _ d _ _ _ _ _ _ ih =>
      have hfront : ∀ mark ∈ [Mark.began d.console.depth token, .entered (d.console.depth + 1)],
          mark.failure? = none := by
        simp [Mark.failure?]
      exact (Stops.after_ok hfront ih).ended d.console.depth token
  | unread => exact ⟨[], [], rfl, nofun, nofun⟩
  | line _ _ ih => exact ih
  | done => exact nofun
  | next _ _ ih ih' => exact Stops.after_ok ih ih'
  | failed _ ih => exact ih

theorem Stops.of_failure (h : Stops marks r) {before later : List Mark} {mark : Mark} {fault : Fault}
    (he : marks = before ++ mark :: later) (hm : mark.failure? = some fault) :
    r = .error fault ∧ ∀ m ∈ later, m.failure? = some fault := by
  subst he
  cases r with
  | ok =>
      have hnone := h mark (by simp)
      rw [hm] at hnone
      cases hnone
  | error fault' =>
      obtain ⟨front, back, he, hfront, hback⟩ := h
      have hne : mark ∉ front := fun hf => by
        rw [hfront mark hf] at hm
        cases hm
      -- The mark is behind the front, and so is all that comes later.
      obtain ⟨between, rfl, rfl⟩ : ∃ between, before = front ++ between ∧
          back = between ++ mark :: later := by
        rcases List.append_eq_append_iff.1 he with ⟨between, hf, hb⟩ | ⟨between, hf, hb⟩
        · cases between with
          | nil => exact ⟨[], by simpa using hf.symm, by simpa using hb.symm⟩
          | cons m between =>
              cases hb
              exact absurd (by simp [hf]) hne
        · exact ⟨between, hf, hb⟩
      have hfault := hback mark (by simp)
      rw [hm] at hfault
      cases hfault
      exact ⟨rfl, fun m hm => hback m (by simp [hm])⟩

end Stops

structure Unwinds (line : String) (d : Desk) (marks : List Mark) : Prop where
  /-- It is the one run of the line, and it is what the console does. -/
  runs : ∀ marks' r e, Runs (.line line) d marks' r e ↔ marks' = marks ∧ (define line).run d = (r, e)
  nested : ∀ mark ∈ marks, mark.depth ≤ max deepest d.console.depth
  depth : ((define line).run d).2.console.depth = d.console.depth
  /-- Behind a token that fails no other is taken up, and its failure is that of the line. -/
  stops : ∀ before mark later fault, marks = before ++ mark :: later → mark.failure? = some fault →
    ((define line).run d).1 = .error fault ∧ ∀ m ∈ later, m.failure? = some fault
  idle : ((define line).run d).1.isOk = false → ((define line).run d).2.console.pending = none

theorem unwinds_of_finishes {line : String} {d : Desk}
    (h : Finishes (.line line) (define line) d) : ∃ marks, Unwinds line d marks := by
  obtain ⟨marks, hr⟩ := h
  refine ⟨marks, fun marks' r e => ⟨fun h => ?_, ?_⟩, hr.nested, hr.depth,
    fun before mark later fault he hm => hr.stops.of_failure he hm, fun hf => ?_⟩
  · obtain ⟨hm, hres, hdesk⟩ := hr.unique h
    exact ⟨hm, by rw [hres, hdesk]⟩
  · rintro ⟨rfl, he⟩
    rwa [he] at hr
  · rw [define, defineWith, run_orIdle] at hf ⊢
    generalize Act.run _ d = x at hf ⊢
    obtain ⟨_ | _, e⟩ := x
    · rfl
    · cases hf

/-- Every line comes to its end, whatever the scripts are, unless there is an item that is copied by
copying it. Where there is no answer there is no run either. -/
theorem define_unwinds {d : Desk} (hd : d.console.defined = []) (line : String) :
    (∃ marks, Unwinds line d marks) ∨
      ((define line).run d).1 = .error .endless ∧
        (d.console.Settled → ∀ marks r e, ¬Runs (.line line) d marks r e) ∧
        ∃ h, (d.studio.catalog.get h).uri = Word.clone.name := by
  by_cases he : ((define line).run d).1 = .error .endless
  · refine .inr ⟨he, fun hc marks r e hr => ?_, ?_⟩
    · obtain ⟨_, hrun⟩ := finishes_define descends_runs ⟨⟨hd, hc⟩, marks, r, e, hr⟩
      exact hrun.ne_endless he
    · by_contra hu
      exact define_ends hd (fun h hc => hu ⟨h, hc⟩) line he
  · exact .inl (unwinds_of_finishes ((finishes_define_iff line d).2 he))

theorem define_unwinds_loop :
    let d : Desk :=
      ⟨{ files := Files.ofList [("loop", Text.Utf8.encode "include loop\nhello .")] }, {}⟩
    d.console.defined = [] ∧ (∃ marks, Unwinds "hello . include loop" d marks) ∧
      ((define "hello . include loop").run d).2.console.interpreter.output = ["hello"] ∧
      ((define "hello . include loop").run d).1.isOk = false := by
  intro d
  refine ⟨rfl, (define_unwinds rfl _).resolve_right ?_, by decide +kernel, by decide +kernel⟩
  rintro ⟨-, -, h, hu⟩
  have he : (d.studio.catalog.get h).uri = "test:" := by
    simp [d, Catalog.get, Item.testPattern, Item.fresh]
  rw [he] at hu
  revert hu
  decide

/-- A line that copies an item of that URI has no run, so it does not come to its end. -/
theorem define_clone_without_end :
    ¬∀ (d : Desk) (line : String), d.console.defined = [] →
      ∃ marks r e, Runs (.line line) d marks r e := by
  intro h
  let d : Desk :=
    { studio := { catalog := ⟨#[.fresh Word.clone.name .testPattern]⟩ }
      console := { interpreter := { popWord := "dot", machine := { stack := [.item 0] } } } }
  have hc : Circular d := ⟨⟨rfl, rfl, rfl⟩, rfl, 0, [], rfl, rfl⟩
  obtain ⟨marks, r, e, hr⟩ := h d Word.clone.name rfl
  have hl : (Token.ofLine Word.clone.name).toOption = some [Word.clone.name] := by decide +kernel
  cases hr with
  | unread hl' =>
      rw [hl'] at hl
      cases hl
  | line hl' hr =>
      rw [hl'] at hl
      cases hl
      exact (hc.not_runs hr).2 [] rfl

end Console

end Playout
