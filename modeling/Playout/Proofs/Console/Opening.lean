import Playout.Proofs.Console.Plain

namespace Playout

def Desk.idle (d : Desk) : Desk := { d with console := d.console.idle }

theorem Act.bind_eq_ok {α β : Type} {act : Act α} {f : α → Act β} {b : β} {d e : Desk}
    (h : (act >>= f).run d = (.ok b, e)) :
    ∃ a d', act.run d = (.ok a, d') ∧ (f a).run d' = (.ok b, e) := by
  rw [run_bind] at h
  generalize act.run d = x at h ⊢
  obtain ⟨_ | a, d'⟩ := x
  · cases h
  · exact ⟨a, d', rfl, h⟩

namespace Console

open Act Media Stack

/-- What a token leaves to be done. -/
inductive Agenda where
  | tokens (ts : List String)
  | script (lines : List String)

def Agenda.run (push : String → Act Unit) : Agenda → Act Unit
  | tokens ts => ts.forM push
  | script lines => deeper (lines.forM (defineWith push))

namespace Word

/-- What a word does before it pushes tokens, with the tokens that it pushes. -/
def lead : Word → Act (List String)
  | status => do
    (statusOf (← get)).forM fun n => Act.pushText (Number.ofInteger n)
    return [".", ".", "."]
  | clone => do
    let h ← Act.popItem clone.name
    let item := (← Act.catalog).get h
    Act.push (.item h)
    return item.uri :: item.assignments
  | w => do
    w.run fun _ => pure ()
    return []

theorem lead_of_not_pushes {w : Word} (hw : w.pushes = false) :
    w.lead = do
      w.run fun _ => pure ()
      return [] := by
  cases w <;> first | rfl | cases hw

/-- A word pushes nothing, or prints a status, or says what an item is made of. -/
theorem lead_eq_ok {w : Word} {ts : List String} {d e : Desk} (h : w.lead.run d = (.ok ts, e)) :
    ts = [] ∨ (w = status ∧ ts = [".", ".", "."]) ∨
      (w = clone ∧ ∃ handle, ts = (e.studio.catalog.get handle).uri ::
        (e.studio.catalog.get handle).assignments) := by
  by_cases hw : w.pushes = true
  · cases w with
    | status =>
        obtain ⟨_, _, -, h⟩ := bind_eq_ok h
        obtain ⟨_, _, -, h⟩ := bind_eq_ok h
        cases h
        exact .inr (.inl ⟨rfl, rfl⟩)
    | clone =>
        obtain ⟨handle, _, -, h⟩ := bind_eq_ok h
        obtain ⟨_, _, hcatalog, h⟩ := bind_eq_ok h
        cases hcatalog
        obtain ⟨_, _, hpush, h⟩ := bind_eq_ok h
        cases hpush
        cases h
        exact .inr (.inr ⟨rfl, handle, rfl⟩)
    | _ => cases hw
  · rw [lead_of_not_pushes (by simpa using hw)] at h
    obtain ⟨_, _, -, h⟩ := bind_eq_ok h
    cases h
    exact .inl rfl

theorem run_eq_lead (push : String → Act Unit) (w : Word) :
    w.run push = w.lead >>= fun ts => ts.forM push := by
  by_cases hw : w.pushes = true
  · cases w with
    | status => simp [Word.run, lead]
    | clone => simp [Word.run, lead]
    | _ => cases hw
  · have hrun : w.run push = w.run fun _ => pure () := by
      cases w <;> first | rfl | exact absurd rfl hw
    rw [hrun, lead_of_not_pushes (by simpa using hw)]
    simp

end Word

theorem catalog_seek (position : Int) (catalog : Catalog) (p : Player) :
    (p.seek position 0 catalog).2.1 = catalog := by
  unfold Player.seek
  cases p.deck.current <;> rfl

def readScript (name : String) : Act (List String) := do
  let desk ← get
  match desk.console.locate? desk.studio.files name with
  | none => Act.fail Word.includeScript.name (.notLocated name)
  | some path =>
    if deepest ≤ desk.console.depth then Act.fail Word.includeScript.name .nestedTooDeeply
    else
      match desk.studio.files.readText path with
      | .error cause => throw (.file cause)
      | .ok script => return Text.linesOf script

theorem runScriptWith_eq (push : String → Act Unit) (name : String) :
    runScriptWith push name = readScript name >>= fun lines => (Agenda.script lines).run push := by
  rw [runScriptWith, readScript, bind_assoc]
  congr 1
  funext desk
  cases desk.console.locate? desk.studio.files name with
  | none => rfl
  | some path =>
      dsimp only
      split
      · rfl
      · cases desk.studio.files.readText path <;> rfl

theorem run_readScript (name : String) (d : Desk) :
    ((readScript name).run d).2 = d ∧
      (((readScript name).run d).1.isOk = true → d.console.depth < deepest) := by
  rw [readScript, run_get_bind]
  cases d.console.locate? d.studio.files name with
  | none => exact ⟨rfl, nofun⟩
  | some path =>
      dsimp only
      split
      · exact ⟨rfl, nofun⟩
      · rename_i hd
        refine ⟨?_, fun _ => Nat.lt_of_not_le hd⟩
        cases d.studio.files.readText path <;> rfl

theorem readScript_eq_ok {name : String} {lines : List String} {d e : Desk}
    (h : (readScript name).run d = (.ok lines, e)) :
    ∃ path script, d.studio.files.readText path = .ok script ∧ lines = Text.linesOf script := by
  rw [readScript, run_get_bind] at h
  cases hl : d.console.locate? d.studio.files name with
  | none =>
      rw [hl] at h
      cases h
  | some path =>
      rw [hl] at h
      dsimp only at h
      split at h
      · cases h
      · cases hr : d.studio.files.readText path with
        | error cause =>
            rw [hr] at h
            cases h
        | ok script =>
            rw [hr] at h
            cases h
            exact ⟨path, script, hr, rfl⟩

namespace Footing

variable {R : Desk → Desk → Prop} (h : Footing R)

include h

theorem lead {w : Word} (hplayer : ∀ f, Respects R (Act.player f))
    (hseek : ∀ position, Respects R (Console.seekNow position))
    (hawait : ∀ p, Respects R (Act.await p)) (hsignal : ∀ s, Respects R (Act.signal s)) :
    Respects R w.lead := by
  by_cases hw : w.pushes = true
  · cases w with
    | status =>
        refine h.look (fun d => ?_) fun d e hs => by rw [statusOf, statusOf, hs]
        exact (Respects.forM (fun n => h.pushText _) _).bind fun _ => .pure _
    | clone =>
        exact (h.popItem _).bind fun handle => h.catalog.bind fun catalog =>
          (h.push _).bind fun _ => .pure _
    | _ => cases hw
  · rw [Word.lead_of_not_pushes (by simpa using hw)]
    exact (h.word (fun hp => absurd hp hw) (fun _ => hplayer) (fun _ => hseek) (fun _ => hawait)
      fun _ => hsignal).bind fun _ => .pure _

theorem assignStore (hplayer : ∀ f, Respects R (Act.player f)) (given : String) :
    Respects R (Console.assignStore given) := by
  rw [Console.assignStore]
  split
  · exact .fail _ _
  · dsimp only
    split
    · exact h.pop.bind fun v => h.catalog.bind fun catalog =>
        (Respects.pure _).bind fun value => hplayer _
    · exact (Respects.pure _).bind fun value => hplayer _

end Footing

/-- What a token does by itself, where a word may wait for it. -/
def opening (pending : Option Pending) (meaning : Option Meaning) (token : String) : Act Agenda :=
  match pending with
  | some .script => return .script (← readScript token)
  | some (.assignments given) => do
    feed (fun _ => pure ()) (.assignments given) token
    return .tokens []
  | none =>
    match meaning with
    | some (.word w) => return .tokens (← w.lead)
    | some (.tokens ts) => return .tokens ts
    | none => do
      Act.forward token
      return .tokens []

theorem respects_opening {P : Desk → Prop}
    {token : String} (hforward : Respects (Within P) (Act.forward token))
    (hlead : ∀ w : Word, Respects (Within P) w.lead)
    (hstore : ∀ given, Respects (Within P) (assignStore given))
    (hawait : ∀ p, Respects (Within P) (Act.await p)) (pending : Option Pending)
    (meaning : Option Meaning) : Respects (Within P) (opening pending meaning token) := by
  rcases pending with _ | _ | given
  · rcases meaning with _ | w | ts
    · exact hforward.bind fun _ => .pure _
    · exact (hlead w).bind fun _ => .pure _
    · exact .pure _
  · refine Respects.bind (.of_keeps fun d hd => ?_) fun _ => .pure _
    rwa [(run_readScript token d).1]
  · refine Respects.bind ?_ fun _ => .pure _
    rw [feed]
    split
    · exact .forM hstore given
    · exact hawait _

/-- How an agenda comes about. -/
theorem opening_eq_ok {pending : Option Pending} {meaning : Option Meaning} {token : String}
    {agenda : Agenda} {d e : Desk} (h : (opening pending meaning token).run d = (.ok agenda, e)) :
    (∃ lines, agenda = .script lines ∧ (readScript token).run d = (.ok lines, e)) ∨
      (∃ w ts, meaning = some (.word w) ∧ agenda = .tokens ts ∧ w.lead.run d = (.ok ts, e)) ∨
      (∃ ts, meaning = some (.tokens ts) ∧ agenda = .tokens ts) ∨
      agenda = .tokens [] := by
  rcases pending with _ | _ | given
  · rcases meaning with _ | w | ts
    · obtain ⟨_, _, -, h⟩ := bind_eq_ok h
      cases h
      exact .inr (.inr (.inr rfl))
    · obtain ⟨ts, _, hl, h⟩ := bind_eq_ok h
      cases h
      exact .inr (.inl ⟨w, ts, rfl, rfl, hl⟩)
    · cases h
      exact .inr (.inr (.inl ⟨ts, rfl, rfl⟩))
  · obtain ⟨lines, _, hl, h⟩ := bind_eq_ok h
    cases h
    exact .inl ⟨lines, rfl, hl⟩
  · obtain ⟨_, _, -, h⟩ := bind_eq_ok h
    cases h
    exact .inr (.inr (.inr rfl))

theorem discard_dispatch (push : String → Act Unit) (pending : Option Pending)
    (meaning : Option Meaning) (token : String) :
    discard (dispatch push pending meaning token) =
      opening pending meaning token >>= Agenda.run push := by
  rcases pending with _ | _ | given
  · rcases meaning with _ | w | ts
    · simp [discard, map_const, dispatch, opening, Agenda.run]
    · simp [discard, map_const, dispatch, opening, Agenda.run, Word.run_eq_lead push]
    · simp [discard, map_const, dispatch, opening, Agenda.run]
  · simp [discard, map_const, dispatch, opening, feed, runScriptWith_eq]
  · simp [discard, map_const, dispatch, opening, feed, Agenda.run]

def openAt (token : String) (d : Desk) : Except Fault Agenda × Desk :=
  (opening d.console.pending (d.console.meaning? token) token).run d.idle

/-- A token opens its agenda, and the agenda is gone through one level further down. -/
theorem run_pushAt_succ (n : Nat) (token : String) (d : Desk) :
    (pushAt (n + 1) token).run d =
      match openAt token d with
      | (.ok agenda, d) => (agenda.run (pushAt n)).run d
      | (.error e, d) => (.error e, d) := by
  have h : (pushAt (n + 1) token).run d =
      (opening d.console.pending (d.console.meaning? token) token >>= Agenda.run (pushAt n)).run
        d.idle := by
    rw [← discard_dispatch]
    rfl
  rw [h, run_bind, openAt]
  generalize (opening d.console.pending (d.console.meaning? token) token).run d.idle = x
  obtain ⟨_ | _, _⟩ := x <;> rfl

/-- Every token that is to be pushed is of the kind. -/
def Agenda.Says (V : String → Prop) : Agenda → Prop
  | tokens ts => ∀ t ∈ ts, V t
  | script lines => ∀ line ∈ lines, ∀ ts, Token.ofLine line = .ok ts → ∀ t ∈ ts, V t

theorem Agenda.says_true (agenda : Agenda) : agenda.Says fun _ => True := by
  cases agenda <;> simp [Agenda.Says]

/-- A property of desks that tokens of one kind keep, by what they do themselves and by handing on
only tokens of the kind. What a console waits for and how deep its scripts lie does not matter. -/
structure Kept (V : String → Prop) (P : Desk → Prop) : Prop where
  console : ∀ {d : Desk} {c : Console}, P d → c.interpreter = d.console.interpreter →
    c.defined = d.console.defined → P { d with console := c }
  opens : ∀ {d : Desk} {token : String}, P d → V token → P (openAt token d).2
  hands : ∀ {d e : Desk} {token : String} {agenda : Agenda}, P d → V token →
    openAt token d = (.ok agenda, e) → agenda.Says V

namespace Kept

variable {V : String → Prop} {P : Desk → Prop} (h : Kept V P) {push : String → Act Unit}

include h

theorem orIdle {α : Type} {act : Act α} (ha : Respects (Within P) act) :
    Respects (Within P) (Console.orIdle act) := by
  refine .of_keeps fun d hd => ?_
  have hk := ha.keeps hd
  rw [run_orIdle]
  generalize act.run d = x at hk ⊢
  obtain ⟨_ | _, d⟩ := x
  · exact h.console hk rfl rfl
  · exact hk

theorem deeper {α : Type} {act : Act α} (ha : Respects (Within P) act) :
    Respects (Within P) (Console.deeper act) := by
  refine .of_keeps fun d hd => ?_
  have hi : P { d with console := { d.console with depth := d.console.depth + 1 } } :=
    h.console hd rfl rfl
  exact h.console (ha.keeps hi) rfl rfl

theorem defineWith (hp : ∀ token, V token → Respects (Within P) (push token)) {line : String}
    (hl : ∀ ts, Token.ofLine line = .ok ts → ∀ t ∈ ts, V t) :
    Respects (Within P) (Console.defineWith push line) := by
  refine h.orIdle ?_
  split
  · exact .throw _
  · rename_i ts ht
    exact .forM_of_mem fun t hm => hp t (hl ts ht t hm)

theorem agenda (hp : ∀ token, V token → Respects (Within P) (push token)) {agenda : Agenda}
    (ha : agenda.Says V) : Respects (Within P) (agenda.run push) := by
  cases agenda with
  | tokens ts => exact .forM_of_mem fun t hm => hp t (ha t hm)
  | script lines => exact h.deeper (.forM_of_mem fun line hm => h.defineWith hp (ha line hm))

theorem pushAt (n : Nat) {token : String} (ht : V token) :
    Respects (Within P) (Console.pushAt n token) := by
  induction n generalizing token with
  | zero => exact (Respects.throw _).map _
  | succ n ih =>
      refine .of_keeps fun d hd => ?_
      have ho := h.opens hd ht
      have hs := @h.hands d (openAt token d).2 token
      rw [run_pushAt_succ]
      generalize openAt token d = x at ho hs ⊢
      obtain ⟨_ | next, d⟩ := x
      · exact ho
      · exact (h.agenda (fun t ht => ih ht) (hs ‹_› ht rfl)).keeps ho

theorem define {line : String} (hl : ∀ ts, Token.ofLine line = .ok ts → ∀ t ∈ ts, V t) :
    Respects (Within P) (Console.define line) :=
  h.defineWith (fun _ ht => h.pushAt levels ht) hl

end Kept

end Console

end Playout
