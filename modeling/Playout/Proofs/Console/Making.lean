import Playout.Proofs.Console.Opening
import Playout.Proofs.Stack.Built

namespace Playout

open Media Stack

theorem Files.readText_empty (path text : String) : ({} : Files).readText path ≠ .ok text := by
  have hread (bytes : List UInt8) : ({} : Files).read path ≠ .ok bytes := by
    unfold Files.read
    cases ({} : Files).locate path <;> nofun
  unfold Files.readText
  cases hr : ({} : Files).read path with
  | error => nofun
  | ok bytes => exact absurd hr (hread bytes)

namespace Console

open Act

/-- The items at a desk are of a kind, and only tokens of a kind come up there by themselves: what
pops a value, what words were defined to be and what is written in scripts. -/
structure Worded (V : String → Prop) (P : Item → Prop) (d : Desk) : Prop where
  items : ∀ h, P (d.studio.catalog.get h)
  popWord : V d.console.interpreter.popWord
  defined : ∀ word ∈ d.console.defined, ∀ t ∈ word.2, V t
  scripts : ∀ path script, d.studio.files.readText path = .ok script →
    (Agenda.script (Text.linesOf script)).Says V

section Worded

variable {V : String → Prop} {P : Item → Prop} (hm : Making V P)

theorem worded_console {d : Desk} {c : Console} (h : Worded V P d)
    (hi : c.interpreter = d.console.interpreter) (hd : c.defined = d.console.defined) :
    Worded V P { d with console := c } :=
  ⟨h.items, hi ▸ h.popWord, hd ▸ h.defined, h.scripts⟩

theorem worded_player (f : Player → Player) : Respects (Within (Worded V P)) (Act.player f) :=
  .of_keeps fun _ h => ⟨h.items, h.popWord, h.defined, h.scripts⟩

include hm

theorem worded_forward {token : String} (ht : V token) :
    Respects (Within (Worded V P)) (Act.forward token) :=
  .of_keeps fun d h => ⟨hm.push ht h.items d.console.interpreter, h.popWord, h.defined, h.scripts⟩

theorem footing_worded : Footing (Within (Worded V P)) where
  studio h := by rw [h.1]
  defined h := by rw [h.1]
  logLevel level := .of_keeps fun _ h => ⟨h.items, h.popWord, h.defined, h.scripts⟩
  write text := .of_keeps fun _ h => ⟨h.items, h.popWord, h.defined, h.scripts⟩
  push v := .of_keeps fun _ h => ⟨h.items, h.popWord, h.defined, h.scripts⟩
  pop := .of_keeps fun d h => by
    have hk := (worded_forward hm h.popWord).keeps h
    rw [Act.forward, run_interpreter] at hk
    rw [Act.pop, run_interpreter]
    unfold Interpreter.pop
    generalize d.console.interpreter.push d.console.interpreter.popWord d.studio.catalog = x at hk ⊢
    obtain ⟨_ | _, _, _⟩ := x
    · exact hk
    · exact ⟨hk.items, hk.popWord, hk.defined, hk.scripts⟩

theorem worded_lead (w : Word) : Respects (Within (Worded V P)) w.lead := by
  refine (footing_worded hm).lead worded_player (fun position => .of_keeps fun d h => ?_)
    (fun p => .of_keeps fun d h => worded_console h rfl rfl)
    (fun s => .of_keeps fun d h => worded_console h rfl rfl)
  rw [run_seekNow, catalog_seek]
  exact ⟨h.items, h.popWord, h.defined, h.scripts⟩

theorem kept_worded (hp : V ".") : Kept V (Worded V P) where
  console := worded_console
  opens {d token} h ht := by
    have ho := respects_opening (worded_forward hm ht) (worded_lead hm)
      ((footing_worded hm).assignStore worded_player)
      fun p => .of_keeps fun d h => worded_console h rfl rfl
    exact (ho _ _).keeps (worded_console h rfl rfl)
  hands {d e token agenda} h ht ho := by
    rcases opening_eq_ok ho with ⟨lines, rfl, hr⟩ | ⟨w, ts, -, rfl, hl⟩ | ⟨ts, hw, rfl⟩ | rfl
    · obtain ⟨path, script, hs, rfl⟩ := readScript_eq_ok hr
      exact h.scripts path script hs
    · have he := (worded_lead hm w).keeps (d := d.idle) (worded_console h rfl rfl)
      rw [hl] at he
      rcases Word.lead_eq_ok hl with rfl | ⟨-, rfl⟩ | ⟨-, handle, rfl⟩
      · simp [Agenda.Says]
      · simpa [Agenda.Says] using hp
      · exact hm.spelled (he.items handle)
    · obtain ⟨word, hmem, rfl⟩ : ∃ word ∈ d.console.defined, word.2 = ts := by
        unfold meaning? at hw
        split at hw
        · rename_i name tokens hf
          cases hw
          exact ⟨_, List.mem_of_find?_eq_some hf, rfl⟩
        · cases h : Word.ofName? token <;> simp [h] at hw
      exact h.defined word hmem
    · simp [Agenda.Says]

end Worded

theorem worded_built {d : Desk} (h : ∀ k, Built (d.studio.catalog.get k)) :
    Worded (fun _ => True) Built d :=
  ⟨h, trivial, fun _ _ _ _ => trivial, fun _ _ _ _ _ _ _ _ _ => trivial⟩

/-- Of the items at a desk each was opened by a token and changed by others, whatever lines were
said, also if they failed. -/
theorem built_of_lines {d : Desk} (h : ∀ k, Built (d.studio.catalog.get k)) (lines : List String)
    (k : Handle) :
    Built ((lines.foldl (fun d line => ((Console.define line).run d).2) d).studio.catalog.get k) := by
  induction lines generalizing d with
  | nil => exact h k
  | cons line lines ih =>
      have hkept : Respects (Within (Worded (fun _ => True) Built)) (Console.define line) :=
        (kept_worded making_built trivial).define fun _ _ _ _ => trivial
      exact ih (hkept.keeps (worded_built h)).items

end Console

end Playout
