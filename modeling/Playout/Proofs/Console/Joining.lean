import Playout.Proofs.Console.Lockstep
import Playout.Proofs.Token.Layout

namespace Playout

namespace Console

open Act

theorem define_of_ofLine {line : String} {ts : List String} (hl : Token.ofLine line = .ok ts) :
    define line = orIdle (ts.forM Console.push) := by
  rw [define, defineWith, hl]

/-- After a whole line the tokens of the next are read as they are alone, and refused as they are
alone. If the first line succeeds and the next can be read, the two lines in one do what they do one
after the other, also where the next fails. -/
theorem define_joined {line : String} (h : Token.Whole line.toList) (more : String) :
    ∃ ts, Token.ofLine line = .ok ts ∧
      (∀ us, Token.ofLine more = .ok us → Token.ofLine (line ++ " " ++ more) = .ok (ts ++ us)) ∧
      (∀ fault, Token.ofLine more = .error fault →
        Token.ofLine (line ++ " " ++ more) = .error fault) ∧
      ∀ d e us, (define line).run d = (.ok (), e) → Token.ofLine more = .ok us →
        (define (line ++ " " ++ more)).run d = (define more).run e := by
  obtain ⟨ts, hts, hjoin⟩ := h.ofLine_append
  have hread (us : List String) (hus : Token.ofLine more = .ok us) :
      Token.ofLine (line ++ " " ++ more) = .ok (ts ++ us) := by
    rw [hjoin, hus]
    rfl
  refine ⟨ts, hts, hread, fun fault hf => ?_, fun d e us hd hus => ?_⟩
  · rw [hjoin, hf]
    rfl
  · have hfirst : (ts.forM Console.push).run d = (.ok (), e) := by
      rw [define_of_ofLine hts, run_orIdle] at hd
      generalize (ts.forM Console.push).run d = x at hd ⊢
      obtain ⟨_ | _, _⟩ := x
      · cases hd
      · exact hd
    rw [define_of_ofLine (hread us hus), define_of_ofLine hus, run_orIdle, run_orIdle]
    rw [List.forM_eq_forM] at hfirst ⊢
    rw [List.forM_append, run_bind, hfirst]

theorem define_joined_failing :
    let line := "test:x \"@note=a  b\"  "
    let d : Desk := ⟨{}, {}⟩
    let e := ((define line).run d).2
    (define (line ++ " " ++ "add drop 5")).run d = (define "add drop 5").run e ∧
      ((define "add drop 5").run e).1.isOk = false ∧
      ((define "add drop 5").run e).2.studio.player.deck.playlist = [0] := by
  intro line d e
  have hw : Token.Whole line.toList := ⟨by decide, by decide +kernel, by decide, by decide⟩
  have hd : (define line).run d = (.ok (), e) := Prod.ext (eq_ok_of_isOk (by decide +kernel)) rfl
  have hmore : Token.ofLine "add drop 5" = .ok ["add", "drop", "5"] := by decide +kernel
  obtain ⟨ts, -, -, -, hjoin⟩ := define_joined hw "add drop 5"
  exact ⟨hjoin d e _ hd hmore, by decide +kernel, by decide +kernel⟩

end Console

end Playout
