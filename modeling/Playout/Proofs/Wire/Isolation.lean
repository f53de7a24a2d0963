import Playout.Proofs.Console.Residue
import Playout.Wire.Request

namespace Playout

open Media

namespace Wire.Request

open Act Console Stack

/-- A console that is fresh but for what is on the stack. -/
def inheriting (dirs : List String) (stack : List Value) : Console :=
  { interpreter := { machine := { stack }, popWord := "dot" }, includeDirs := dirs }

/-- The consoles that requests have come to one after another, whatever was done in the studio in
between. -/
inductive Shared (dirs : List String) : Console → Prop where
  | fresh : Shared dirs { includeDirs := dirs }
  | handled {c : Console} (h : Shared dirs c) (head : String) (studio : Studio) :
      Shared dirs (handle head ⟨studio, c⟩).2.console

structure Idle (dirs : List String) (c : Console) : Prop where
  printed : c.interpreter.machine.printed = ""
  output : c.interpreter.output = []
  popWord : c.interpreter.popWord = "dot"
  pending : c.pending = none
  signals : c.signals = []
  defined : c.defined = []
  includeDirs : c.includeDirs = dirs
  depth : c.depth = 0

theorem Idle.alike {dirs : List String} {c : Console} (h : Idle dirs c) (studio : Studio) :
    AlikeAt dirs 0 ⟨studio, c⟩ ⟨studio, inheriting dirs c.interpreter.machine.stack⟩ where
  studio := rfl
  interpreter := ⟨rfl, ⟨h.printed, rfl⟩, h.output, ⟨h.popWord, rfl⟩⟩
  pending := h.pending
  signals := h.signals
  defined := ⟨h.defined, rfl⟩
  includeDirs := ⟨h.includeDirs, rfl⟩
  depth := ⟨h.depth, rfl⟩

theorem Idle.alike_self {dirs : List String} {c : Console} (h : Idle dirs c) (studio : Studio) :
    AlikeAt dirs 0 ⟨studio, c⟩ ⟨studio, c⟩ where
  studio := rfl
  interpreter := ⟨rfl, ⟨h.printed, h.printed⟩, rfl, ⟨h.popWord, h.popWord⟩⟩
  pending := rfl
  signals := rfl
  defined := ⟨h.defined, h.defined⟩
  includeDirs := ⟨h.includeDirs, h.includeDirs⟩
  depth := ⟨h.depth, h.depth⟩

theorem handle_of_tokens_ok {head : String} {ts : List String} (h : tokens head = .ok ts)
    (d : Desk) :
    handle head d =
      let after := Act.run (ts.forM Console.push) d
      (verdict after.1 after.2.console.pending after.2.console.signals,
        { studio := after.2.studio
          console := { after.2.console with
            interpreter := { after.2.console.interpreter with output := [] }
            pending := none
            signals := [] } }) := by
  rw [handle, h]
  rfl

theorem handle_alike {dirs : List String} {d e : Desk} (h : AlikeAt dirs 0 d e) (head : String) :
    (handle head d).1 = (handle head e).1 ∧ AlikeAt dirs 0 (handle head d).2 (handle head e).2 := by
  cases ht : tokens head with
  | error cause =>
      rw [handle, handle, ht]
      exact ⟨rfl, h⟩
  | ok ts =>
      obtain ⟨hr, hs⟩ := Respects.forM ((lockstep_alike dirs).push_token 0) ts h
      rw [handle_of_tokens_ok ht, handle_of_tokens_ok ht]
      dsimp only
      rw [hr, hs.pending, hs.signals]
      exact ⟨rfl, hs.studio, ⟨hs.interpreter.stack, hs.interpreter.printed, rfl,
        hs.interpreter.popWord⟩, rfl, rfl, hs.defined, hs.includeDirs, hs.depth⟩

theorem Idle.handle {dirs : List String} {c : Console} (h : Idle dirs c) (head : String)
    (studio : Studio) : Idle dirs (handle head ⟨studio, c⟩).2.console := by
  cases ht : tokens head with
  | error cause =>
      rw [Request.handle, ht]
      exact h
  | ok ts =>
      have ha := (handle_alike (h.alike studio) head).2
      rw [handle_of_tokens_ok ht] at ha ⊢
      exact ⟨ha.interpreter.printed.1, rfl, ha.interpreter.popWord.1, rfl, rfl, ha.defined.1,
        ha.includeDirs.1, ha.depth.1⟩

theorem Shared.idle {dirs : List String} {c : Console} (h : Shared dirs c) : Idle dirs c := by
  induction h with
  | fresh => exact ⟨rfl, rfl, rfl, rfl, rfl, rfl, rfl, rfl⟩
  | handled _ head studio ih => exact ih.handle head studio

theorem noWord_of_frameMark {token : String} (h : frameMark <+: token.toList) : NoWord token where
  console := by
    rw [Console.Word.ofName?, List.find?_eq_none]
    intro w hw hn
    rw [← of_decide_eq_true hn] at h
    revert h
    cases w <;> decide
  machine := by
    rw [Stack.Word.ofName?, List.find?_eq_none]
    intro w hw hn
    rw [← of_decide_eq_true hn] at h
    revert h
    cases w <;> decide

theorem exists_target {head : String} {ts : List String} (h : tokens head = .ok ts) :
    ∃ target, tokensOfTarget target = .ok ts := by
  rw [tokens] at h
  dsimp only at h
  split at h
  · split at h
    · split at h
      · simp at h
      · split at h
        · simp at h
        · exact ⟨_, h⟩
    · simp at h
  · simp at h

/-- A target is the mark of a source and pieces, of which the first is not empty. -/
theorem tokensOfTarget_eq_ok_iff (target : List Char) (ts : List String) :
    tokensOfTarget target = .ok ts ↔
      ∃ query source arguments, target = sourceMark ++ query ∧
        Text.pieces '&' query = source :: arguments ∧ source ≠ [] ∧
        ts = String.ofList source ::
          (arguments.filter frameMark.isPrefixOf).map String.ofList ++ [Console.Word.add.name] := by
  constructor
  · intro h
    rw [tokensOfTarget] at h
    split at h
    · rename_i hmark
      obtain ⟨query, rfl⟩ := List.isPrefixOf_iff_prefix.1 hmark
      rw [List.drop_left] at h
      split at h
      · simp at h
      · simp at h
      · rename_i source arguments hne hp
        refine ⟨query, source, arguments, rfl, hp, ?_, (Except.ok.inj h).symm⟩
        rintro rfl
        exact hne rfl
    · simp at h
  · rintro ⟨query, source, arguments, rfl, hp, hne, rfl⟩
    obtain ⟨c, source, rfl⟩ := List.exists_cons_of_ne_nil hne
    have hmark : sourceMark.isPrefixOf (sourceMark ++ query) = true :=
      List.isPrefixOf_iff_prefix.2 (List.prefix_append _ _)
    rw [tokensOfTarget, if_pos hmark, List.drop_left, hp]

/-- A request comes down to what it names, its frame counts, and the word that adds. -/
theorem tokens_eq_ok {head : String} {ts : List String} (h : tokens head = .ok ts) :
    ∃ source arguments, ts = source :: arguments ++ [Console.Word.add.name] ∧
      ∀ argument ∈ arguments, frameMark <+: argument.toList := by
  obtain ⟨target, h⟩ := exists_target h
  obtain ⟨query, source, arguments, -, -, -, rfl⟩ := (tokensOfTarget_eq_ok_iff target ts).1 h
  refine ⟨_, _, rfl, fun argument hm => ?_⟩
  obtain ⟨text, htext, rfl⟩ := List.mem_map.1 hm
  rw [String.toList_ofList]
  exact List.isPrefixOf_iff_prefix.1 (List.mem_filter.1 htext).2

/-- Whatever is on the stacks, a request that names an item is handled alike. -/
theorem handle_item {dirs : List String} {c c' : Console} (h : Idle dirs c) (h' : Idle dirs c')
    (studio : Studio) {head source : String} {more : List String}
    (ht : tokens head = .ok (source :: more)) (hs : NoWord source)
    (ha : Machine.assignment? source = none) :
    (handle head ⟨studio, c⟩).1 = (handle head ⟨studio, c'⟩).1 ∧
      (handle head ⟨studio, c⟩).2.studio = (handle head ⟨studio, c'⟩).2.studio := by
  have hb : Beside ⟨studio, c⟩ ⟨studio, c'⟩ :=
    ⟨rfl, ⟨h.printed, h'.printed⟩, ⟨h.popWord, h'.popWord⟩, ⟨h.pending, h'.pending⟩,
      ⟨h.signals, h'.signals⟩, ⟨h.defined, h'.defined⟩⟩
  obtain ⟨source', arguments, he, hargs⟩ := tokens_eq_ok ht
  obtain ⟨rfl, -⟩ := List.cons.inj he
  rw [he] at ht
  obtain ⟨hr, hb⟩ := hb.push_item hs ha fun argument hm => noWord_of_frameMark (hargs argument hm)
  rw [handle_of_tokens_ok ht, handle_of_tokens_ok ht]
  dsimp only
  rw [hr, hb.pending.1, hb.pending.2, hb.signals.1, hb.signals.2]
  exact ⟨rfl, hb.studio⟩

/-- A request meets the console as it was at first but for what is on the stack, and one that names an
item does not see that either. -/
theorem handle_shared {dirs : List String} {c : Console} (h : Shared dirs c) (head : String)
    (studio : Studio) :
    Idle dirs c ∧
    ((handle head ⟨studio, c⟩).1 =
        (handle head ⟨studio, inheriting dirs c.interpreter.machine.stack⟩).1 ∧
      (handle head ⟨studio, c⟩).2.studio =
        (handle head ⟨studio, inheriting dirs c.interpreter.machine.stack⟩).2.studio) ∧
    ∀ source more, tokens head = .ok (source :: more) → NoWord source →
      Machine.assignment? source = none →
      (handle head ⟨studio, c⟩).1 = (handle head ⟨studio, { includeDirs := dirs }⟩).1 ∧
        (handle head ⟨studio, c⟩).2.studio =
          (handle head ⟨studio, { includeDirs := dirs }⟩).2.studio := by
  obtain ⟨hr, hs⟩ := handle_alike (h.idle.alike studio) head
  refine ⟨h.idle, ⟨hr, hs.studio⟩, fun source more ht hw ha => ?_⟩
  exact handle_item h.idle Shared.fresh.idle studio ht hw ha

theorem handle_shared_item :
    (handle "GET /?src=test%3Ab HTTP/1.0"
        ⟨{}, (handle "GET /?src=test%3Aa&frames=x HTTP/1.0" ⟨{}, {}⟩).2.console⟩).2.studio =
      (handle "GET /?src=test%3Ab HTTP/1.0" ⟨{}, {}⟩).2.studio := by
  have hs := (@Shared.fresh []).handled "GET /?src=test%3Aa&frames=x HTTP/1.0" {}
  have ht : tokens "GET /?src=test%3Ab HTTP/1.0" = .ok ["test:b", "add"] := by
    have hd : (tokens "GET /?src=test%3Ab HTTP/1.0").toOption = some ["test:b", "add"] := by
      decide +kernel
    cases hx : tokens "GET /?src=test%3Ab HTTP/1.0" with
    | error cause =>
        rw [hx] at hd
        cases hd
    | ok ts =>
        rw [hx] at hd
        exact congrArg Except.ok (Option.some.inj hd)
  have hw : NoWord "test:b" := ⟨by decide, by decide⟩
  exact ((handle_shared hs "GET /?src=test%3Ab HTTP/1.0" {}).2.2 _ _ ht hw (by decide)).2

theorem handle_after_refused :
    (handle "GET /?src=test%3Aa&frames=x HTTP/1.0" ⟨{}, {}⟩).1.isOk = false ∧
    (handle "GET /?src=dup HTTP/1.0"
      (handle "GET /?src=test%3Aa&frames=x HTTP/1.0" ⟨{}, {}⟩).2).1.isOk = true ∧
    (handle "GET /?src=dup HTTP/1.0"
      ⟨(handle "GET /?src=test%3Aa&frames=x HTTP/1.0" ⟨{}, {}⟩).2.studio, {}⟩).1.isOk = false := by
  decide +kernel

end Wire.Request

end Playout
