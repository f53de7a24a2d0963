import Mathlib.Data.List.TakeWhile
import Playout.Proofs.Player.Journal

namespace Playout

open Media

/-- How an item is left: it ended by itself, a request came, a store refused a frame, or the loop was
cancelled. -/
inductive Outcome where
  | completed
  | interrupted
  | failed
  | cancelled
  deriving DecidableEq, Repr

inductive Beat where
  | promoted (h : Handle)
  | round (demand : Store.Demand) (answers : List Bool)
  | left (h : Handle) (outcome : Outcome)
  deriving DecidableEq, Repr

namespace Beat

def demand? : Beat → Option Store.Demand
  | round demand _ => some demand
  | promoted _ | left _ _ => none

def call? (j : Nat) : Beat → Option Store.Call
  | round demand answers => answers[j]?.map (demand.entry j)
  | promoted _ | left _ _ => none

def isPromoted : Beat → Bool
  | promoted _ => true
  | round _ _ | left _ _ => false

def plays : Beat → Bool
  | round (.push _) _ | round .complete _ => true
  | round .init _ | promoted _ | left _ _ => false

def ends : Beat → Bool
  | round .complete _ | left _ _ => true
  | round .init _ | round (.push _) _ | promoted _ => false

/-- Whether the stores are ready after a beat: once all have answered a round of `init` with yes,
until a frame is refused. -/
def readies (ready : Bool) : Beat → Bool
  | round .init answers => ready || answers.all id
  | round (.push _) answers => ready && answers.all id
  | round .complete _ | promoted _ | left _ _ => ready

end Beat

def ready (score : List Beat) : Bool := score.foldl Beat.readies false

/-- The endings in the time of an item: none so far, or that it ended by itself, of which the stores
are told once, or that it was left otherwise, of which they are not told. -/
def Closes (h : Handle) (score : List Beat) : Prop :=
  score.filter Beat.ends = [] ∨
    (∃ answers, score.filter Beat.ends = [.round .complete answers, .left h .completed]) ∨
    ∃ outcome, outcome ≠ .completed ∧ score.filter Beat.ends = [.left h outcome]

inductive Stage where
  | resting (ready : Bool)
  | opening (h : Handle)
  | playing (h : Handle) (ready : Bool)
  | closing (h : Handle) (outcome : Outcome) (ready : Bool)

namespace Stage

/-- A beat takes one stage to another, where so many stores are asked. -/
inductive Step (n : Nat) : Stage → Beat → Stage → Prop
  | promoted (h : Handle) : Step n (.resting true) (.promoted h) (.playing h true)
  | opened (h : Handle) : Step n (.resting false) (.promoted h) (.opening h)
  | init (h : Handle) {answers : List Bool} (hl : answers.length = n) :
      Step n (.opening h) (.round .init answers) (.playing h (answers.all id))
  | taken (h : Handle) (r : Bool) (frame : Frame) {answers : List Bool} (hl : answers.length = n)
      (ha : answers.all id = true) :
      Step n (.playing h r) (.round (.push frame) answers) (.playing h r)
  | refused (h : Handle) (r : Bool) (frame : Frame) {answers : List Bool} (hl : answers.length = n)
      (ha : answers.all id = false) :
      Step n (.playing h r) (.round (.push frame) answers) (.closing h .failed false)
  | completed (h : Handle) (r : Bool) {answers : List Bool} (hl : answers.length = n) :
      Step n (.playing h r) (.round .complete answers) (.closing h .completed r)
  | left (h : Handle) (r : Bool) {outcome : Outcome}
      (ho : outcome = .interrupted ∨ outcome = .cancelled) :
      Step n (.playing h r) (.left h outcome) (.resting r)
  | closed (h : Handle) (outcome : Outcome) (r : Bool) :
      Step n (.closing h outcome r) (.left h outcome) (.resting r)

inductive Follows (n : Nat) : Stage → List Beat → Stage → Prop
  | nil (a : Stage) : Follows n a [] a
  | cons {a b c : Stage} {beat : Beat} {score : List Beat} (h : Step n a beat b)
      (k : Follows n b score c) : Follows n a (beat :: score) c

variable {n : Nat} {a b c : Stage} {score more : List Beat} {beat : Beat}

theorem Step.follows (h : Step n a beat b) : Follows n a [beat] b := .cons h (.nil b)

theorem Follows.append (h : Follows n a score b) (k : Follows n b more c) :
    Follows n a (score ++ more) c := by
  induction h with
  | nil => exact k
  | cons h _ ih => exact .cons h (ih k)

theorem Follows.split (h : Follows n a (score ++ more) c) :
    ∃ b, Follows n a score b ∧ Follows n b more c := by
  induction score generalizing a with
  | nil => exact ⟨a, .nil a, h⟩
  | cons beat score ih =>
      cases h with
      | cons hs h =>
          obtain ⟨b, hb, hc⟩ := ih h
          exact ⟨b, .cons hs hb, hc⟩

def isReady : Stage → Bool
  | resting r | playing _ r | closing _ _ r => r
  | opening _ => false

theorem Follows.ready (h : Follows n a score b) : b.isReady = score.foldl Beat.readies a.isReady := by
  induction h with
  | nil => rfl
  | cons h _ ih =>
      rw [ih, List.foldl_cons]
      congr 1
      cases h with
      | promoted | opened | completed | left | closed => rfl
      | init h hl => rfl
      | taken h r frame hl ha => simp [isReady, Beat.readies, ha]
      | refused h r frame hl ha => simp [isReady, Beat.readies, ha]

theorem Follows.length (h : Follows n a score b) {demand : Store.Demand} {answers : List Bool}
    (hm : .round demand answers ∈ score) : answers.length = n := by
  induction h with
  | nil => cases hm
  | cons h _ ih =>
      rcases List.mem_cons.1 hm with rfl | hm
      · cases h <;> assumption
      · exact ih hm

theorem Follows.opening {r : Bool} {h : Handle} (hf : Follows n (.resting r) score (.opening h)) :
    ∃ front, score = front ++ [.promoted h] := by
  rcases List.eq_nil_or_concat' score with rfl | ⟨front, beat, rfl⟩
  · cases hf
  · obtain ⟨b, -, hb⟩ := hf.split
    cases hb with
    | cons hs hn =>
        cases hn
        cases hs
        exact ⟨front, rfl⟩

def isOut : Stage → Bool
  | resting _ | closing _ _ _ => true
  | opening _ | playing _ _ => false

theorem Follows.out (hf : Follows n a score b) (ha : a.isOut = true) :
    b.isOut = true ∨ ∃ h, .promoted h ∈ score := by
  induction hf with
  | nil => exact .inl ha
  | cons hs _ ih =>
      cases hs with
      | promoted h | opened h => exact .inr ⟨h, List.mem_cons_self⟩
      | closed h outcome r =>
          rcases ih rfl with hb | ⟨k, hk⟩
          · exact .inl hb
          · exact .inr ⟨k, List.mem_cons_of_mem _ hk⟩
      | init | taken | refused | completed | left => cases ha

def isSettled : Stage → Bool
  | resting _ | playing _ _ => true
  | opening _ | closing _ _ _ => false

/-- What is still to come of the endings of the item in a stage, before the next promotion. -/
def Pending (score : List Beat) : Stage → Prop
  | resting _ => score.filter Beat.ends = []
  | closing h outcome _ => score.filter Beat.ends = [.left h outcome]
  | opening h | playing h _ => Closes h score

theorem Follows.pending (hf : Follows n a score b) (hb : b.isSettled = true)
    (hn : ∀ beat ∈ score, beat.isPromoted = false) : a.Pending score := by
  induction hf with
  | nil a =>
      cases a with
      | resting => rfl
      | playing => exact .inl rfl
      | opening | closing => cases hb
  | cons hs _ ih =>
      obtain ⟨hn, hrest⟩ := List.forall_mem_cons.1 hn
      have hp := ih hb hrest
      cases hs with
      | promoted | opened => cases hn
      | init h hl => exact hp
      | taken h r frame hl ha => exact hp
      | refused h r frame hl ha => exact .inr (.inr ⟨.failed, nofun, hp⟩)
      | @completed h r answers hl =>
          refine .inr (.inl ⟨answers, ?_⟩)
          rw [List.filter_cons_of_pos rfl]
          exact congrArg _ hp
      | @left h r outcome ho =>
          refine .inr (.inr ⟨outcome, ?_, ?_⟩)
          · rcases ho with rfl | rfl <;> exact nofun
          · rw [List.filter_cons_of_pos rfl]
            exact congrArg _ hp
      | closed h outcome r =>
          rw [Pending, List.filter_cons_of_pos rfl]
          exact congrArg _ hp

def item? : Stage → Option Handle
  | resting _ => none
  | opening h | playing h _ | closing h _ _ => some h

theorem Follows.idle {r : Bool} (hf : Follows n (.resting r) score b)
    (hn : ∀ beat ∈ score, beat.isPromoted = false) : score = [] ∧ b = .resting r := by
  cases hf with
  | nil => exact ⟨rfl, rfl⟩
  | cons hs _ =>
      have hp := hn _ List.mem_cons_self
      cases hs <;> cases hp

/-- Until the next promotion an item is left if and only if no item is there in the end. -/
theorem Follows.left_iff {h : Handle} (hf : Follows n a score b) (ha : a.item? = some h)
    (hn : ∀ beat ∈ score, beat.isPromoted = false) :
    (∃ outcome, .left h outcome ∈ score) ↔ b.item? ≠ some h := by
  induction hf with
  | nil => simp [ha]
  | cons hs hf ih =>
      have hrest := (List.forall_mem_cons.1 hn).2
      cases hs with
      | promoted | opened => cases ha
      | init | taken | refused | completed => simpa using ih ha hrest
      | left | closed =>
          cases ha
          obtain ⟨rfl, rfl⟩ := hf.idle hrest
          simp [item?]

end Stage

theorem filterMap_call {n : Nat} {score : List Beat}
    (hs : ∀ demand answers, .round demand answers ∈ score → answers.length = n) {j : Nat} (hj : j < n) :
    (score.filterMap (Beat.call? j)).filterMap Store.Call.demand? =
      score.filterMap Beat.demand? := by
  rw [List.filterMap_filterMap]
  apply List.filterMap_congr
  intro beat hb
  cases beat with
  | promoted | left => rfl
  | round demand answers =>
      have hl : j < answers.length := hs demand answers hb ▸ hj
      simp [Beat.call?, Beat.demand?, hl]

/-- What the stores can rely on, where there are so many of them. -/
structure Orderly (n : Nat) (score : List Beat) : Prop where
  asked : ∀ demand answers, .round demand answers ∈ score → answers.length = n
  first : ∀ beat ∈ score.head?, beat.isPromoted = true
  /-- At a promotion there is a round of `init` if and only if the stores are not ready. -/
  init : ∀ before h after, score = before ++ .promoted h :: after →
    ((∃ answers, after.head? = some (.round .init answers)) ↔ ready before = false)
  opened : ∀ before answers after, score = before ++ .round .init answers :: after →
    ∃ front h, before = front ++ [.promoted h]
  /-- Behind a frame that was refused the stores hear of no frame and no end until a promotion. -/
  refused : ∀ before frame answers between beat after,
    score = before ++ .round (.push frame) answers :: (between ++ beat :: after) →
    answers.all id = false → beat.plays = true → ∃ h, .promoted h ∈ between
  /-- Until the next promotion an item has one ending at most, and the stores are told once if it ended
  by itself and else never. -/
  closes : ∀ before h after, score = before ++ .promoted h :: after →
    Closes h (after.takeWhile fun beat => !beat.isPromoted)

namespace Stage

variable {n : Nat} {b c : Stage} {score : List Beat} {h : Handle} {before after : List Beat}

theorem Follows.init_iff (hf : Follows n b (.promoted h :: after) c) (hc : c.isSettled = true) :
    (∃ answers, after.head? = some (.round .init answers)) ↔ b.isReady = false := by
  cases hf with
  | cons hs hf =>
      cases hs with
      | promoted =>
          cases hf with
          | nil => simp [isReady]
          | cons hs => cases hs <;> simp [isReady]
      | opened =>
          cases hf with
          | nil => cases hc
          | cons hs =>
              cases hs with
              | init h hl => simp [isReady]

theorem Follows.settled {a : Stage} (hf : Follows n a score c) (hc : c.isSettled = true)
    (hp : ∀ beat ∈ score.head?, beat.isPromoted = true) : a.isSettled = true := by
  cases hf with
  | nil => exact hc
  | cons hs =>
      have hb := hp _ rfl
      cases hs with
      | promoted | opened => rfl
      | init | taken | refused | completed | left | closed => cases hb

theorem Follows.closes (hf : Follows n b (.promoted h :: after) c) (hc : c.isSettled = true) :
    Closes h (after.takeWhile fun beat => !beat.isPromoted) := by
  have hpart (a : Stage) (hf : Follows n a after c) :
      a.Pending (after.takeWhile fun beat => !beat.isPromoted) := by
    rw [← List.takeWhile_append_dropWhile (p := fun beat : Beat => !beat.isPromoted) (l := after)] at hf
    obtain ⟨d, hd, hr⟩ := hf.split
    refine hd.pending (hr.settled hc fun beat hb => ?_) fun beat hb => ?_
    · have hnot := List.head?_dropWhile_not (fun beat : Beat => !beat.isPromoted) after
      rw [Option.mem_def] at hb
      rw [hb] at hnot
      simpa using hnot
    · simpa using List.mem_takeWhile_imp hb
  cases hf with
  | cons hs hf =>
      cases hs with
      | promoted | opened => exact hpart _ hf

theorem Follows.refused {frame : Frame} {answers : List Bool} {between : List Beat} {beat : Beat}
    (hf : Follows n b (.round (.push frame) answers :: (between ++ beat :: after)) c)
    (ha : answers.all id = false) (hp : beat.plays = true) : ∃ h, .promoted h ∈ between := by
  cases hf with
  | cons hs hf =>
      cases hs with
      | taken h r frame hl hall => rw [hall] at ha; cases ha
      | refused h r frame hl hall =>
          obtain ⟨d, hd, hr⟩ := hf.split
          rcases hd.out rfl with hout | hprom
          · -- Who plays no item gives no frame and tells of no end.
            cases hr with
            | cons hs =>
                cases hs with
                | promoted | opened | init | left | closed => cases hp
                | taken | refused | completed => cases hout
          · exact hprom

theorem Follows.orderly (hf : Follows n (.resting false) score c) (hc : c.isSettled = true) :
    Orderly n score where
  asked demand answers hm := hf.length hm
  first beat hb := by
    cases hf with
    | nil => cases hb
    | cons hs =>
        cases hb
        cases hs
        rfl
  init before h after he := by
    rw [he] at hf
    obtain ⟨b, hb, hr⟩ := hf.split
    have hready : b.isReady = Playout.ready before := hb.ready
    rw [← hready]
    exact hr.init_iff hc
  opened before answers after he := by
    rw [he] at hf
    obtain ⟨b, hb, hr⟩ := hf.split
    cases hr with
    | cons hs =>
        cases hs with
        | init h hl =>
            obtain ⟨front, rfl⟩ := hb.opening
            exact ⟨front, h, rfl⟩
  refused before frame answers between beat after he ha hp := by
    rw [he] at hf
    obtain ⟨b, -, hr⟩ := hf.split
    exact hr.refused ha hp
  closes before h after he := by
    rw [he] at hf
    obtain ⟨b, -, hr⟩ := hf.split
    exact hr.closes hc

end Stage

end Playout
