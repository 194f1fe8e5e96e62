import Mathlib.Tactic.Common

namespace Pranklin.Retrying

variable {σ α ε : Type} {step : α → σ → Except ε Unit × σ} {alike : σ → σ → Prop} {sound : σ → Prop} {silent : α → Prop}

def run (step : α → σ → Except ε Unit × σ) : List α → σ → Except ε Unit × σ
  | [], s => (.ok (),s)
  | item :: rest, s =>
    match step item s with
    | (.ok _,t) => run step rest t
    | (.error error,t) => (.error error,t)

structure Taking (σ α ε : Type) where
  item : α
  before : σ
  result : Except ε Unit
  after : σ

def takings (step : α → σ → Except ε Unit × σ) : List α → σ → List (Taking σ α ε)
  | [], _ => []
  | item :: rest, s =>
    match step item s with
    | (.ok _,t) => ⟨item,s,.ok (),t⟩ :: takings step rest t
    | (.error error,t) => [⟨item,s,.error error,t⟩]

variable {s u : σ} {i : Nat} {taking : Taking σ α ε}

def AppliedOnce (alike : σ → σ → Prop) (items : List α) (first again : List (Taking σ α ε)) : Prop :=
  ∀ (i : Nat) (item : α), items[i]? = some item → ∃ later : Taking σ α ε, again[i]? = some later ∧ later.item = item ∧
    later.result = .ok () ∧ ∀ earlier : Taking σ α ε, first[i]? = some earlier →
      alike earlier.before earlier.after ∨ alike later.before later.after

-- An item that gets through a sound state is at work there exactly when it is not silent, and
-- states alike are alike to every item.
structure Discerning (step : α → σ → Except ε Unit × σ) (alike : σ → σ → Prop) (sound : σ → Prop) (silent : α → Prop) :
    Prop where
  refl : ∀ s, alike s s
  trans : ∀ {s t u}, alike s t → alike t u → alike s u
  lockstep : ∀ {item s t}, alike s t → (step item s).1 = (step item t).1
  kept : ∀ {item s}, sound s → sound (step item s).2
  still : ∀ {item s}, silent item → alike s (step item s).2
  moves : ∀ {item s}, sound s → (step item s).1 = .ok () → alike s (step item s).2 → silent item

theorem run_append (step : α → σ → Except ε Unit × σ) (front back : List α) (s : σ) :
    run step (front ++ back) s =
      match run step front s with
      | (.ok _,t) => run step back t
      | (.error error,t) => (.error error,t) := by
  induction front generalizing s with
  | nil => rfl
  | cons item front ih =>
    rw [List.cons_append,run,run]
    cases step item s with
    | mk result t =>
      cases result with
      | error error => rfl
      | ok _ => exact ih t

theorem run_sound (laws : Discerning step alike sound silent) (items : List α) (start : sound s) :
    sound (run step items s).2 := by
  induction items generalizing s with
  | nil => exact start
  | cons item rest ih =>
    have next : sound (step item s).2 := laws.kept start
    rw [run]
    cases ran : step item s with
    | mk result t =>
      rw [ran] at next
      cases result with
      | error error => exact next
      | ok _ => exact ih next

theorem takings_completes {items : List α} {item : α} (completes : (run step items s).1 = .ok ())
    (inside : items[i]? = some item) :
    ∃ taking : Taking σ α ε, (takings step items s)[i]? = some taking ∧ taking.item = item ∧ taking.result = .ok () := by
  induction items generalizing s i with
  | nil => cases inside
  | cons first rest ih =>
    rw [run] at completes
    rw [takings]
    cases ran : step first s with
    | mk result t =>
      rw [ran] at completes
      cases result with
      | error error => cases completes
      | ok _ =>
        cases i with
        | zero => cases inside; exact ⟨_,rfl,rfl,rfl⟩
        | succ i => exact ih completes inside

theorem takings_still (laws : Discerning step alike sound silent) {items : List α} (all : ∀ item ∈ items, silent item)
    (found : (takings step items s)[i]? = some taking) : alike taking.before taking.after := by
  induction items generalizing s i with
  | nil => cases found
  | cons first rest ih =>
    have still := laws.still (s := s) (all first List.mem_cons_self)
    rw [takings] at found
    cases ran : step first s with
    | mk result t =>
      rw [ran] at found still
      cases result with
      | error error =>
        cases i with
        | zero => cases found; exact still
        | succ i => cases found
      | ok _ =>
        cases i with
        | zero => cases found; exact still
        | succ i => exact ih (fun item inside => all item (List.mem_cons_of_mem _ inside)) found

-- The induction is on what the first run took on. As long as that was silent, the second
-- run stands where the first one stopped.
theorem silent_of_appliedOnce (laws : Discerning step alike sound silent) (soundFirst : sound s) (soundAgain : sound u)
    {front back : List α} (stopped : alike (run step front s).2 u) (completes : (run step (front ++ back) u).1 = .ok ())
    (once : AppliedOnce alike (front ++ back) (takings step front s) (takings step (front ++ back) u)) :
    ∀ item ∈ front, silent item := by
  induction front generalizing s u with
  | nil => simp
  | cons first rest ih =>
    obtain ⟨later,found,_,_,apart⟩ := once 0 first rfl
    have keptFirst : sound (step first s).2 := laws.kept soundFirst
    have keptAgain : sound (step first u).2 := laws.kept soundAgain
    have movesFirst : (step first s).1 = .ok () → alike s (step first s).2 → silent first := laws.moves soundFirst
    have movesAgain : (step first u).1 = .ok () → alike u (step first u).2 → silent first := laws.moves soundAgain
    have stillFirst : silent first → alike s (step first s).2 := laws.still
    have stillAgain : silent first → alike u (step first u).2 := laws.still
    have lockstep : alike s u → (step first s).1 = (step first u).1 := laws.lockstep
    rw [List.cons_append,run] at completes
    rw [run] at stopped
    rw [List.cons_append,takings] at found
    rw [takings] at apart
    cases again : step first u with
    | mk outcome u' =>
    rw [again] at completes found keptAgain movesAgain stillAgain lockstep
    cases outcome with
    | error error => cases completes
    | ok _ =>
    cases found
    cases ran : step first s with
    | mk result s' =>
    rw [ran] at stopped apart keptFirst movesFirst stillFirst lockstep
    cases result with
    | error error =>
      -- What failed without effect fails again.
      have unmoved : alike s s' := (apart _ rfl).elim id fun same => stillFirst (movesAgain rfl same)
      cases lockstep (laws.trans unmoved stopped)
    | ok _ =>
      have quiet : silent first := (apart _ rfl).elim (movesFirst rfl) (movesAgain rfl)
      have others := ih keptFirst keptAgain (laws.trans stopped (stillAgain quiet)) completes fun i item inside => by
        have shifted := once (i + 1) item inside
        rw [List.cons_append,takings,takings,again,ran] at shifted
        exact shifted
      intro item inside
      rcases List.mem_cons.mp inside with rfl | inside
      · exact quiet
      · exact others item inside

-- A run over the front of the items ends somehow and a second run from there gets through
-- all of them: everything was applied once exactly when the first run took on silent items alone.
theorem appliedOnce_iff (laws : Discerning step alike sound silent) (start : sound s) (front back : List α)
    (completes : (run step (front ++ back) (run step front s).2).1 = .ok ()) :
    AppliedOnce alike (front ++ back) (takings step front s) (takings step (front ++ back) (run step front s).2) ↔
      ∀ item ∈ front, silent item := by
  constructor
  · exact silent_of_appliedOnce laws start (run_sound laws front start) (laws.refl _) completes
  · intro all i item inside
    obtain ⟨later,found,own,done⟩ := takings_completes completes inside
    exact ⟨later,found,own,done,fun earlier taken => .inl (takings_still laws all taken)⟩

end Pranklin.Retrying
