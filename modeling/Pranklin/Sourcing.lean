import Mathlib.Algebra.BigOperators.Group.List.Basic
import Mathlib.Algebra.Ring.Int.Defs
import Mathlib.Data.List.Infix
import Mathlib.Tactic.Common

namespace Pranklin.Sourcing

-- A writer keeps a log beside what it holds; a reader takes the entries one by one and
-- refuses one that does not fit what it has.
variable {α σ ε ι κ : Type} {post : σ → ε → Option σ} {log : α → List ε} {view : α → σ} {before middle after : α}

def rebuild (post : σ → ε → Option σ) (held : σ) : List ε → Option σ
  | [] => some held
  | entry :: rest => (post held entry).bind fun next => rebuild post next rest

theorem rebuild_append (held : σ) (front back : List ε) :
    rebuild post held (front ++ back) = (rebuild post held front).bind fun middle => rebuild post middle back := by
  induction front generalizing held with
  | nil => rfl
  | cons entry front ih => simp [rebuild,ih,Option.bind_assoc]

theorem rebuild_ignored {entries : List ε} (ignored : ∀ entry ∈ entries, ∀ held, post held entry = some held) (held : σ) :
    rebuild post held entries = some held := by
  induction entries with
  | nil => rfl
  | cons entry entries ih =>
    obtain ⟨first,rest⟩ := List.forall_mem_cons.mp ignored
    simp [rebuild,first,ih rest]

theorem rebuild_measured {measure : σ → Int} {weight : ε → Int} {entries : List ε} {held last : σ}
    (moves : ∀ held entry next, post held entry = some next → measure next = measure held + weight entry)
    (rebuilt : rebuild post held entries = some last) : measure last = measure held + (entries.map weight).sum := by
  induction entries generalizing held with
  | nil =>
    cases rebuilt
    simp
  | cons entry entries ih =>
    obtain ⟨next,posted,later⟩ := Option.bind_eq_some_iff.mp rebuilt
    rw [ih later,moves held entry next posted,List.map_cons,List.sum_cons,add_assoc]

-- The reader that has what the writer held, and reads on, has what the writer holds.
def Tells (post : σ → ε → Option σ) (log : α → List ε) (view : α → σ) (before after : α) : Prop :=
  ∃ entries, log after = log before ++ entries ∧ rebuild post (view before) entries = some (view after)

theorem Tells.silent (kept : log after = log before) (held : view after = view before) : Tells post log view before after :=
  ⟨[],by simp [kept],by rw [held]; rfl⟩

theorem Tells.refl (state : α) : Tells post log view state state := .silent rfl rfl

theorem Tells.entry {entry : ε} (noted : log after = log before ++ [entry]) (posted : post (view before) entry = some (view after)) :
    Tells post log view before after := ⟨[entry],noted,by simp [rebuild,posted]⟩

theorem Tells.trans (first : Tells post log view before middle) (second : Tells post log view middle after) :
    Tells post log view before after := by
  obtain ⟨front,noted,read⟩ := first
  obtain ⟨back,later,readOn⟩ := second
  exact ⟨front ++ back,by rw [later,noted,List.append_assoc],by rw [rebuild_append,read]; exact readOn⟩

-- A step whose entries tell all of it but a loss: nothing is lost, or the entries fall short of
-- what each quantity moved by that much.
structure Writes (post : σ → ε → Option σ) (log : α → List ε) (view : α → σ) (measure : κ → σ → Int) (weight : κ → ε → Int)
    (loss : κ → Nat) (before after : α) : Prop where
  told : (∀ k, loss k = 0) → Tells post log view before after
  moved : ∃ entries, log after = log before ++ entries ∧
    ∀ k, measure k (view after) = measure k (view before) + (entries.map (weight k)).sum - loss k

variable {measure : κ → σ → Int} {weight : κ → ε → Int}

theorem Tells.writes (moves : ∀ k held entry next, post held entry = some next → measure k next = measure k held + weight k entry)
    (tells : Tells post log view before after) : Writes post log view measure weight (fun _ => 0) before after := by
  refine ⟨fun _ => tells,?_⟩
  obtain ⟨entries,noted,read⟩ := tells
  exact ⟨entries,noted,fun k => by rw [rebuild_measured (moves k) read]; simp⟩

def lossAlong (step : α → ι → α) (loss : α → ι → κ → Nat) (k : κ) : α → List ι → Nat
  | _,[] => 0
  | state,input :: rest => loss state input k + lossAlong step loss k (step state input) rest

theorem lossAlong_eq_zero_iff (step : α → ι → α) (loss : α → ι → κ → Nat) (k : κ) (state : α) (inputs : List ι) :
    lossAlong step loss k state inputs = 0 ↔
      ∀ front input, front ++ [input] <+: inputs → loss (front.foldl step state) input k = 0 := by
  induction inputs generalizing state with
  | nil => simp [lossAlong]
  | cons first inputs ih =>
    rw [lossAlong,Nat.add_eq_zero_iff,ih]
    constructor
    · intro ⟨now,later⟩ front input part
      cases front with
      | nil =>
        obtain rfl : input = first := by simpa using part
        exact now
      | cons other front =>
        obtain ⟨rfl,shorter⟩ := List.cons_prefix_cons.mp part
        exact later front input shorter
    · intro none
      exact ⟨none [] first (by simp),fun front input part => none (first :: front) input (List.cons_prefix_cons.mpr ⟨rfl,part⟩)⟩

theorem tells_foldl_iff {step : α → ι → α} {loss : α → ι → κ → Nat} {good : α → Prop}
    (moves : ∀ k held entry next, post held entry = some next → measure k next = measure k held + weight k entry)
    (keeps : ∀ state input, good state → good (step state input))
    (writes : ∀ state input, good state → Writes post log view measure weight (loss state input) state (step state input))
    (start : α) (sound : good start) (inputs : List ι) :
    Tells post log view start (inputs.foldl step start) ↔
      ∀ front input, front ++ [input] <+: inputs → ∀ k, loss (front.foldl step start) input k = 0 := by
  have along : ∀ state, good state →
      ((∀ k, lossAlong step loss k state inputs = 0) → Tells post log view state (inputs.foldl step state)) ∧
        ∃ entries, log (inputs.foldl step state) = log state ++ entries ∧ ∀ k,
          measure k (view (inputs.foldl step state)) =
            measure k (view state) + (entries.map (weight k)).sum - lossAlong step loss k state inputs := by
    clear sound start
    induction inputs with
    | nil => exact fun state _ => ⟨fun _ => .refl state,[],by simp,fun k => by simp [lossAlong]⟩
    | cons input inputs ih =>
      intro state sound
      obtain ⟨told,entries,noted,moved⟩ := writes state input sound
      obtain ⟨toldLater,later,notedLater,movedLater⟩ := ih (step state input) (keeps state input sound)
      refine ⟨fun none => ?_,entries ++ later,?_,fun k => ?_⟩
      · have apart := fun k => Nat.add_eq_zero_iff.mp (none k)
        exact (told fun k => (apart k).1).trans (toldLater fun k => (apart k).2)
      · rw [List.foldl_cons,notedLater,noted,List.append_assoc]
      · rw [List.foldl_cons,movedLater,moved,List.map_append,List.sum_append,lossAlong]
        push_cast
        omega
  obtain ⟨told,entries,noted,moved⟩ := along start sound
  have exact_ : Tells post log view start (inputs.foldl step start) ↔ ∀ k, lossAlong step loss k start inputs = 0 := by
    refine ⟨fun tells k => ?_,told⟩
    obtain ⟨others,same,read⟩ := tells
    obtain rfl : others = entries := List.append_cancel_left (same.symm.trans noted)
    have full := rebuild_measured (moves k) read
    have short := moved k
    omega
  rw [exact_]
  constructor
  · exact fun none front input part k => (lossAlong_eq_zero_iff step loss k start inputs).mp (none k) front input part
  · exact fun none k => (lossAlong_eq_zero_iff step loss k start inputs).mpr fun front input part => none front input part k

end Pranklin.Sourcing
