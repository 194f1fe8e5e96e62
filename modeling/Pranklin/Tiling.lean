import Mathlib.Algebra.Order.Ring.Nat
import Mathlib.Data.List.Chain
import Mathlib.Tactic.Common

namespace Pranklin.Tiling

structure Stretch where
  first : Nat
  last : Nat
deriving DecidableEq

def Stretch.Holds (stretch : Stretch) (n : Nat) : Prop := stretch.first ≤ n ∧ n ≤ stretch.last

structure Tiles (low high : Nat) (stretches : List Stretch) : Prop where
  filled : ∀ stretch ∈ stretches, stretch.first ≤ stretch.last
  contiguous : stretches.IsChain fun stretch next => next.first = stretch.last + 1
  disjoint : stretches.Pairwise fun stretch later => ∀ n, stretch.Holds n → ¬later.Holds n
  covers : ∀ n, (∃ stretch ∈ stretches, stretch.Holds n) ↔ low ≤ n ∧ n ≤ high

inductive Laid (high : Nat) : Nat → List Stretch → Prop where
  | done : high < low → Laid high low []
  | cons : low ≤ last → last ≤ high → Laid high (last + 1) rest → Laid high low (⟨low,last⟩ :: rest)

variable {low high : Nat} {stretches : List Stretch}

theorem Laid.filled (laid : Laid high low stretches) : ∀ stretch ∈ stretches, stretch.first ≤ stretch.last := by
  induction laid with
  | done _ => exact fun _ inside => by cases inside
  | cons some within later ih => exact List.forall_mem_cons.mpr ⟨some,ih⟩

theorem Laid.contiguous (laid : Laid high low stretches) :
    stretches.IsChain fun stretch next => next.first = stretch.last + 1 := by
  induction laid with
  | done _ => exact .nil
  | cons some within later ih =>
    cases later with
    | done _ => exact .singleton _
    | cons _ _ _ => exact ih.cons_cons rfl

theorem Laid.covers (laid : Laid high low stretches) (n : Nat) :
    (∃ stretch ∈ stretches, stretch.Holds n) ↔ low ≤ n ∧ n ≤ high := by
  induction laid with
  | done past =>
    constructor
    · rintro ⟨_,inside,_⟩
      cases inside
    · omega
  | cons some within later ih =>
    rw [List.exists_mem_cons_iff,ih]
    unfold Stretch.Holds
    dsimp only
    omega

theorem Laid.disjoint (laid : Laid high low stretches) :
    stretches.Pairwise fun stretch later => ∀ n, stretch.Holds n → ¬later.Holds n := by
  induction laid with
  | done _ => exact .nil
  | cons some within rest ih =>
    refine List.Pairwise.cons (fun later inside n here there => ?_) ih
    -- Whatever a later stretch holds comes after this one.
    have after := ((rest.covers n).mp ⟨later,inside,there⟩).1
    exact absurd here.2 (by dsimp only; omega)

theorem Laid.tiles (laid : Laid high low stretches) : Tiles low high stretches :=
  ⟨laid.filled,laid.contiguous,laid.disjoint,laid.covers⟩

end Pranklin.Tiling
