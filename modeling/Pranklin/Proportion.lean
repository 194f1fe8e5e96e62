import Mathlib.Algebra.BigOperators.Group.List.Basic
import Mathlib.Algebra.Order.Ring.Nat
import Mathlib.Tactic.Common

namespace Pranklin.Proportion

section Accruing
variable {rate interval : Nat} {spans : List Nat}

def accrued (rate interval : Nat) (spans : List Nat) : Nat := (spans.map fun span => rate * span / interval).sum

@[simp] theorem accrued_nil : accrued rate interval [] = 0 := rfl

@[simp] theorem accrued_cons (span : Nat) (spans : List Nat) :
    accrued rate interval (span :: spans) = rate * span / interval + accrued rate interval spans := rfl

theorem accrued_le (rate interval : Nat) (spans : List Nat) : accrued rate interval spans ≤ rate * spans.sum / interval := by
  induction spans with
  | nil => exact Nat.zero_le _
  | cons span spans ih =>
    rw [accrued_cons,List.sum_cons,Nat.mul_add]
    exact (Nat.add_le_add_left ih _).trans Nat.div_add_div_le_add_div

theorem le_accrued (rate interval : Nat) (spans : List Nat) (some : spans ≠ []) :
    rate * spans.sum / interval + 1 ≤ accrued rate interval spans + spans.length := by
  induction spans with
  | nil => exact absurd rfl some
  | cons span spans ih =>
    rw [accrued_cons,List.sum_cons,List.length_cons,Nat.mul_add]
    rcases Nat.eq_zero_or_pos interval with rfl | paced
    · rw [Nat.div_zero,Nat.div_zero]
      omega
    cases spans with
    | nil => simp
    | cons next rest =>
      have later := ih (List.cons_ne_nil _ _)
      rw [Nat.add_div paced]
      split <;> omega

end Accruing

theorem div_le_div_iff_mod {a b c : Nat} (paced : 0 < c) (less : b ≤ a) : a / c ≤ b / c ↔ a - b ≤ a % c := by
  have whole := Nat.div_add_mod a c
  have part := Nat.div_add_mod b c
  have rest := Nat.mod_lt b paced
  constructor
  · intro same
    have scaled := Nat.mul_le_mul_left c same
    omega
  · intro cut
    by_contra more
    have scaled := Nat.mul_le_mul_left c (Nat.succ_le_of_lt (Nat.lt_of_not_le more))
    rw [Nat.mul_succ] at scaled
    omega

section Nearest
variable {step n : Nat}

-- The multiple of a step that is nearest, the upper one of two as near.
def nearest (step n : Nat) : Nat := (n + step / 2) / step * step

theorem dvd_nearest (step n : Nat) : step ∣ nearest step n := Nat.dvd_mul_left _ _

theorem nearest_le (step n : Nat) : nearest step n ≤ n + step / 2 := Nat.div_mul_le_self _ _

theorem le_nearest (stepped : 0 < step) : n + step / 2 < nearest step n + step := by
  have within := Nat.lt_mul_div_succ (n + step / 2) stepped
  rwa [Nat.mul_succ,Nat.mul_comm] at within

theorem nearest_of_dvd (stepped : 0 < step) (multiple : step ∣ n) : nearest step n = n := by
  obtain ⟨count,rfl⟩ := multiple
  have half : step / 2 < step := Nat.div_lt_self stepped (by decide)
  rw [nearest,Nat.mul_add_div stepped,Nat.div_eq_of_lt half,Nat.add_zero,Nat.mul_comm]

theorem nearest_of_low (low : n % step + step / 2 < step) : nearest step n = n - n % step := by
  have stepped : 0 < step := by omega
  have whole := Nat.div_add_mod n step
  have split : n + step / 2 = step * (n / step) + (n % step + step / 2) := by omega
  rw [nearest,split,Nat.mul_add_div stepped,Nat.div_eq_of_lt low,Nat.add_zero,Nat.mul_comm]
  omega

theorem nearest_of_high (stepped : 0 < step) (high : step ≤ n % step + step / 2) : nearest step n = n - n % step + step := by
  have whole := Nat.div_add_mod n step
  have rest := Nat.mod_lt n stepped
  have half : step / 2 < step := Nat.div_lt_self stepped (by decide)
  have short : n % step + step / 2 - step < step := by omega
  have split : n + step / 2 = step * (n / step + 1) + (n % step + step / 2 - step) := by
    rw [Nat.mul_succ]
    omega
  rw [nearest,split,Nat.mul_add_div stepped,Nat.div_eq_of_lt short,Nat.add_zero,Nat.mul_comm,Nat.mul_succ]
  omega

end Nearest

section Mean
variable {low high a b m n : Nat}

theorem le_mean (weighed : 0 < m + n) (one : low ≤ a) (other : low ≤ b) : low ≤ (m * a + n * b) / (m + n) := by
  rw [Nat.le_div_iff_mul_le weighed,Nat.mul_add,Nat.mul_comm low m,Nat.mul_comm low n]
  exact Nat.add_le_add (Nat.mul_le_mul_left m one) (Nat.mul_le_mul_left n other)

theorem mean_le (one : a ≤ high) (other : b ≤ high) : (m * a + n * b) / (m + n) ≤ high := by
  apply Nat.div_le_of_le_mul
  rw [Nat.add_mul]
  exact Nat.add_le_add (Nat.mul_le_mul_left m one) (Nat.mul_le_mul_left n other)

structure Between (values : List Nat) (n : Nat) : Prop where
  least : ∀ low, (∀ value ∈ values, low ≤ value) → low ≤ n
  most : ∀ high, (∀ value ∈ values, value ≤ high) → n ≤ high

theorem Between.single (n : Nat) : Between [n] n :=
  ⟨fun _ all => all n List.mem_cons_self,fun _ all => all n List.mem_cons_self⟩

theorem Between.mean {values : List Nat} (between : Between values a) (weighed : 0 < m + n) :
    Between (values ++ [b]) ((m * a + n * b) / (m + n)) := by
  constructor
  · intro low all
    obtain ⟨before,last⟩ := List.forall_mem_append.mp all
    exact le_mean weighed (between.least low before) (last b List.mem_cons_self)
  · intro high all
    obtain ⟨before,last⟩ := List.forall_mem_append.mp all
    exact mean_le (between.most high before) (last b List.mem_cons_self)

theorem Between.append {values : List Nat} (between : Between values n) (more : List Nat) : Between (values ++ more) n :=
  ⟨fun low all => between.least low (List.forall_mem_append.mp all).1,
    fun high all => between.most high (List.forall_mem_append.mp all).1⟩

theorem Between.min_max {values : List Nat} (between : Between values n) :
    ∃ low high, values.min? = some low ∧ values.max? = some high ∧ low ≤ n ∧ n ≤ high := by
  -- Nothing is between no values: they are bounded by everything.
  have some : values ≠ [] := by
    rintro rfl
    exact absurd (between.least (n + 1) fun _ inside => by cases inside) (Nat.not_succ_le_self n)
  obtain ⟨value,inside⟩ := List.exists_mem_of_ne_nil values some
  obtain ⟨low,least⟩ := Option.isSome_iff_exists.mp (List.isSome_min?_of_mem inside)
  obtain ⟨high,most⟩ := Option.isSome_iff_exists.mp (List.isSome_max?_of_mem inside)
  exact ⟨low,high,least,most,between.least low (List.min?_eq_some_iff.mp least).2,
    between.most high (List.max?_eq_some_iff.mp most).2⟩

end Mean

section Thickness
variable {amount size taken part : Nat}

-- A share that goes through a ratio of so many parts, rounded down twice.
theorem ratio_fair (scale : Nat) : amount * (part * scale / size) / scale * size ≤ amount * part := by
  rcases Nat.eq_zero_or_pos scale with rfl | scaled
  · simp
  apply Nat.le_of_mul_le_mul_right _ scaled
  calc
    amount * (part * scale / size) / scale * size * scale
        = amount * (part * scale / size) / scale * scale * size := Nat.mul_right_comm _ _ _
    _ ≤ amount * (part * scale / size) * size := Nat.mul_le_mul_right _ (Nat.div_mul_le_self _ _)
    _ = amount * (part * scale / size * size) := Nat.mul_assoc _ _ _
    _ ≤ amount * (part * scale) := Nat.mul_le_mul_left _ (Nat.div_mul_le_self _ _)
    _ = amount * part * scale := (Nat.mul_assoc _ _ _).symm

theorem thick_of_taken (fair : taken * size ≤ amount * part) :
    amount * (size - part) ≤ (amount - taken) * size := by
  rw [Nat.mul_sub,Nat.sub_mul]
  omega

theorem thick_trans {amount' size' amount'' size'' : Nat} (some : 0 < size') (first : amount * size' ≤ amount' * size)
    (second : amount' * size'' ≤ amount'' * size') : amount * size'' ≤ amount'' * size := by
  apply Nat.le_of_mul_le_mul_right _ some
  calc
    amount * size'' * size' = amount * size' * size'' := Nat.mul_right_comm _ _ _
    _ ≤ amount' * size * size'' := Nat.mul_le_mul_right _ first
    _ = amount' * size'' * size := Nat.mul_right_comm _ _ _
    _ ≤ amount'' * size' * size := Nat.mul_le_mul_right _ second
    _ = amount'' * size * size' := Nat.mul_right_comm _ _ _

end Thickness
end Pranklin.Proportion
