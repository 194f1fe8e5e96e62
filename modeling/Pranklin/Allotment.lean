import Mathlib.Algebra.BigOperators.Group.List.Basic
import Mathlib.Algebra.Order.Ring.Nat
import Mathlib.Data.List.Basic
import Mathlib.Tactic.Common

namespace Pranklin.Allotment
variable {α : Type} (size : α → Nat) (price : Nat)

-- A budget is spent on a list of holdings from the front, each whole as long as it
-- lasts; of the first that costs more as many units are taken as the rest pays for.
def allot : Nat → List α → List (α × Nat)
  | _,[] => []
  | budget,holding :: rest =>
    if budget = 0 then []
    else
      let taken := if budget < size holding * price then budget / price else size holding
      (holding,taken) :: allot (budget - taken * price) rest

def spent (taken : List (α × Nat)) : Nat := (taken.map fun entry => entry.2 * price).sum

variable {budget : Nat} {l : List α}

@[simp] theorem spent_nil : spent price ([] : List (α × Nat)) = 0 := rfl

@[simp] theorem spent_cons (entry : α × Nat) (rest : List (α × Nat)) :
    spent price (entry :: rest) = entry.2 * price + spent price rest := rfl

theorem taken_le (budget : Nat) (holding : α) :
    (if budget < size holding * price then budget / price else size holding) ≤ size holding := by
  split
  · rename_i short
    exact Nat.le_of_lt (Nat.div_lt_of_lt_mul (Nat.mul_comm _ _ ▸ short))
  · exact Nat.le_refl _

theorem taken_mul_le (budget : Nat) (holding : α) :
    (if budget < size holding * price then budget / price else size holding) * price ≤ budget := by
  split
  · exact Nat.div_mul_le_self budget price
  · rename_i enough
    exact Nat.le_of_not_lt enough

theorem allot_zero (l : List α) : allot size price 0 l = [] := by
  cases l with
  | nil => rfl
  | cons holding rest => rw [allot,if_pos rfl]

theorem allot_begins (budget : Nat) (l : List α) : (allot size price budget l).map Prod.fst <+: l := by
  induction l generalizing budget with
  | nil => exact List.prefix_refl _
  | cons holding rest ih =>
    rw [allot]
    split
    · exact List.nil_prefix
    · rw [List.map_cons,List.cons_prefix_cons]
      exact ⟨rfl,ih _⟩

theorem allot_le (budget : Nat) (l : List α) : ∀ entry ∈ allot size price budget l, entry.2 ≤ size entry.1 := by
  induction l generalizing budget with
  | nil =>
    intro entry inside
    cases inside
  | cons holding rest ih =>
    intro entry inside
    rw [allot] at inside
    split at inside
    · cases inside
    · rcases List.mem_cons.mp inside with rfl | later
      · exact taken_le size price budget holding
      · exact ih _ entry later

theorem spent_allot_le (budget : Nat) (l : List α) : spent price (allot size price budget l) ≤ budget := by
  induction l generalizing budget with
  | nil => exact Nat.zero_le _
  | cons holding rest ih =>
    rw [allot]
    split
    · exact Nat.zero_le _
    · have first := taken_mul_le size price budget holding
      have later := ih (budget - (if budget < size holding * price then budget / price else size holding) * price)
      rw [spent_cons]
      dsimp only
      omega

theorem allot_spends (budget : Nat) (l : List α) :
    budget < spent price (allot size price budget l) + max price 1 ∨
      allot size price budget l = l.map fun holding => (holding,size holding) := by
  induction l generalizing budget with
  | nil => exact .inr rfl
  | cons holding rest ih =>
    rw [allot]
    split
    · rename_i nothing
      left
      rw [nothing,spent_nil]
      omega
    · rename_i some
      by_cases short : budget < size holding * price
      · left
        have priced : 0 < price := Nat.pos_of_mul_pos_left (Nat.lt_of_le_of_lt (Nat.zero_le _) short)
        have unit := Nat.lt_mul_div_succ budget priced
        rw [if_pos short,spent_cons]
        dsimp only
        rw [Nat.mul_add,Nat.mul_one,Nat.mul_comm] at unit
        omega
      · rw [if_neg short,List.map_cons]
        rcases ih (budget - size holding * price) with spends | all
        · left
          rw [spent_cons]
          dsimp only
          omega
        · right
          dsimp only
          rw [all]

theorem allot_poor (poor : budget < price) (l : List α) : ∀ entry ∈ allot size price budget l, entry.2 = 0 := by
  induction l generalizing budget with
  | nil =>
    intro entry inside
    cases inside
  | cons holding rest ih =>
    intro entry inside
    rw [allot] at inside
    split at inside
    · cases inside
    · rcases List.mem_cons.mp inside with rfl | later
      · dsimp only
        split
        · exact Nat.div_eq_of_lt poor
        · rename_i enough
          by_contra some
          have unit := Nat.le_mul_of_pos_left price (Nat.pos_of_ne_zero some)
          omega
      · exact ih (Nat.lt_of_le_of_lt (Nat.sub_le _ _) poor) entry later

-- A holding is touched only when those before it are taken whole.
theorem allot_front {front back : List α} {holding : α} {taken : Nat} (parts : l = front ++ holding :: back)
    (apart : holding ∉ front) (inside : (holding,taken) ∈ allot size price budget l) (some : 0 < taken) :
    ∀ earlier ∈ front, (earlier,size earlier) ∈ allot size price budget l := by
  subst parts
  induction front generalizing budget with
  | nil =>
    intro earlier nothing
    cases nothing
  | cons first front ih =>
    rw [List.cons_append,allot] at inside ⊢
    split at inside
    · cases inside
    · rename_i funded
      rw [if_neg funded]
      have later := (List.mem_cons.mp inside).resolve_left fun same => apart (by
        rw [(Prod.mk.inj same).1]
        exact List.mem_cons_self)
      by_cases short : budget < size first * price
      · have priced : 0 < price := Nat.pos_of_mul_pos_left (Nat.lt_of_le_of_lt (Nat.zero_le _) short)
        rw [if_pos short] at later
        have poor : budget - budget / price * price < price := by
          rw [Nat.mul_comm,← Nat.mod_eq_sub]
          exact Nat.mod_lt _ priced
        have none := allot_poor size price poor _ _ later
        dsimp only at none
        omega
      · rw [if_neg short] at later ⊢
        intro earlier member
        rcases List.mem_cons.mp member with rfl | member
        · exact List.mem_cons_self
        · exact List.mem_cons_of_mem _ (ih (fun again => apart (List.mem_cons_of_mem _ again)) later earlier member)

end Pranklin.Allotment
