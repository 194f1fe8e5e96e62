import Mathlib.Algebra.Order.Ring.Nat
import Mathlib.Tactic.Common

namespace Pranklin.Words

-- Unsigned machine words are naturals; an operation names the width it works at.
-- A release build carries no overflow checks, so the plain operators wrap.
def wrap (width n : Nat) : Nat := n % 2 ^ width

def addWrap (width a b : Nat) : Nat := (a + b) % 2 ^ width

def mulWrap (width a b : Nat) : Nat := (a * b) % 2 ^ width

def subWrap (width a b : Nat) : Nat := if b ≤ a then a - b else a + 2 ^ width - b

-- The second component of `overflowing_sub`; a build with overflow checks aborts on it.
def borrows (a b : Nat) : Bool := decide (a < b)

def checkedAdd (width a b : Nat) : Option Nat := if a + b < 2 ^ width then some (a + b) else none

def checkedMul (width a b : Nat) : Option Nat := if a * b < 2 ^ width then some (a * b) else none

-- `u64::is_multiple_of`: only zero is a multiple of zero.
def isMultipleOf (n d : Nat) : Bool := decide (n % d = 0)

theorem wrap_of_lt (fits : n < 2 ^ width) : wrap width n = n := Nat.mod_eq_of_lt fits

theorem addWrap_of_lt (fits : a + b < 2 ^ width) : addWrap width a b = a + b := Nat.mod_eq_of_lt fits

theorem subWrap_of_le (covered : b ≤ a) : subWrap width a b = a - b := if_pos covered

theorem borrows_eq_false : borrows a b = false ↔ b ≤ a := by simp [borrows]

theorem checkedAdd_eq_some : checkedAdd width a b = some c ↔ a + b < 2 ^ width ∧ c = a + b := by
  by_cases fits : a + b < 2 ^ width <;> simp [checkedAdd,fits,eq_comm]

theorem checkedMul_eq_some : checkedMul width a b = some c ↔ a * b < 2 ^ width ∧ c = a * b := by
  by_cases fits : a * b < 2 ^ width <;> simp [checkedMul,fits,eq_comm]

theorem checkedAdd_of_lt (fits : a + b < 2 ^ width) : checkedAdd width a b = some (a + b) := if_pos fits

theorem checkedMul_of_lt (fits : a * b < 2 ^ width) : checkedMul width a b = some (a * b) := if_pos fits

def sumWrap (width : Nat) (words : List Nat) : Nat := words.foldl (addWrap width) 0

theorem foldl_addWrap_of_lt {words : List Nat} (fits : start + words.sum < 2 ^ width) :
    words.foldl (addWrap width) start = start + words.sum := by
  induction words generalizing start with
  | nil => simp
  | cons word rest ih =>
    rw [List.sum_cons] at fits
    rw [List.foldl_cons,addWrap_of_lt (by omega),ih (by omega),List.sum_cons,Nat.add_assoc]

theorem sumWrap_of_lt {words : List Nat} (fits : words.sum < 2 ^ width) :
    sumWrap width words = words.sum := by
  unfold sumWrap
  rw [foldl_addWrap_of_lt (by simpa using fits),Nat.zero_add]

end Pranklin.Words
