import Mathlib.Algebra.Order.Ring.Nat
import Mathlib.Data.List.Nodup
import Mathlib.Tactic.Common

namespace Pranklin.KeyedList
variable {α κ : Type} [DecidableEq κ] {key : α → κ} {k : κ} {f : α → Option α} {l : List α}

theorem filter_ne_of_absent {l : List κ} (absent : k ∉ l) : l.filter (· ≠ k) = l := by
  refine List.filter_eq_self.mpr fun a member => ?_
  have other : a ≠ k := fun same => absent (same ▸ member)
  simpa using other

theorem erase_eq_filter_ne {l : List κ} (distinct : l.Nodup) (k : κ) : l.erase k = l.filter (· ≠ k) := by
  rw [distinct.erase_eq_filter]
  exact List.filter_congr fun a _ => by by_cases same : a = k <;> simp [same]

theorem flatMap_single (f : κ → List α) {l : List κ} (distinct : l.Nodup) (k : κ) :
    l.flatMap (fun a => if a = k then f a else []) = if k ∈ l then f k else [] := by
  induction l with
  | nil => simp
  | cons a l ih =>
    obtain ⟨fresh,distinct⟩ := List.nodup_cons.mp distinct
    rw [List.flatMap_cons,ih distinct]
    by_cases same : a = k
    · subst same; simp [fresh]
    · simp [same,Ne.symm same]

def alter (key : α → κ) (k : κ) (f : α → Option α) (l : List α) : List α :=
  l.filterMap fun a => if key a = k then f a else some a

theorem alter_cons_self (a : α) (l : List α) (same : key a = k) :
    alter key k f (a :: l) = (f a).toList ++ alter key k f l := by
  unfold alter
  cases kept : f a <;> simp [same,kept]

theorem alter_cons_ne (a : α) (l : List α) (other : key a ≠ k) :
    alter key k f (a :: l) = a :: alter key k f l := by
  simp [alter,other]

theorem alter_of_absent (absent : k ∉ l.map key) : alter key k f l = l := by
  induction l with
  | nil => rfl
  | cons a l ih =>
    simp only [List.map_cons,List.mem_cons,not_or] at absent
    rw [alter_cons_ne a l (Ne.symm absent.1),ih absent.2]

theorem mem_alter {b : α} : b ∈ alter key k f l ↔ (b ∈ l ∧ key b ≠ k) ∨ ∃ a ∈ l, key a = k ∧ f a = some b := by
  simp only [alter,List.mem_filterMap]
  constructor
  · rintro ⟨a,member,result⟩
    split at result
    · rename_i same; exact .inr ⟨a,member,same,result⟩
    · rename_i other; cases result; exact .inl ⟨member,other⟩
  · rintro (⟨member,other⟩ | ⟨a,member,same,result⟩)
    · exact ⟨b,member,by simp [other]⟩
    · exact ⟨a,member,by simp [same,result]⟩

section Keys
variable (keeps : ∀ a b, f a = some b → key b = key a)
include keeps

theorem alter_keys_sublist : ((alter key k f l).map key).Sublist (l.map key) := by
  induction l with
  | nil => exact .refl _
  | cons a l ih =>
    by_cases same : key a = k
    · rw [alter_cons_self a l same,List.map_append,List.map_cons]
      cases kept : f a with
      | none => exact ih.cons _
      | some b => simpa [keeps a b kept] using ih
    · rw [alter_cons_ne a l same,List.map_cons,List.map_cons]
      exact ih.cons_cons _

theorem alter_keys_nodup (distinct : (l.map key).Nodup) : ((alter key k f l).map key).Nodup :=
  distinct.sublist (alter_keys_sublist keeps)

theorem alter_keys_of_some (kept : ∀ a ∈ l, key a = k → (f a).isSome) :
    (alter key k f l).map key = l.map key := by
  induction l with
  | nil => rfl
  | cons a l ih =>
    have rest := ih fun b member => kept b (List.mem_cons_of_mem _ member)
    by_cases same : key a = k
    · obtain ⟨b,result⟩ := Option.isSome_iff_exists.mp (kept a List.mem_cons_self same)
      simp [alter_cons_self a l same,result,keeps a b result,rest]
    · simp [alter_cons_ne a l same,rest]

end Keys

theorem alter_keys_of_none (gone : ∀ a ∈ l, key a = k → f a = none) :
    (alter key k f l).map key = (l.map key).filter (· ≠ k) := by
  induction l with
  | nil => rfl
  | cons a l ih =>
    have rest := ih fun b member => gone b (List.mem_cons_of_mem _ member)
    by_cases same : key a = k
    · simp [alter_cons_self a l same,gone a List.mem_cons_self same,same,rest]
    · simp [alter_cons_ne a l same,same,rest]

theorem filter_alter {p : α → Bool} (stable : ∀ a b, f a = some b → p b = p a) :
    (alter key k f l).filter p = alter key k f (l.filter p) := by
  induction l with
  | nil => rfl
  | cons a l ih =>
    by_cases same : key a = k
    · rw [alter_cons_self a l same,List.filter_append,ih]
      cases chosen : p a with
      | true =>
        rw [List.filter_cons_of_pos chosen,alter_cons_self a _ same]
        cases result : f a with
        | none => rfl
        | some b => simp [stable a b result,chosen]
      | false =>
        rw [List.filter_cons_of_neg (by simp [chosen])]
        cases result : f a with
        | none => rfl
        | some b => simp [stable a b result,chosen]
    · rw [alter_cons_ne a l same]
      cases chosen : p a with
      | true => rw [List.filter_cons_of_pos chosen,List.filter_cons_of_pos chosen,alter_cons_ne a _ same,ih]
      | false =>
        rw [List.filter_cons_of_neg (by simp [chosen]),List.filter_cons_of_neg (by simp [chosen]),ih]

theorem sum_alter (weight : α → Nat) {a : α} (distinct : (l.map key).Nodup) (member : a ∈ l) (same : key a = k) :
    ((alter key k f l).map weight).sum + weight a = (l.map weight).sum + ((f a).map weight).getD 0 := by
  induction l with
  | nil => cases member
  | cons b l ih =>
    obtain ⟨fresh,distinct⟩ := List.nodup_cons.mp distinct
    rcases List.mem_cons.mp member with rfl | member
    · rw [alter_cons_self a l same,alter_of_absent (by rwa [← same])]
      cases f a <;> simp <;> omega
    · have other : key b ≠ k := fun equal =>
        fresh (equal ▸ same ▸ List.mem_map_of_mem member)
      have rest := ih distinct member
      rw [alter_cons_ne b l other]
      simp only [List.map_cons,List.sum_cons]
      omega

end Pranklin.KeyedList
