import Mathlib.Data.List.Nodup
import Mathlib.Tactic.Common

namespace Pranklin.Grouping
variable {κ α : Type} {key : α → κ} {rank : α → Nat} {l part : List α}

-- The entries of one key stand together, and among them the ranks grow.
def Grouped (key : α → κ) (rank : α → Nat) (l : List α) : Prop :=
  ∀ k, ∃ before own after, l = before ++ own ++ after ∧ (∀ x ∈ own, key x = k) ∧
    (∀ x ∈ before ++ after, key x ≠ k) ∧ own.Pairwise fun x y => rank x < rank y

section Blocks
variable [DecidableEq κ] {order : List κ} {block : κ → List α}

theorem grouped_flatMap (distinct : order.Nodup) (mine : ∀ k ∈ order, ∀ x ∈ block k, key x = k)
    (rising : ∀ k ∈ order, (block k).Pairwise fun x y => rank x < rank y) : Grouped key rank (order.flatMap block) := by
  intro k
  by_cases inside : k ∈ order
  · obtain ⟨fore,rear,rfl⟩ := List.append_of_mem inside
    have apart := List.nodup_middle.mp distinct
    refine ⟨fore.flatMap block,block k,rear.flatMap block,by simp,mine k inside,?_,rising k inside⟩
    intro x there same
    rw [← List.flatMap_append] at there
    obtain ⟨j,other,held⟩ := List.mem_flatMap.mp there
    have listed : j ∈ fore ++ k :: rear := by
      rcases List.mem_append.mp other with left | right
      · exact List.mem_append_left _ left
      · exact List.mem_append_right _ (List.mem_cons_of_mem _ right)
    rw [mine j listed x held] at same
    subst same
    exact (List.nodup_cons.mp apart).1 other
  · refine ⟨order.flatMap block,[],[],by simp,by simp,?_,.nil⟩
    intro x there same
    rw [List.append_nil] at there
    obtain ⟨j,listed,held⟩ := List.mem_flatMap.mp there
    rw [mine j listed x held] at same
    subst same
    exact inside listed

end Blocks

theorem Grouped.front (grouped : Grouped key rank l) (opens : part <+: l) : Grouped key rank part := by
  intro k
  obtain ⟨before,own,after,rfl,mine,others,rising⟩ := grouped k
  rw [List.prefix_iff_eq_take.mp opens,List.take_append,List.take_append]
  refine ⟨_,_,_,rfl,?_,?_,rising.sublist (List.take_sublist _ _)⟩
  · exact fun x inside => mine x (List.mem_of_mem_take inside)
  · intro x inside
    apply others x
    rcases List.mem_append.mp inside with left | right
    · exact List.mem_append_left _ (List.mem_of_mem_take left)
    · exact List.mem_append_right _ (List.mem_of_mem_take right)

theorem Grouped.rising (grouped : Grouped key rank l) : l.Pairwise fun x y => key x = key y → rank x < rank y := by
  apply List.pairwise_iff_forall_sublist.mpr
  intro x y pair same
  obtain ⟨before,own,after,rfl,mine,others,rising⟩ := grouped (key y)
  have bare : ∀ piece : List α, piece ⊆ [x,y] → piece ⊆ before ++ after → piece = [] := by
    intro piece small outside
    apply List.eq_nil_iff_forall_not_mem.mpr
    intro z inside
    have keyed : key z = key y := by
      have named := small inside
      simp only [List.mem_cons,List.not_mem_nil,or_false] at named
      rcases named with rfl | rfl
      · exact same
      · rfl
    exact others z (outside inside) keyed
  -- Both lie in the block of their key.
  obtain ⟨_,third,split,first,late⟩ := List.sublist_append_iff.mp pair
  obtain ⟨fore,middle,rfl,early,within⟩ := List.sublist_append_iff.mp first
  have noFore : fore = [] := by
    apply bare fore
    · rw [split]
      simp
    · exact fun z inside => List.mem_append_left _ (early.subset inside)
  have noThird : third = [] := by
    apply bare third
    · rw [split]
      simp
    · exact fun z inside => List.mem_append_right _ (late.subset inside)
  rw [noFore,noThird,List.nil_append,List.append_nil] at split
  rw [← split] at within
  exact List.pairwise_iff_forall_sublist.mp rising within

theorem Grouped.nodup (grouped : Grouped key rank l) : l.Nodup :=
  grouped.rising.imp fun ordered same => absurd (ordered (congrArg key same)) (by simp [same])

theorem Grouped.front_closed (grouped : Grouped key rank l) (opens : part <+: l) {x y : α} (taken : x ∈ part)
    (listed : y ∈ l) (same : key y = key x) (lower : rank y < rank x) : y ∈ part := by
  obtain ⟨back,rfl⟩ := opens
  rcases List.mem_append.mp listed with inside | left
  · exact inside
  · have ordered := (List.pairwise_append.mp grouped.rising).2.2 x taken y left same.symm
    exact absurd ordered (Nat.lt_asymm lower)

end Pranklin.Grouping
