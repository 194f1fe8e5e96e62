import Mathlib.Data.List.Basic
import Mathlib.Data.List.Nodup
import Mathlib.Data.List.Perm.Basic
import Mathlib.Tactic.Common
import Std.Data.ExtTreeMap

namespace Pranklin
open Std

abbrev OrderedStore (α β : Type) [Ord α] := ExtTreeMap (List α) β

namespace OrderedStore

theorem compare_cons {α : Type} [Ord α] (a b : α) (one other : List α) :
    compare (a :: one) (b :: other) = (compare a b).then (compare one other) := List.compareLex_cons_cons

def startsWith {α β : Type} [DecidableEq α] (front : List α) (entry : List α × β) : Bool := front.isPrefixOf entry.1

theorem startsWith_iff {α β : Type} [DecidableEq α] {front : List α} {entry : List α × β} :
    startsWith front entry = true ↔ front <+: entry.1 := List.isPrefixOf_iff_prefix

variable {α β γ : Type} [Ord α] [LawfulEqOrd α]

theorem compare_append (front one other : List α) : compare (front ++ one) (front ++ other) = compare one other := by
  induction front with
  | nil => rfl
  | cons symbol front ih =>
    rw [List.cons_append,List.cons_append,compare_cons,ReflOrd.compare_self]
    exact ih

theorem prefix_not_lt {front key : List α} (begins : front <+: key) : compare key front ≠ .lt := by
  induction front generalizing key with
  | nil =>
    cases key with
    | nil => exact fun before => nomatch before
    | cons _ _ => exact fun before => nomatch before
  | cons symbol front ih =>
    obtain ⟨rest,same⟩ := begins
    subst same
    have tail := ih (List.prefix_append front rest)
    rw [List.cons_append,compare_cons,ReflOrd.compare_self]
    exact tail

theorem beyond_prefix {front one other : List α} (reached : compare one front ≠ .lt) (past : ¬ front <+: one)
    (later : compare one other = .lt) : ¬ front <+: other := by
  induction front generalizing one other with
  | nil => exact absurd List.nil_prefix past
  | cons symbol front ih =>
    rintro ⟨rest,same⟩
    subst same
    cases one with
    | nil => exact reached rfl
    | cons head one =>
      rw [compare_cons] at reached
      rw [List.cons_append,compare_cons] at later
      cases order : compare head symbol with
      | lt => exact reached (by rw [order]; rfl)
      | gt => rw [order] at later; cases later
      | eq =>
        rw [order] at reached later
        obtain rfl := LawfulEqOrd.eq_of_compare order
        exact ih reached (fun begins => past ((List.prefix_cons_inj head).mpr begins)) later (List.prefix_append front rest)

theorem split_reached [DecidableEq α] {front : List α} {entries : List (List α × β)}
    (sorted : entries.Pairwise fun one other => compare one.1 other.1 = .lt)
    (reached : ∀ entry ∈ entries, compare entry.1 front ≠ .lt) :
    entries = entries.filter (startsWith front) ++
      entries.filter (fun entry => !startsWith front entry) := by
  induction entries with
  | nil => rfl
  | cons entry entries ih =>
    have rest := ih sorted.of_cons fun e inside => reached e (List.mem_cons_of_mem _ inside)
    by_cases begins : startsWith front entry = true
    · rw [List.filter_cons_of_pos begins,List.filter_cons_of_neg (by rw [begins]; decide),List.cons_append,← rest]
    · have past : ¬ front <+: entry.1 := fun isPrefix => begins (startsWith_iff.mpr isPrefix)
      have none : entries.filter (startsWith front) = [] := by
        apply List.filter_eq_nil_iff.mpr
        intro e inside isPrefix
        exact beyond_prefix (reached entry List.mem_cons_self) past ((List.pairwise_cons.mp sorted).1 e inside)
          (startsWith_iff.mp isPrefix)
      rw [none] at rest
      rw [List.filter_cons_of_neg begins,none,List.nil_append,List.filter_cons_of_pos (by simp [begins]),
        ← List.nil_append (List.filter _ _),← rest]

variable [TransOrd α]

theorem toList_nodup (store : OrderedStore α β) : store.toList.Nodup := by
  apply List.Pairwise.imp _ store.distinct_keys_toList
  intro one other apart same
  rw [same] at apart
  exact apart ReflCmp.compare_self

theorem insertMany_iff [BEq α] [LawfulBEqOrd α] {store : OrderedStore α β} {batch : List (List α × β)}
    (agree : ∀ key one other, (key,one) ∈ batch → (key,other) ∈ batch → one = other) {key : List α} {value : β} :
    (store.insertMany batch)[key]? = some value ↔
      (key,value) ∈ batch ∨ key ∉ batch.map Prod.fst ∧ store[key]? = some value := by
  induction batch generalizing store with
  | nil => simp
  | cons entry batch ih =>
    obtain ⟨head,first⟩ := entry
    have rest : ∀ key one other, (key,one) ∈ batch → (key,other) ∈ batch → one = other :=
      fun key one other left right => agree key one other (List.mem_cons_of_mem _ left) (List.mem_cons_of_mem _ right)
    rw [ExtTreeMap.insertMany_cons,ih rest,ExtTreeMap.getElem?_insert]
    by_cases own : head = key
    · subst own
      rw [if_pos ReflOrd.compare_self]
      have named : head ∈ batch.map Prod.fst → ∃ v, (head,v) ∈ batch ∧ first = v := by
        intro present
        obtain ⟨⟨_,v⟩,inside,rfl⟩ := List.mem_map.mp present
        exact ⟨v,inside,agree _ first v List.mem_cons_self (List.mem_cons_of_mem _ inside)⟩
      simp only [List.mem_cons,Prod.mk.injEq,true_and,List.map_cons,Option.some.injEq]
      constructor
      · intro found
        rcases found with inside | ⟨_,same⟩
        · exact Or.inl (Or.inr inside)
        · exact Or.inl (Or.inl same.symm)
      · intro found
        rcases found with (same | inside) | ⟨absent,_⟩
        · by_cases present : head ∈ batch.map Prod.fst
          · obtain ⟨v,inside,equal⟩ := named present
            rw [same,equal]
            exact Or.inl inside
          · exact Or.inr ⟨present,same.symm⟩
        · exact Or.inl inside
        · exact absurd (Or.inl trivial) absent
    · rw [if_neg fun same => own (LawfulEqOrd.eq_of_compare same)]
      simp [Ne.symm own]

section Scans
variable [DecidableEq α]

-- Where an iterator starts that looks for a prefix and runs on to the end of the store.
def seek (store : OrderedStore α β) (front : List α) : List (List α × β) :=
  store.toList.dropWhile fun entry => compare entry.1 front == .lt

theorem dropWhile_split {front : List α} {entries : List (List α × β)}
    (sorted : entries.Pairwise fun one other => compare one.1 other.1 = .lt) :
    ∃ later, entries.dropWhile (fun entry => compare entry.1 front == .lt) =
      entries.filter (startsWith front) ++ later ∧ ∀ entry ∈ later, ¬ front <+: entry.1 := by
  induction entries with
  | nil => exact ⟨[],rfl,List.forall_mem_nil _⟩
  | cons entry entries ih =>
    by_cases before : compare entry.1 front = .lt
    · obtain ⟨later,split,past⟩ := ih sorted.of_cons
      have other : ¬ startsWith front entry = true :=
        fun begins => prefix_not_lt (startsWith_iff.mp begins) before
      exact ⟨later,by rw [List.dropWhile_cons_of_pos (by simp [before]),List.filter_cons_of_neg other,split],past⟩
    · have reached : ∀ e ∈ entry :: entries, compare e.1 front ≠ .lt := by
        intro e inside
        rcases List.mem_cons.mp inside with rfl | inside
        · exact before
        · intro lower
          exact before (TransCmp.lt_trans ((List.pairwise_cons.mp sorted).1 e inside) lower)
      refine ⟨(entry :: entries).filter fun entry => !startsWith front entry,?_,?_⟩
      · rw [List.dropWhile_cons_of_neg (by simp [before])]
        exact split_reached sorted reached
      · intro e inside isPrefix
        have not := (List.mem_filter.mp inside).2
        rw [startsWith_iff.mpr isPrefix] at not
        cases not

-- What an iterator over a prefix owes: the entries that begin so, in the order of the store, and then none of them.
structure PrefixIterator (α β : Type) [Ord α] [TransOrd α] [DecidableEq α] where
  scan : OrderedStore α β → List α → List (List α × β)
  complete : ∀ store front, ∃ later, scan store front =
    (store.toList.filter (startsWith front)) ++ later ∧ ∀ entry ∈ later, ¬ front <+: entry.1

def PrefixIterator.seeking : PrefixIterator α β where
  scan := seek
  complete store _ := dropWhile_split store.ordered_keys_toList

theorem PrefixIterator.scan_eq (iterator : PrefixIterator α β) {store : OrderedStore α β} {front : List α} {rows : List γ}
    {entry : γ → List α × β} (distinct : (rows.map entry).Nodup)
    (exactly : ∀ key value, store[key]? = some value ∧ front <+: key ↔ (key,value) ∈ rows.map entry) :
    ∃ (ordered : List γ) (later : List (List α × β)),
      ordered.Perm rows ∧ iterator.scan store front = ordered.map entry ++ later ∧
      (∀ other ∈ later, ¬ front <+: other.1) ∧
      ordered.Pairwise fun one other => compare (entry one).1 (entry other).1 = .lt := by
  obtain ⟨later,found,past⟩ := iterator.complete store front
  have same : (store.toList.filter (startsWith front)).Perm (rows.map entry) := by
    apply (List.perm_ext_iff_of_nodup ((toList_nodup store).filter _) distinct).mpr
    intro (key,value)
    rw [← exactly,List.mem_filter,ExtTreeMap.mem_toList_iff_getElem?_eq_some,startsWith_iff]
  have both := congrFun (congrFun (List.eq_map_comp_perm entry) (store.toList.filter (startsWith front))) rows
  obtain ⟨ordered,mapped,perm⟩ := both.mpr same
  have sorted := store.ordered_keys_toList.sublist (List.filter_sublist : (store.toList.filter (startsWith front)).Sublist _)
  rw [mapped] at sorted
  exact ⟨ordered,later,perm,mapped ▸ found,past,List.pairwise_map.mp sorted⟩

end Scans
end OrderedStore
end Pranklin
