import Mathlib.Data.List.Range
import Mathlib.Tactic.Common

namespace Pranklin

-- A counter in front of ranked items: an item passes when its rank is the counter and nothing
-- else speaks against it, and then the counter goes on by one, below a limit.
structure Gate (α ω : Type) where
  rank : α → Nat
  limit : Nat
  passed : ω
  stale : Nat → α → ω
  early : Nat → α → ω
  refuses : α → ω → Prop

namespace Gate
variable {α ω : Type}

def next (gate : Gate α ω) (n : Nat) : Nat := (n + 1) % gate.limit

inductive Run (gate : Gate α ω) : Nat → List (α × ω) → Nat → Prop where
  | nil : Run gate n [] n
  | stale : gate.rank x < n → Run gate n l m → Run gate n ((x,gate.stale n x) :: l) m
  | early : n < gate.rank x → Run gate n l m → Run gate n ((x,gate.early n x) :: l) m
  | refused : gate.rank x = n → gate.refuses x outcome → Run gate n l m → Run gate n ((x,outcome) :: l) m
  | passed : gate.rank x = n → Run gate (gate.next n) l m → Run gate n ((x,gate.passed) :: l) m

variable {gate : Gate α ω} {n m : Nat} {l stale done held : List (α × ω)}

-- What a counter does to items of rising rank: those below it are stale, then a run from the counter
-- on passes, and from the first that is missing or refused on nothing does.
structure Sorted (gate : Gate α ω) (n : Nat) (l stale done held : List (α × ω)) (m : Nat) : Prop where
  whole : l = stale ++ done ++ held
  old : ∀ x ∈ stale, gate.rank x.1 < n ∧ x.2 = gate.stale n x.1
  through : ∀ x ∈ done, x.2 = gate.passed
  consecutive : done.map (fun x => gate.rank x.1) = List.range' n done.length
  stopped : ∀ x ∈ held, (gate.rank x.1 = n + done.length ∧ gate.refuses x.1 x.2) ∨
    (n + done.length < gate.rank x.1 ∧ x.2 = gate.early (n + done.length) x.1)
  final : m = (done.getLast?.map fun x => gate.next (gate.rank x.1)).getD n

-- Items above the counter: none is stale, and none passes unless the first has the counter's rank.
theorem Sorted.above (sorted : Sorted gate n l stale done held m) (above : ∀ x ∈ l, n < gate.rank x.1) :
    stale = [] ∧ done = [] ∧ held = l ∧ m = n := by
  obtain ⟨rfl,old,_,consecutive,_,final⟩ := sorted
  have noStale : stale = [] := by
    apply List.eq_nil_iff_forall_not_mem.mpr
    intro x inside
    have below := (old x inside).1
    have higher := above x (by simp [inside])
    omega
  have noDone : done = [] := by
    cases done with
    | nil => rfl
    | cons x rest =>
      have higher := above x (by simp)
      rw [List.map_cons,List.length_cons,List.range'_succ,List.cons.injEq] at consecutive
      omega
  subst noStale noDone
  exact ⟨rfl,rfl,rfl,final⟩

theorem Run.sorted (run : Run gate n l m) (rising : l.Pairwise fun x y => gate.rank x.1 < gate.rank y.1)
    (below : ∀ x ∈ l, gate.rank x.1 < gate.limit) : ∃ stale done held, Sorted gate n l stale done held m := by
  induction run with
  | nil => exact ⟨[],[],[],rfl,by simp,by simp,rfl,by simp,rfl⟩
  | stale old _ ih =>
    obtain ⟨_,later⟩ := List.pairwise_cons.mp rising
    obtain ⟨_,small⟩ := List.forall_mem_cons.mp below
    obtain ⟨stale,done,held,rfl,stales,dones,consecutive,helds,final⟩ := ih later small
    exact ⟨_ :: stale,done,held,rfl,List.forall_mem_cons.mpr ⟨⟨old,rfl⟩,stales⟩,dones,consecutive,helds,final⟩
  | early gap _ ih =>
    obtain ⟨first,later⟩ := List.pairwise_cons.mp rising
    obtain ⟨_,small⟩ := List.forall_mem_cons.mp below
    obtain ⟨stale,done,held,sorted⟩ := ih later small
    obtain ⟨rfl,rfl,rfl,rfl⟩ := sorted.above fun x inside => gap.trans (first x inside)
    exact ⟨[],[],_,rfl,by simp,by simp,rfl,List.forall_mem_cons.mpr ⟨.inr ⟨gap,rfl⟩,sorted.stopped⟩,rfl⟩
  | refused same refuses _ ih =>
    obtain ⟨first,later⟩ := List.pairwise_cons.mp rising
    obtain ⟨_,small⟩ := List.forall_mem_cons.mp below
    obtain ⟨stale,done,held,sorted⟩ := ih later small
    obtain ⟨rfl,rfl,rfl,rfl⟩ := sorted.above fun x inside => same ▸ first x inside
    exact ⟨[],[],_,rfl,by simp,by simp,rfl,List.forall_mem_cons.mpr ⟨.inl ⟨same,refuses⟩,sorted.stopped⟩,rfl⟩
  | @passed x _ rest _ same _ ih =>
    subst same
    obtain ⟨first,later⟩ := List.pairwise_cons.mp rising
    obtain ⟨_,small⟩ := List.forall_mem_cons.mp below
    obtain ⟨stale,done,held,sorted⟩ := ih later small
    obtain ⟨whole,stales,dones,consecutive,helds,final⟩ := sorted
    -- The counter wraps only behind the last item.
    have stepped : rest ≠ [] → gate.next (gate.rank x) = gate.rank x + 1 := by
      intro some
      obtain ⟨y,inside⟩ := List.exists_mem_of_ne_nil rest some
      have bound := small y inside
      have order : gate.rank x < gate.rank y.1 := first y inside
      exact Nat.mod_eq_of_lt (by omega)
    have noStale : stale = [] := by
      apply List.eq_nil_iff_forall_not_mem.mpr
      intro y inside
      have listed : y ∈ rest := by simp [whole,inside]
      have old := (stales y inside).1
      rw [stepped (List.ne_nil_of_mem listed)] at old
      have order : gate.rank x < gate.rank y.1 := first y listed
      omega
    subst noStale
    have counted : done.map (fun x => gate.rank x.1) = List.range' (gate.rank x + 1) done.length := by
      cases done with
      | nil => rfl
      | cons y done =>
        rw [stepped (by simp [whole])] at consecutive
        exact consecutive
    refine ⟨[],(x,gate.passed) :: done,held,by simp [whole],by simp,List.forall_mem_cons.mpr ⟨rfl,dones⟩,?_,?_,?_⟩
    · rw [List.map_cons,List.length_cons,List.range'_succ,counted]
    · intro y inside
      have listed : y ∈ rest := by simp [whole,inside]
      have held := helds y inside
      rw [stepped (List.ne_nil_of_mem listed),Nat.add_assoc,Nat.add_comm 1] at held
      exact held
    · rw [final]
      cases done with
      | nil => simp
      | cons y done => simp [List.getLast?_cons]

end Gate
end Pranklin
