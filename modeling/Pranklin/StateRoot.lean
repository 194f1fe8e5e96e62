import Mathlib.Data.List.Chain
import Pranklin.Overlay

namespace Pranklin.Storage
variable {K : Type} [DecidableEq K] {V : K → Type} {R : Type}

def contents (ops : List (Op K V)) : Contents K V := (Image.run ops).base

-- Blocks follow each other without a gap, and once anything has been written every block
-- writes something.
structure Unbroken (ops : List (Op K V)) : Prop where
  consecutive : (versions ops).IsChain fun version next => next = version + 1
  busy : ∀ before version, before ++ [.commit version] <+: ops → contents before ≠ .blank →
    (Image.run before).buffer ≠ .blank

section Runs
variable {hasher : TreeHasher K V R} {config : PruningConfig} {s : RocksDbStorage K V R} {ops : List (Op K V)}

theorem Unbroken.earlier (unbroken : Unbroken ops) (before : front <+: ops) : Unbroken front := by
  refine ⟨?_,fun earlier version inside => unbroken.busy earlier version (inside.trans before)⟩
  obtain ⟨rest,rfl⟩ := before
  have consecutive := unbroken.consecutive
  rw [versions_append] at consecutive
  exact consecutive.left_of_append

theorem contents_commit (ops : List (Op K V)) (version : Nat) : contents (ops ++ [.commit version]) = (Image.run ops).view := by
  rw [contents,Image.run_append]
  rfl

theorem pending_isEmpty (buffered : ∀ key, s.pendingUpdates.lookup key = (Image.run ops).buffer key) :
    s.pendingUpdates.entries.isEmpty ↔ (Image.run ops).buffer = .blank := by
  constructor
  · intro nothing
    have empty : s.pendingUpdates = ∅ := AList.ext (List.isEmpty_iff.mp nothing)
    funext key
    rw [← buffered,empty]
    rfl
  · intro blank
    rw [List.isEmpty_iff,List.eq_nil_iff_forall_not_mem]
    intro entry inside
    have present : s.pendingUpdates.lookup entry.1 = some entry.2 := AList.mem_lookup_iff.mpr inside
    rw [buffered,blank] at present
    cases present

theorem commit_nodes (hasher : TreeHasher K V R) (s : RocksDbStorage K V R) (version : Nat) :
    (s.commit hasher version).2.db.nodes = (s.writePending version).db.nodes := by
  have nodes := (commitUnpruned_committed hasher s version).nodes
  rw [(writePending_db s version).2.2.1,commit_state]
  split <;> exact nodes

structure Rooted (ops : List (Op K V)) (s : RocksDbStorage K V R) : Prop where
  stored : contents ops ≠ .blank → ∃ last, (versions ops).getLast? = some last ∧ s.db.nodes last = some (contents ops)
  bare : contents ops = .blank → ∀ version, s.db.nodes version = none

theorem Rooted.putValueSet (rooted : Rooted ops s)
    (buffered : ∀ key, s.pendingUpdates.lookup key = (Image.run ops).buffer key)
    (next : ∀ last, (versions ops).getLast? = some last → version = last + 1) :
    s.db.putValueSet s.pendingUpdates version = (Image.run ops).view := by
  have previous : s.db.previousTree version = contents ops := by
    by_cases blank : contents ops = .blank
    · rw [blank]
      cases version with
      | zero => rfl
      | succ before => rw [Db.previousTree,rooted.bare blank before]; rfl
    · obtain ⟨last,final,tree⟩ := rooted.stored blank
      obtain rfl := next last final
      rw [Db.previousTree,tree]
      rfl
  funext key
  rw [Db.putValueSet,previous,Image.view,← buffered]
  cases s.pendingUpdates.lookup key <;> rfl

theorem Rooted.commit (rooted : Rooted ops s)
    (buffered : ∀ key, s.pendingUpdates.lookup key = (Image.run ops).buffer key)
    (next : ∀ last, (versions ops).getLast? = some last → version = last + 1)
    (busy : contents ops ≠ .blank → (Image.run ops).buffer ≠ .blank) :
    Rooted (ops ++ [.commit version]) (s.commit hasher version).2 ∧
      (contents (ops ++ [.commit version]) = .blank → (s.commit hasher version).1 = hasher.zero) ∧
      (contents (ops ++ [.commit version]) ≠ .blank →
        (s.commit hasher version).1 = hasher.hash (contents (ops ++ [.commit version]))) := by
  have nodes := (writePending_db s version).2.2.1
  rw [commit_root,Db.calculateStateRoot]
  by_cases idle : (Image.run ops).buffer = .blank
  · -- Nothing is buffered, so nothing has been written before either.
    have blank : contents ops = .blank := Classical.byContradiction fun written => busy written idle
    have same : contents (ops ++ [.commit version]) = .blank := by
      rw [contents_commit]
      funext key
      rw [Image.view,idle]
      exact congrFun blank key
    rw [if_pos ((pending_isEmpty buffered).mpr idle)] at nodes
    have absent : ∀ version', (s.writePending version).db.nodes version' = none := fun version' => by
      rw [nodes]
      exact rooted.bare blank version'
    refine ⟨⟨fun written => absurd same written,fun _ version' => ?_⟩,fun _ => ?_,fun written => absurd same written⟩
    · rw [commit_nodes]; exact absent version'
    · rw [absent version]
  · rw [if_neg fun nothing => idle ((pending_isEmpty buffered).mp nothing),rooted.putValueSet buffered next,
      ← contents_commit ops version] at nodes
    have stored : (s.writePending version).db.nodes version = some (contents (ops ++ [.commit version])) := by
      rw [nodes,Function.update_self]
    have written : contents (ops ++ [.commit version]) ≠ .blank := by
      intro blank
      apply idle
      funext key
      have seen : (Image.run ops).view key = none := by rw [← contents_commit ops version,blank]; rfl
      exact (Option.or_eq_none_iff.mp seen).1
    refine ⟨⟨fun _ => ⟨version,by simp [versions],by rw [commit_nodes]; exact stored⟩,fun blank => absurd blank written⟩,
      fun blank => absurd blank written,fun _ => by rw [stored]⟩

theorem run_rooted (unbroken : Unbroken ops) : Rooted ops ((RocksDbStorage.new Db.empty config).run hasher ops) := by
  induction ops using List.reverseRecOn with
  | nil => exact ⟨fun written => absurd rfl written,fun _ _ => rfl⟩
  | append_singleton ops op ih =>
    have before := ih (unbroken.earlier (List.prefix_append _ _))
    have quiet : (∀ version, op ≠ .commit version) →
        contents (ops ++ [op]) = contents ops ∧ versions (ops ++ [op]) = versions ops := by
      intro other
      rw [contents,Image.run_append]
      cases op with
      | set key value | delete key => exact ⟨rfl,by simp [versions]⟩
      | commit version => exact absurd rfl (other version)
    rw [run_append]
    cases op with
    | set key value | delete key =>
      obtain ⟨same,silent⟩ := quiet fun _ => by simp
      exact ⟨by rw [same,silent]; exact before.stored,by rw [same]; exact before.bare⟩
    | commit version =>
      have consecutive := unbroken.consecutive
      rw [versions_append] at consecutive
      obtain ⟨_,_,next⟩ := List.isChain_append.mp consecutive
      exact (before.commit (run_pending hasher config ops) (fun last final => next last final version rfl)
        (unbroken.busy ops version (List.prefix_refl _))).1

theorem root_of_contents (hasher : TreeHasher K V R) (config : PruningConfig) (unbroken : Unbroken (ops ++ [.commit version])) :
    let root := (((RocksDbStorage.new Db.empty config).run hasher ops).commit hasher version).1
    (contents (ops ++ [.commit version]) = .blank → root = hasher.zero) ∧
      (contents (ops ++ [.commit version]) ≠ .blank → root = hasher.hash (contents (ops ++ [.commit version]))) := by
  have consecutive := unbroken.consecutive
  rw [versions_append] at consecutive
  obtain ⟨_,_,next⟩ := List.isChain_append.mp consecutive
  exact ((run_rooted (unbroken.earlier (List.prefix_append _ _))).commit (run_pending hasher config ops)
    (fun last final => next last final version rfl) (unbroken.busy ops version (List.prefix_refl _))).2

theorem le_of_isChain {earlier last : Nat} {list : List Nat} (chain : (list ++ [last]).IsChain fun a b => b = a + 1)
    (inside : earlier ∈ list ++ [last]) : earlier ≤ last := by
  have sorted : (list ++ [last]).Pairwise (· < ·) :=
    List.isChain_iff_pairwise.mp (chain.imp fun a b next => by omega)
  rcases List.mem_append.mp inside with before | same
  · exact Nat.le_of_lt ((List.pairwise_append.mp sorted).2.2 earlier before last (List.mem_singleton_self _))
  · exact Nat.le_of_eq (List.mem_singleton.mp same)

-- The root tells the contents and nothing else: two points of any two unbroken runs with
-- equal contents have equal roots, and (for a hash without collisions) equal roots stand for
-- equal contents. The contents are what is read, as long as nothing is pruned.
theorem root_commits_to_contents (hasher : TreeHasher K V R) (config config' : PruningConfig) {ops ops' : List (Op K V)}
    (unbroken : Unbroken ops) (unbroken' : Unbroken ops') :
    ∀ before version before' version', before ++ [.commit version] <+: ops → before' ++ [.commit version'] <+: ops' →
      let committed := ((RocksDbStorage.new Db.empty config).run hasher before).commit hasher version
      let committed' := ((RocksDbStorage.new Db.empty config').run hasher before').commit hasher version'
      let now := contents (before ++ [.commit version])
      let now' := contents (before' ++ [.commit version'])
      (now = now' → committed.1 = committed'.1) ∧
      (Function.Injective hasher.hash → now ≠ .blank → now' ≠ .blank → committed.1 = committed'.1 → now = now') ∧
      ((∀ earlier ∈ versions (before ++ [.commit version]), prunes config earlier = false) →
        ∀ key, committed.2.get key version = now key) := by
  intro before version before' version' point point' committed committed' now now'
  have run := unbroken.earlier point
  obtain ⟨zero,hash⟩ := root_of_contents hasher config run
  obtain ⟨zero',hash'⟩ := root_of_contents hasher config' (unbroken'.earlier point')
  refine ⟨fun same => ?_,fun collisionFree written written' roots => ?_,fun unpruned key => ?_⟩
  · by_cases blank : now = .blank
    · have blank' : now' = .blank := same.symm.trans blank
      exact (zero blank).trans (zero' blank').symm
    · have written' : now' ≠ .blank := fun blank' => blank (same.trans blank')
      exact (hash blank).trans ((congrArg hasher.hash same).trans (hash' written').symm)
  · exact collisionFree ((hash written).symm.trans (roots.trans (hash' written')))
  · have current : ∀ earlier ∈ versions (before ++ [.commit version]), earlier ≤ version := by
      have consecutive := run.consecutive
      rw [versions_append] at consecutive ⊢
      exact fun earlier inside => le_of_isChain consecutive inside
    have read := get_run hasher unpruned current key
    rw [run_append,Image.view,Image.run_append] at read
    change committed.2.get key version = contents (before ++ [.commit version]) key
    rw [contents,Image.run_append]
    exact read

end Runs

end Pranklin.Storage

namespace Pranklin.StateRoot
open Storage
open Overlay (trader)

abbrev StateTree := Contents StateKey StateKey.Value

def treeItself : TreeHasher StateKey StateKey.Value (Option StateTree) := ⟨none,some⟩

abbrev StateOp := Op StateKey StateKey.Value

def setBalance : StateOp := .set (.balance trader 0) (7 : Nat)

def setNonce : StateOp := .set (.nonce trader) (1 : Nat)

def opened : RocksDbStorage StateKey StateKey.Value (Option StateTree) := .new .empty {}

theorem unbroken_two_blocks (key next : StateKey) (value : key.Value) (written : next.Value) (version : Nat) :
    Unbroken [.set key value,.commit version,.set next written,.commit (version + 1)] where
  consecutive := by simp [versions]
  busy before version' earlier old blank := by
    have shape := (List.mem_inits _ _).mpr earlier
    simp only [List.inits,List.map_cons,List.map_nil,List.mem_cons,List.append_eq_nil_iff,List.cons_ne_nil,and_false,
      false_or,List.not_mem_nil,or_false] at shape
    rcases shape with shape | shape | shape | shape
    all_goals
      have final := congrArg List.getLast? shape
      have front := congrArg List.dropLast shape
      simp at final front
    · subst front
      exact old rfl
    · subst front
      have seen := congrFun blank next
      simp [Image.run,Image.apply,Contents.blank] at seen

theorem root_commits_to_contents_two_orders :
    ((opened.run treeItself [setBalance,.commit 0,setNonce]).commit treeItself 1).1 =
      ((opened.run treeItself [setNonce,.commit 4,setBalance]).commit treeItself 5).1 := by
  have left := unbroken_two_blocks (.balance trader 0) (.nonce trader) (7 : Nat) (1 : Nat) 0
  have right := unbroken_two_blocks (.nonce trader) (.balance trader 0) (1 : Nat) (7 : Nat) 4
  refine (root_commits_to_contents treeItself {} {} left right [setBalance,.commit 0,setNonce] 1
    [setNonce,.commit 4,setBalance] 5 (List.prefix_refl _) (List.prefix_refl _)).1 ?_
  funext key
  by_cases balance : key = .balance trader 0
  · subst balance; decide +kernel
  · by_cases nonce : key = .nonce trader
    · subst nonce; decide +kernel
    · simp [contents,Image.run,Image.apply,setBalance,setNonce,balance,nonce]

-- After a block without writes the root is zero and the next tree knows only its own block.
theorem empty_block_forgets :
    let first := (opened.run treeItself [setBalance]).commit treeItself 1
    let idle := first.2.commit treeItself 2
    let last := (idle.2.set (.nonce trader) (1 : Nat)).commit treeItself 3
    Function.Injective treeItself.hash ∧
      contents [setBalance,.commit 1,.commit 2] = contents [setBalance,.commit 1] ∧ idle.1 ≠ first.1 ∧
      last.2.get (.balance trader 0) 3 = some (7 : Nat) ∧
      (last.1.bind fun tree => tree (.balance trader 0)) = none := by
  refine ⟨Option.some_injective _,rfl,?_,by decide +kernel,by decide +kernel⟩
  intro same
  have value := congrArg (fun root => root.bind fun tree => tree (.balance trader 0)) same
  revert value
  decide +kernel

end Pranklin.StateRoot
