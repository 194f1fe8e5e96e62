import Pranklin.Restore

namespace Pranklin
open Storage

namespace StateManager
variable {hasher : TreeHasher StateKey StateKey.Value B256} {s : StateManager} {version : Nat}

-- It commits the version once more; the record that is listed is written by the commit, if at all.
def createSnapshot (hasher : TreeHasher StateKey StateKey.Value B256) (s : StateManager) : StateManager :=
  {s with storage:=(s.storage.commit hasher s.version).2}

def listSnapshots (s : StateManager) : List Nat := s.storage.listSnapshots

def restoreFromSnapshot (s : StateManager) (version : Nat) : Except StateError StateManager := do
  let storage ← s.storage.restoreFromSnapshot version
  return {s with storage:=storage}

end StateManager

namespace Snapshots
variable {hasher : TreeHasher StateKey StateKey.Value B256} {s t u : StateManager} {version : Nat}

theorem listSnapshots_increasing (s : StateManager) : s.listSnapshots.Pairwise (· < ·) := by
  have sorted := List.pairwise_insertionSort (· ≤ ·) s.storage.db.snapshots.keys
  have once : (s.storage.db.snapshots.keys.insertionSort (· ≤ ·)).Nodup :=
    (List.perm_insertionSort _ _).nodup_iff.mpr s.storage.db.snapshots.keys_nodup
  exact (sorted.and once).imp fun both => Nat.lt_of_le_of_ne both.1 both.2

theorem mem_listSnapshots_commit : version ∈ (s.storage.commit hasher s.version).2.listSnapshots ↔
    version ∈ s.listSnapshots ∨ version = s.version ∧ s.storage.snapshotDue version = true := by
  have committed := commitUnpruned_committed hasher s.storage s.version
  have kept : (s.storage.commit hasher s.version).2.db.snapshots =
      (s.storage.commitUnpruned hasher s.version).db.snapshots := by
    rw [commit_state]
    split <;> rfl
  rw [mem_listSnapshots,kept,committed.snapshots,StateManager.listSnapshots,mem_listSnapshots]
  split
  · rename_i due
    rw [AList.mem_insert]
    constructor
    · rintro (rfl | before)
      · exact .inr ⟨rfl,due⟩
      · exact .inl before
    · rintro (before | ⟨rfl,_⟩)
      · exact .inr before
      · exact .inl rfl
  · rename_i plain
    constructor
    · exact .inl
    · rintro (before | ⟨rfl,due⟩)
      · exact before
      · exact absurd due plain

theorem restores_iff_listed : (∃ t, s.restoreFromSnapshot version = .ok t) ↔ version ∈ s.listSnapshots := by
  rw [StateManager.listSnapshots,mem_listSnapshots,StateManager.restoreFromSnapshot,RocksDbStorage.restoreFromSnapshot]
  split
  · rename_i recorded
    exact iff_of_true ⟨_,rfl⟩ recorded
  · rename_i missing
    exact iff_of_false (by rintro ⟨_,⟨⟩⟩) missing

inductive SnapshotCall where
  | beginBlock (height : Nat)
  | set (key : StateKey) (value : key.Value)
  | delete (key : StateKey)
  | setPosition (address : Address) (marketId : Nat) (position : Position)
  | deletePosition (address : Address) (marketId : Nat)
  | commit
  | createSnapshot

def apply (hasher : TreeHasher StateKey StateKey.Value B256) (s : StateManager) : SnapshotCall → StateManager
  | .beginBlock height => s.beginBlock height
  | .set key value => s.set key value
  | .delete key => s.delete key
  | .setPosition address marketId position => s.setPosition address marketId position
  | .deletePosition address marketId => s.deletePosition address marketId
  | .commit => (s.commit hasher).2
  | .createSnapshot => s.createSnapshot hasher

def run (hasher : TreeHasher StateKey StateKey.Value B256) (s : StateManager) (calls : List SnapshotCall) : StateManager :=
  calls.foldl (apply hasher) s

-- The versions at which a call commits, and those at which it asks for a snapshot; the request
-- returns `Ok` where the commit does.
def commitsAt (s : StateManager) : SnapshotCall → List Nat
  | .commit | .createSnapshot => [s.version]
  | _ => []

def requestsAt (s : StateManager) : SnapshotCall → List Nat
  | .createSnapshot => [s.version]
  | _ => []

def committed (hasher : TreeHasher StateKey StateKey.Value B256) : StateManager → List SnapshotCall → List Nat
  | _,[] => []
  | s,call :: later => commitsAt s call ++ committed hasher (apply hasher s call) later

def requested (hasher : TreeHasher StateKey StateKey.Value B256) : StateManager → List SnapshotCall → List Nat
  | _,[] => []
  | s,call :: later => requestsAt s call ++ requested hasher (apply hasher s call) later

structure Quiet (s t : StateManager) : Prop where
  db : t.storage.db = s.storage.db
  config : t.storage.pruningConfig = s.storage.pruningConfig

theorem Quiet.trans (first : Quiet s t) (second : Quiet t u) : Quiet s u :=
  ⟨second.db.trans first.db,second.config.trans first.config⟩

theorem quiet_updatePositionIndex (s : StateManager) (marketId : Nat) : Quiet s (s.updatePositionIndex marketId) := by
  unfold StateManager.updatePositionIndex
  split <;> exact ⟨rfl,rfl⟩

theorem quiet_removeFromPositionIndex (s : StateManager) (marketId : Nat) (address : Address) :
    Quiet s (s.removeFromPositionIndex marketId address) := by
  unfold StateManager.removeFromPositionIndex
  split <;> exact ⟨rfl,rfl⟩

theorem Quiet.mem_listSnapshots (quiet : Quiet s t) : version ∈ t.listSnapshots ↔ version ∈ s.listSnapshots := by
  rw [StateManager.listSnapshots,Storage.mem_listSnapshots,StateManager.listSnapshots,Storage.mem_listSnapshots,quiet.db]

theorem apply_lists (hasher : TreeHasher StateKey StateKey.Value B256) (version : Nat) (s : StateManager)
    (call : SnapshotCall) :
    (apply hasher s call).storage.pruningConfig = s.storage.pruningConfig ∧
      (version ∈ (apply hasher s call).listSnapshots ↔
        version ∈ s.listSnapshots ∨ version ∈ commitsAt s call ∧ s.storage.snapshotDue version = true) := by
  have silent : ∀ t, Quiet s t → t.storage.pruningConfig = s.storage.pruningConfig ∧
      (version ∈ t.listSnapshots ↔ version ∈ s.listSnapshots ∨ version ∈ [] ∧ s.storage.snapshotDue version = true) := by
    intro t quiet
    refine ⟨quiet.config,quiet.mem_listSnapshots.trans ?_⟩
    simp
  cases call with
  | beginBlock height => exact silent _ ⟨rfl,rfl⟩
  | set key value => exact silent _ ⟨rfl,rfl⟩
  | delete key => exact silent _ ⟨rfl,rfl⟩
  | setPosition address marketId position =>
    have inserted : Quiet s ((s.set (.position address marketId) position).insertIntoPositionIndex marketId address) := ⟨rfl,rfl⟩
    exact silent _ (inserted.trans (quiet_updatePositionIndex _ _))
  | deletePosition address marketId =>
    have deleted : Quiet s (s.delete (.position address marketId)) := ⟨rfl,rfl⟩
    exact silent _ ((deleted.trans (quiet_removeFromPositionIndex _ _ _)).trans (quiet_updatePositionIndex _ _))
  | commit | createSnapshot =>
    refine ⟨commit_config hasher s.storage s.version,mem_listSnapshots_commit.trans ?_⟩
    rw [commitsAt,List.mem_singleton]

theorem run_lists (calls : List SnapshotCall) (s : StateManager) : version ∈ (run hasher s calls).listSnapshots ↔
    version ∈ s.listSnapshots ∨ version ∈ committed hasher s calls ∧ s.storage.snapshotDue version = true := by
  induction calls generalizing s with
  | nil => simp [run,committed]
  | cons call later ih =>
    obtain ⟨config,first⟩ := apply_lists hasher version s call
    have due : (apply hasher s call).storage.snapshotDue version = s.storage.snapshotDue version := by
      rw [RocksDbStorage.snapshotDue,config,RocksDbStorage.snapshotDue]
    rw [run,List.foldl_cons]
    rw [show later.foldl (apply hasher) (apply hasher s call) = run hasher (apply hasher s call) later from rfl,ih,first,due,
      committed,List.mem_append,or_and_right,or_assoc]

theorem requested_committed (calls : List SnapshotCall) (s : StateManager) : requested hasher s calls ⊆ committed hasher s calls := by
  induction calls generalizing s with
  | nil => exact List.Subset.refl _
  | cons call later ih =>
    rw [requested,committed]
    refine List.append_subset.mpr ⟨?_,List.subset_append_of_subset_right _ (ih _)⟩
    cases call <;> simp [requestsAt,commitsAt]

-- The list is in order all along. A requested version is in it, and can be restored, when it was
-- before the run, or else exactly when pruning is on and the version is a multiple of the interval.
theorem requested_exist_iff (hasher : TreeHasher StateKey StateKey.Value B256) (s : StateManager) (calls : List SnapshotCall) :
    ((run hasher s calls).listSnapshots.Pairwise (· < ·) ∧
      ∀ version ∈ requested hasher s calls, version ∈ (run hasher s calls).listSnapshots ∧
        ∃ t, (run hasher s calls).restoreFromSnapshot version = .ok t) ↔
    ∀ version ∈ requested hasher s calls, version ∈ s.listSnapshots ∨ s.storage.snapshotDue version = true := by
  have exists_iff : ∀ version ∈ requested hasher s calls, (version ∈ (run hasher s calls).listSnapshots ∧
      ∃ t, (run hasher s calls).restoreFromSnapshot version = .ok t) ↔
        version ∈ s.listSnapshots ∨ s.storage.snapshotDue version = true := by
    intro version asked
    rw [restores_iff_listed,and_self,run_lists]
    exact or_congr_right (and_iff_right (requested_committed calls s asked))
  rw [and_iff_right (listSnapshots_increasing _)]
  exact forall₂_congr exists_iff

def opened : StateManager := .new (.new .empty {}) .keep

def asking : List SnapshotCall := [.beginBlock 5,.set .nextOrderId 1,.createSnapshot]

theorem requested_not_listed :
    requested Overlay.roots opened asking = [5] ∧ (run Overlay.roots opened asking).listSnapshots = [] ∧
      ¬∃ t, (run Overlay.roots opened asking).restoreFromSnapshot 5 = .ok t := by
  have empty : (run Overlay.roots opened asking).listSnapshots = [] := by decide +kernel
  refine ⟨rfl,empty,?_⟩
  rw [restores_iff_listed,empty]
  exact List.not_mem_nil

end Snapshots
end Pranklin
