import Pranklin.Storage

namespace Pranklin.Storage
open Words
variable {K : Type} [DecidableEq K] {V : K → Type} {R : Type}

section Writes
variable {db : Db K V R} {version : Nat}

theorem writeAll_append (db : Db K V R) (front back : List (DbWrite K V R)) :
    db.writeAll (front ++ back) = (db.writeAll front).writeAll back := List.foldl_append

theorem writeAll_frame {α : Type} (view : Db K V R → α) {writes : List (DbWrite K V R)}
    (kept : ∀ write ∈ writes, ∀ db : Db K V R, view (db.write write) = view db) : view (db.writeAll writes) = view db := by
  induction writes generalizing db with
  | nil => rfl
  | cons write writes ih =>
    exact (ih fun other inside => kept other (List.mem_cons_of_mem _ inside)).trans (kept write List.mem_cons_self db)

theorem writeAll_entries_frame {α : Type} (view : Db K V R → α) (entries : List (Sigma V))
    (kept : ∀ (db : Db K V R) key value, view (db.write (.value key version value)) = view db) :
    view (db.writeAll (entries.map fun entry => .value entry.1 version entry.2)) = view db := by
  refine writeAll_frame view fun write inside db => ?_
  obtain ⟨entry,_,rfl⟩ := List.mem_map.mp inside
  exact kept db entry.1 entry.2

theorem writeAll_keys_frame {α : Type} (view : Db K V R → α) (keys : List K)
    (kept : ∀ (db : Db K V R) key, view (db.write (.latest key version)) = view db) :
    view (db.writeAll (keys.map fun key => .latest key version)) = view db := by
  refine writeAll_frame view fun write inside db => ?_
  obtain ⟨key,_,rfl⟩ := List.mem_map.mp inside
  exact kept db key

theorem values_writeAll_entries {entries : List (Sigma V)} (distinct : entries.NodupKeys) (key : K) (stamp : Nat) :
    (db.writeAll (entries.map fun entry => .value entry.1 version entry.2)).values key stamp =
      if stamp = version then (entries.dlookup key).or (db.values key stamp) else db.values key stamp := by
  induction entries generalizing db with
  | nil => simp [Db.writeAll]
  | cons entry entries ih =>
    obtain ⟨fresh,distinct⟩ := List.nodupKeys_cons.mp distinct
    change ((db.write (.value entry.1 version entry.2)).writeAll _).values key stamp = _
    rw [ih distinct]
    by_cases same : key = entry.1
    · subst same
      rw [List.dlookup_eq_none.mpr fresh,List.dlookup_cons_eq]
      by_cases now : stamp = version <;> simp [Db.write,now]
    · rw [List.dlookup_cons_ne _ _ same]
      simp [Db.write,same]

theorem latest_writeAll_keys (keys : List K) (key : K) :
    (db.writeAll (keys.map fun key => .latest key version)).latest key =
      if key ∈ keys then some version else db.latest key := by
  induction keys generalizing db with
  | nil => rfl
  | cons first keys ih =>
    change ((db.write (.latest first version)).writeAll _).latest key = _
    rw [ih]
    by_cases later : key ∈ keys
    · simp [later]
    · by_cases same : key = first <;> simp [Db.write,later,same]

end Writes

-- The database after a commit that has not pruned yet: one record and one mark per buffered
-- key, a tree when anything was buffered, a snapshot when one is due.
structure Committed (hasher : TreeHasher K V R) (s : RocksDbStorage K V R) (version : Nat) (t : RocksDbStorage K V R) :
    Prop where
  values : ∀ key stamp, t.db.values key stamp =
    if stamp = version then (s.pendingUpdates.lookup key).or (s.db.values key stamp) else s.db.values key stamp
  latest : ∀ key, t.db.latest key = if key ∈ s.pendingUpdates then some version else s.db.latest key
  nodes : t.db.nodes = if s.pendingUpdates.entries.isEmpty then s.db.nodes
    else Function.update s.db.nodes version (some (s.db.putValueSet s.pendingUpdates version))
  snapshots : t.db.snapshots = if s.snapshotDue version then
    s.db.snapshots.insert version ((s.writePending version).db.calculateStateRoot hasher version) else s.db.snapshots
  currentVersion : t.db.currentVersion = some version
  pending : t.pendingUpdates = ∅
  config : t.pruningConfig = s.pruningConfig

section Commit
variable (hasher : TreeHasher K V R) (s : RocksDbStorage K V R) (version : Nat)

theorem writePending_db :
    (∀ key stamp, (s.writePending version).db.values key stamp =
      if stamp = version then (s.pendingUpdates.lookup key).or (s.db.values key stamp) else s.db.values key stamp) ∧
    (∀ key, (s.writePending version).db.latest key =
      if key ∈ s.pendingUpdates then some version else s.db.latest key) ∧
    (s.writePending version).db.nodes = (if s.pendingUpdates.entries.isEmpty then s.db.nodes
      else Function.update s.db.nodes version (some (s.db.putValueSet s.pendingUpdates version))) ∧
    (s.writePending version).db.snapshots = s.db.snapshots ∧ (s.writePending version).pendingUpdates = ∅ ∧
    (s.writePending version).pruningConfig = s.pruningConfig := by
  unfold RocksDbStorage.writePending
  split
  · rename_i nothing
    have empty : s.pendingUpdates = ∅ := AList.ext (List.isEmpty_iff.mp nothing)
    simp [empty]
  · let marked := s.db.write (.nodes version (s.db.putValueSet s.pendingUpdates version))
    let recorded := marked.writeAll (s.pendingUpdates.entries.map fun entry => .value entry.1 version entry.2)
    have whole : s.db.writeAll (pendingWrites s.db s.pendingUpdates version) =
        recorded.writeAll (s.pendingUpdates.keys.map fun key => .latest key version) :=
      writeAll_append marked _ _
    dsimp only
    rw [whole]
    refine ⟨fun key stamp => ?_,fun key => ?_,?_,?_,rfl,rfl⟩
    · rw [writeAll_keys_frame Db.values _ fun _ _ => rfl]
      exact values_writeAll_entries s.pendingUpdates.nodupKeys key stamp
    · rw [latest_writeAll_keys,writeAll_entries_frame Db.latest _ fun _ _ _ => rfl]
      exact if_congr (AList.mem_keys).symm rfl rfl
    · rw [writeAll_keys_frame Db.nodes _ fun _ _ => rfl,writeAll_entries_frame Db.nodes _ fun _ _ _ => rfl]
      rfl
    · rw [writeAll_keys_frame Db.snapshots _ fun _ _ => rfl,writeAll_entries_frame Db.snapshots _ fun _ _ _ => rfl]
      rfl

theorem snapshotDue_recorded :
    ((s.writePending version).recordVersion hasher version).snapshotDue version = s.snapshotDue version := by
  simp only [RocksDbStorage.snapshotDue,RocksDbStorage.recordVersion,(writePending_db s version).2.2.2.2.2]

theorem commitUnpruned_committed : Committed hasher s version (s.commitUnpruned hasher version) := by
  obtain ⟨values,latest,nodes,snapshots,pending,config⟩ := writePending_db s version
  unfold RocksDbStorage.commitUnpruned
  dsimp only
  rw [snapshotDue_recorded]
  split
  · rename_i snapshot
    refine ⟨values,latest,nodes,?_,rfl,pending,config⟩
    rw [if_pos snapshot,← snapshots]
    simp [RocksDbStorage.createSnapshot,RocksDbStorage.getRoot,RocksDbStorage.recordVersion,Db.write]
  · rename_i plain
    exact ⟨values,latest,nodes,by rw [if_neg plain]; exact snapshots,rfl,pending,config⟩

theorem commit_state :
    (s.commit hasher version).2 = if prunes s.pruningConfig version then
      (s.commitUnpruned hasher version).pruneBeforeVersion (version - s.pruningConfig.pruneBefore)
    else s.commitUnpruned hasher version := by
  rw [RocksDbStorage.commit,(commitUnpruned_committed hasher s version).config]

theorem commit_values (key : K) (stamp : Nat) :
    (s.commit hasher version).2.db.values key stamp =
      if prunes s.pruningConfig version && prunable s.pruningConfig (version - s.pruningConfig.pruneBefore) stamp then none
      else if stamp = version then (s.pendingUpdates.lookup key).or (s.db.values key stamp) else s.db.values key stamp := by
  have committed := commitUnpruned_committed hasher s version
  rw [commit_state,← committed.values key stamp]
  cases pruning : prunes s.pruningConfig version with
  | false => simp
  | true => simp [RocksDbStorage.pruneBeforeVersion,Db.write,committed.config]

theorem commit_latest (key : K) : (s.commit hasher version).2.db.latest key =
    if (s.pendingUpdates.lookup key).isSome then some version else s.db.latest key := by
  have latest := (commitUnpruned_committed hasher s version).latest key
  have member : key ∈ s.pendingUpdates ↔ (s.pendingUpdates.lookup key).isSome := AList.lookup_isSome.symm
  simp only [member] at latest
  rw [commit_state,← latest]
  split <;> rfl

theorem commit_pending : (s.commit hasher version).2.pendingUpdates = ∅ := by
  have pending := (commitUnpruned_committed hasher s version).pending
  rw [commit_state]
  split <;> exact pending

theorem commit_config : (s.commit hasher version).2.pruningConfig = s.pruningConfig := by
  have config := (commitUnpruned_committed hasher s version).config
  rw [commit_state]
  split <;> exact config

theorem commit_marker : (s.commit hasher version).2.db.currentVersion = some version := by
  have current := (commitUnpruned_committed hasher s version).currentVersion
  rw [commit_state]
  split <;> exact current

theorem commit_root : (s.commit hasher version).1 = (s.writePending version).db.calculateStateRoot hasher version := rfl

end Commit

-- A commit sees of the buffer what the lookups give, and nothing of how it is laid out.
section Alike
variable (hasher : TreeHasher K V R) {s t : RocksDbStorage K V R} (version : Nat) (db : t.db = s.db)
  (same : ∀ key, t.pendingUpdates.lookup key = s.pendingUpdates.lookup key)
include same

theorem mem_pending_congr (key : K) : key ∈ t.pendingUpdates ↔ key ∈ s.pendingUpdates := by
  rw [← AList.lookup_isSome,← AList.lookup_isSome,same]

theorem isEmpty_pending_congr : t.pendingUpdates.entries.isEmpty = s.pendingUpdates.entries.isEmpty := by
  have keys : ∀ buffer : AList V, buffer.entries.isEmpty ↔ ∀ key, key ∉ buffer := by
    intro buffer
    rw [List.isEmpty_iff,← List.map_eq_nil_iff,List.eq_nil_iff_forall_not_mem]
    exact forall_congr' fun key => not_congr AList.mem_keys.symm
  rw [Bool.eq_iff_iff,keys,keys]
  exact forall_congr' fun key => not_congr (mem_pending_congr same key)

include db

theorem writePending_nodes_congr : (t.writePending version).db.nodes = (s.writePending version).db.nodes := by
  have values : t.db.putValueSet t.pendingUpdates version = s.db.putValueSet s.pendingUpdates version := by
    funext key
    rw [Db.putValueSet,Db.putValueSet,same,db]
  rw [(writePending_db t version).2.2.1,(writePending_db s version).2.2.1,isEmpty_pending_congr same,values,db]

theorem commit_root_congr : (t.commit hasher version).1 = (s.commit hasher version).1 := by
  rw [commit_root,commit_root,Db.calculateStateRoot,Db.calculateStateRoot,writePending_nodes_congr version db same]

theorem commit_db_congr (config : t.pruningConfig = s.pruningConfig) :
    (t.commit hasher version).2.db = (s.commit hasher version).2.db := by
  have left := commitUnpruned_committed hasher t version
  have right := commitUnpruned_committed hasher s version
  have unpruned : (t.commitUnpruned hasher version).db = (s.commitUnpruned hasher version).db := by
    refine Db.ext (left.currentVersion.trans right.currentVersion.symm) ?_ ?_ ?_ ?_
    · rw [left.nodes,right.nodes,← (writePending_db t version).2.2.1,← (writePending_db s version).2.2.1,
        writePending_nodes_congr version db same]
    · funext key stamp
      rw [left.values,right.values,same,db]
    · funext key
      rw [left.latest,right.latest,db]
      exact if_congr (mem_pending_congr same key) rfl rfl
    · have root := commit_root_congr hasher version db same
      have due : t.snapshotDue version = s.snapshotDue version := by
        rw [RocksDbStorage.snapshotDue,RocksDbStorage.snapshotDue,config]
      rw [left.snapshots,right.snapshots,due,db,← commit_root,← commit_root,root]
  have pruning : (t.commitUnpruned hasher version).pruningConfig = (s.commitUnpruned hasher version).pruningConfig := by
    rw [left.config,right.config,config]
  rw [commit_state,commit_state,config]
  split
  · simp only [RocksDbStorage.pruneBeforeVersion,unpruned,pruning]
  · exact unpruned

end Alike
end Pranklin.Storage
