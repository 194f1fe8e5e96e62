import Pranklin.Overlay

namespace Pranklin.Storage
open VersionLog
variable {K : Type} [DecidableEq K] {V : K → Type} {R : Type}

-- The record that a read at the new version or at a snapshot sees is old enough to go only
-- if its version is a snapshot's.
def RocksDbStorage.KeepsReads (s : RocksDbStorage K V R) (version : Nat) : Prop :=
  ∀ key stamp read, read = version ∧ key ∉ s.pendingUpdates ∨ read ∈ s.listSnapshots →
    NewestAt (s.db.values key) read stamp →
    prunable s.pruningConfig (version - s.pruningConfig.pruneBefore) stamp = false

omit [DecidableEq K] in
theorem mem_listSnapshots {s : RocksDbStorage K V R} : version ∈ s.listSnapshots ↔ version ∈ s.db.snapshots := by
  rw [RocksDbStorage.listSnapshots,List.mem_insertionSort,AList.mem_keys]

section Runs
variable {hasher : TreeHasher K V R} {config : PruningConfig} {s t : RocksDbStorage K V R} {ops : List (Op K V)}
  {read : Nat}

theorem getValueOption_deleteValues {db : Db K V R} {selected : Nat → Bool} {key : K}
    (marked : ∀ latest, db.latest key = some latest → ∀ later, latest < later → db.values key later = none)
    (kept : ∀ stamp, NewestAt (db.values key) read stamp → selected stamp = false) :
    (db.write (.deleteValues selected)).getValueOption read key = db.getValueOption read key := by
  have scan := newest_forget kept
  have latest : (db.write (.deleteValues selected)).latest key = db.latest key := rfl
  unfold Db.getValueOption
  rw [latest]
  cases mark : db.latest key with
  | none => exact scan
  | some stamp =>
    dsimp only
    split
    · rename_i fast
      cases found : db.values key stamp with
      | none => simp [Db.write,found]
      | some value =>
        have newest : NewestAt (db.values key) read stamp :=
          ⟨fast,by rw [found]; rfl,fun later above _ => marked stamp mark later above⟩
        simp [Db.write,kept stamp newest,found]
    · exact scan

-- Records, marks and snapshots carry committed versions, and no record is newer than its
-- key's mark.
structure Stamped (config : PruningConfig) (ops : List (Op K V)) (s : RocksDbStorage K V R) : Prop where
  config : s.pruningConfig = config
  records : ∀ key stamp, s.db.values key stamp ≠ none → stamp ∈ versions ops
  marked : ∀ key latest, s.db.latest key = some latest → ∀ later, latest < later → s.db.values key later = none
  listed : ∀ version ∈ s.listSnapshots, version ∈ versions ops

omit [DecidableEq K] in
theorem Stamped.buffer (stamped : Stamped config ops s) (db : t.db = s.db) (same : t.pruningConfig = s.pruningConfig)
    (silent : versions (ops ++ [op]) = versions ops) : Stamped config (ops ++ [op]) t := by
  obtain ⟨config,records,marked,listed⟩ := stamped
  refine ⟨same.trans config,by rw [db,silent]; exact records,by rw [db]; exact marked,?_⟩
  rw [silent]
  intro version inside
  rw [mem_listSnapshots,db] at inside
  exact listed version (mem_listSnapshots.mpr inside)

theorem Stamped.commitUnpruned (stamped : Stamped config ops s) (committed : Committed hasher s version t)
    (newer : ∀ earlier ∈ versions ops, earlier < version) : Stamped config (ops ++ [.commit version]) t := by
  have appended : versions (ops ++ [.commit version]) = versions ops ++ [version] := versions_append ops _
  have unwritten : ∀ key later, version < later → s.db.values key later = none := by
    intro key later above
    by_contra present
    exact absurd (newer later (stamped.records key later present)) (Nat.not_lt.mpr (Nat.le_of_lt above))
  refine ⟨committed.config.trans stamped.config,fun key stamp present => ?_,fun key latest mark later above => ?_,?_⟩
  · rw [committed.values] at present
    rw [appended]
    split at present
    · rename_i now
      rw [now]
      exact List.mem_append_right _ (List.mem_singleton_self _)
    · exact List.mem_append_left _ (stamped.records key stamp present)
  · rw [committed.latest] at mark
    rw [committed.values]
    split at mark
    · cases mark
      rw [if_neg (Nat.ne_of_gt above)]
      exact unwritten key later above
    · rename_i unbuffered
      rw [AList.lookup_eq_none.mpr unbuffered,stamped.marked key latest mark later above]
      split <;> rfl
  · intro listed inside
    rw [mem_listSnapshots,committed.snapshots] at inside
    rw [appended]
    split at inside
    · rcases (AList.mem_insert _).mp inside with rfl | inside
      · exact List.mem_append_right _ (List.mem_singleton_self _)
      · exact List.mem_append_left _ (stamped.listed listed (mem_listSnapshots.mpr inside))
    · exact List.mem_append_left _ (stamped.listed listed (mem_listSnapshots.mpr inside))

theorem Stamped.prune (stamped : Stamped config ops s) (before : Nat) : Stamped config ops (s.pruneBeforeVersion before) where
  config := stamped.config
  records key stamp present := by
    simp only [RocksDbStorage.pruneBeforeVersion,Db.write] at present
    split at present
    · exact absurd rfl present
    · exact stamped.records key stamp present
  marked key latest mark later above := by
    simp only [RocksDbStorage.pruneBeforeVersion,Db.write]
    rw [stamped.marked key latest mark later above]
    split <;> rfl
  listed := stamped.listed

theorem run_stamped (increasing : (versions ops).Pairwise (· < ·)) :
    Stamped config ops ((RocksDbStorage.new Db.empty config).run hasher ops) := by
  induction ops using List.reverseRecOn with
  | nil =>
    refine ⟨rfl,fun key stamp present => absurd rfl present,fun key latest mark => (by cases mark),fun version inside => ?_⟩
    rw [mem_listSnapshots] at inside
    cases inside
  | append_singleton ops op ih =>
    rw [versions_append] at increasing
    obtain ⟨earlier,_,newer⟩ := List.pairwise_append.mp increasing
    have before := ih earlier
    rw [run_append]
    cases op with
    | set key value => exact before.buffer rfl rfl (by simp [versions])
    | delete key => exact before.buffer rfl rfl (by simp [versions])
    | commit version =>
      have after := before.commitUnpruned (commitUnpruned_committed hasher _ version) fun earlier inside =>
        newer earlier inside version (by simp [versions])
      change Stamped config _ (RocksDbStorage.commit hasher _ version).2
      rw [commit_state]
      split
      · exact after.prune _
      · exact after

theorem KeepsReads.committed (keeps : s.KeepsReads version) (committed : Committed hasher s version t)
    (older : ∀ listed ∈ s.listSnapshots, listed < version) (visible : read = version ∨ read ∈ t.listSnapshots)
    (found : NewestAt (t.db.values key) read stamp) :
    prunable t.pruningConfig (version - t.pruningConfig.pruneBefore) stamp = false := by
  rw [committed.config]
  have now : read = version → prunable s.pruningConfig (version - s.pruningConfig.pruneBefore) stamp = false := by
    rintro rfl
    by_cases buffered : key ∈ s.pendingUpdates
    · obtain ⟨value,present⟩ := Option.isSome_iff_exists.mp (AList.lookup_isSome.mpr buffered)
      have written : t.db.values key read = some value := by rw [committed.values,if_pos rfl,present]; rfl
      have last : stamp = read := by
        by_contra other
        have below : stamp < read := Nat.lt_of_le_of_ne found.1 other
        rw [found.2.2 read below (Nat.le_refl _)] at written
        cases written
      have recent : ¬stamp < read - s.pruningConfig.pruneBefore := by omega
      simp [prunable,recent]
    · refine keeps key stamp read (.inl ⟨rfl,buffered⟩) (newestAt_congr (fun other _ => ?_) found)
      rw [committed.values,AList.lookup_eq_none.mpr buffered]
      split <;> rfl
  rcases visible with same | listed
  · exact now same
  · rw [mem_listSnapshots,committed.snapshots] at listed
    have known : read = version ∨ read ∈ s.listSnapshots := by
      split at listed
      · rcases (AList.mem_insert _).mp listed with same | inside
        · exact .inl same
        · exact .inr (mem_listSnapshots.mpr inside)
      · exact .inr (mem_listSnapshots.mpr listed)
    rcases known with same | inside
    · exact now same
    · refine keeps key stamp read (.inr inside) (newestAt_congr (fun other under => ?_) found)
      have apart : other ≠ version := Nat.ne_of_lt (Nat.lt_of_le_of_lt under (older read inside))
      rw [committed.values,if_neg apart]

-- In a run whose pruning commits all keep the records that are still read, no commit's
-- pruning changes what is read at its version or at a listed snapshot.
theorem pruning_invisible (hasher : TreeHasher K V R) (config : PruningConfig) (increasing : (versions ops).Pairwise (· < ·))
    (keeps : ∀ before version, before ++ [.commit version] <+: ops → prunes config version →
      ((RocksDbStorage.new Db.empty config : RocksDbStorage K V R).run hasher before).KeepsReads version) :
    ∀ before version, before ++ [.commit version] <+: ops →
      let s : RocksDbStorage K V R := (RocksDbStorage.new Db.empty config).run hasher before
      ∀ key read, read = version ∨ read ∈ (s.commit hasher version).2.listSnapshots →
        (s.commit hasher version).2.get key read = (s.commitUnpruned hasher version).get key read := by
  intro before version earlier s key read visible
  have sorted : (versions before ++ [version]).Pairwise (· < ·) := by
    obtain ⟨rest,rfl⟩ := earlier
    rw [versions_append,versions_append] at increasing
    exact (List.pairwise_append.mp increasing).1
  obtain ⟨earlierSorted,_,newer⟩ := List.pairwise_append.mp sorted
  have stamped : Stamped config before s := run_stamped earlierSorted
  have committed := commitUnpruned_committed hasher s version
  have after := stamped.commitUnpruned committed fun older inside => newer older inside version (by simp)
  rw [commit_state] at visible ⊢
  split at visible
  · rename_i due
    rw [if_pos due]
    rw [stamped.config] at due
    have older : ∀ listed ∈ s.listSnapshots, listed < version := fun listed inside =>
      newer listed (stamped.listed listed inside) version (by simp)
    have kept : ∀ stamp, NewestAt ((s.commitUnpruned hasher version).db.values key) read stamp →
        prunable s.pruningConfig (version - s.pruningConfig.pruneBefore) stamp = false := by
      intro stamp found
      have safe := KeepsReads.committed (keeps before version earlier due) committed older visible found
      rwa [committed.config] at safe
    have same := getValueOption_deleteValues (after.marked key) kept
    simp only [RocksDbStorage.get,RocksDbStorage.pruneBeforeVersion,committed.config,committed.pending]
    exact same
  · rename_i idle
    rw [if_neg idle]

end Runs

theorem pruning_invisible_superseded :
    let hasher : TreeHasher Unit (fun _ => Nat) Nat := ⟨0,fun _ => 1⟩
    let s : RocksDbStorage Unit (fun _ => Nat) Nat :=
      (RocksDbStorage.new .empty ⟨2,2,true⟩).run hasher [.set () 7,.commit 1,.set () 8,.commit 2]
    s.db.values () 1 = some 7 ∧ (s.commit hasher 4).2.db.values () 1 = none ∧
      (s.commit hasher 4).2.get () 4 = (s.commitUnpruned hasher 4).get () 4 := by
  intro hasher s
  let ops : List (Op Unit fun _ => Nat) := [.set () 7,.commit 1,.set () 8,.commit 2,.commit 4]
  have increasing : (versions ops).Pairwise (· < ·) := by decide
  have last : s.KeepsReads 4 := by
    have config : s.pruningConfig = ⟨2,2,true⟩ := (run_stamped (by decide)).config
    rintro ⟨⟩ stamp read visible ⟨_,_,gap⟩
    by_contra goes
    have old : stamp = 1 := by
      simp [prunable,Words.isMultipleOf,config] at goes
      omega
    have recent : 2 ≤ read := by
      rcases visible with ⟨rfl,_⟩ | listed
      · decide
      · have listed : read ∈ [2] := by
          have snapshots : s.listSnapshots = [2] := by decide +kernel
          rwa [snapshots] at listed
        rw [List.mem_singleton.mp listed]
    have kept : s.db.values () 2 = some 8 := by decide +kernel
    rw [gap 2 (by omega) recent] at kept
    cases kept
  have keeps : ∀ before version, before ++ [.commit version] <+: ops → prunes ⟨2,2,true⟩ version →
      ((RocksDbStorage.new .empty ⟨2,2,true⟩).run hasher before).KeepsReads version := by
    intro before version earlier due
    have shape := (List.mem_inits _ _).mpr earlier
    simp only [ops,List.inits,List.map_cons,List.map_nil,List.mem_cons,List.append_eq_nil_iff,List.cons_ne_nil,and_false,
      false_or,List.not_mem_nil,or_false] at shape
    rcases shape with shape | shape | shape | shape | shape
    all_goals
      have final := congrArg List.getLast? shape
      have front := congrArg List.dropLast shape
      simp at final front
    · subst final; cases due
    · subst final; cases due
    · subst final front; exact last
  have invisible := pruning_invisible hasher ⟨2,2,true⟩ increasing keeps [.set () 7,.commit 1,.set () 8,.commit 2] 4
    (List.prefix_refl _) () 4 (.inl rfl)
  exact ⟨by decide +kernel,by decide +kernel,invisible⟩

-- A balance that nobody touches for two blocks is pruned away and reads as never set.
theorem pruned_balance_is_lost :
    let balance : StateKey := .balance ⟨1⟩ 0
    let ops : List (Op StateKey StateKey.Value) := [.set balance (7 : Nat),.commit 1,.commit 2]
    let s : StateStorage := (RocksDbStorage.new .empty ⟨10,1,true⟩).run Overlay.roots ops
    (s.commitUnpruned Overlay.roots 3).get balance 3 = some (7 : Nat) ∧
      (s.commit Overlay.roots 3).2.get balance 3 = none := by
  refine ⟨?_,?_⟩ <;> decide +kernel

end Pranklin.Storage
