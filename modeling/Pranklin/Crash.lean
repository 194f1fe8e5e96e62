import Pranklin.History

namespace Pranklin.Storage
open VersionLog
variable {K : Type} [DecidableEq K] {V : K → Type} {R : Type}

-- The writes of `commit`, in the order in which they reach the database. The node batch is
-- one write; records and marks are put one by one, in the order of the buffer.
def RocksDbStorage.commitWrites (hasher : TreeHasher K V R) (s : RocksDbStorage K V R) (version : Nat) :
    List (DbWrite K V R) :=
  (if s.pendingUpdates.entries.isEmpty then [] else pendingWrites s.db s.pendingUpdates version) ++
    .currentVersion version ::
      ((if s.snapshotDue version then
        [.snapshot version ((s.writePending version).db.calculateStateRoot hasher version)] else []) ++
      if prunes s.pruningConfig version then
        [.deleteValues (prunable s.pruningConfig (version - s.pruningConfig.pruneBefore))] else [])

section Commit
variable (hasher : TreeHasher K V R) (s : RocksDbStorage K V R) (version : Nat)

theorem writePending_writes : (s.writePending version).db =
    s.db.writeAll (if s.pendingUpdates.entries.isEmpty then [] else pendingWrites s.db s.pendingUpdates version) := by
  unfold RocksDbStorage.writePending
  split <;> rfl

theorem commitUnpruned_writes : (s.commitUnpruned hasher version).db =
    ((s.writePending version).db.write (.currentVersion version)).writeAll (if s.snapshotDue version then
      [.snapshot version ((s.writePending version).db.calculateStateRoot hasher version)] else []) := by
  unfold RocksDbStorage.commitUnpruned
  dsimp only
  rw [snapshotDue_recorded]
  split
  · simp [RocksDbStorage.createSnapshot,RocksDbStorage.getRoot,RocksDbStorage.recordVersion,Db.writeAll]
  · rfl

theorem commit_writes : (s.commit hasher version).2.db = s.db.writeAll (s.commitWrites hasher version) := by
  have config := (commitUnpruned_committed hasher s version).config
  rw [commit_state,RocksDbStorage.commitWrites,writeAll_append,← writePending_writes]
  change _ = ((s.writePending version).db.write (.currentVersion version)).writeAll _
  rw [writeAll_append,← commitUnpruned_writes]
  split
  · rw [RocksDbStorage.pruneBeforeVersion,config]
    rfl
  · rfl

end Commit

structure Ahead (version : Nat) (db after : Db K V R) : Prop where
  currentVersion : after.currentVersion = db.currentVersion
  values : ∀ key stamp, stamp ≠ version → after.values key stamp = db.values key stamp
  latest : ∀ key, after.latest key = db.latest key ∨ after.latest key = some version

section Crash
variable {db after : Db K V R} {version read : Nat}

theorem Ahead.write (ahead : Ahead version db after) {pending : AList V} {write : DbWrite K V R}
    (inside : write ∈ pendingWrites db pending version) : Ahead version db (after.write write) := by
  obtain ⟨currentVersion,values,latest⟩ := ahead
  rcases List.mem_cons.mp inside with rfl | inside
  · exact ⟨currentVersion,values,latest⟩
  rcases List.mem_append.mp inside with record | mark
  · obtain ⟨entry,_,rfl⟩ := List.mem_map.mp record
    refine ⟨currentVersion,fun key stamp other => ?_,latest⟩
    rw [← values key stamp other]
    by_cases same : key = entry.1
    · subst same; simp [Db.write,other]
    · simp [Db.write,same]
  · obtain ⟨marked,_,rfl⟩ := List.mem_map.mp mark
    refine ⟨currentVersion,values,fun key => ?_⟩
    by_cases same : key = marked
    · subst same; exact .inr (by simp [Db.write])
    · simpa [Db.write,same] using latest key

theorem Ahead.writeAll (ahead : Ahead version db after) {pending : AList V} {writes : List (DbWrite K V R)}
    (inside : ∀ write ∈ writes, write ∈ pendingWrites db pending version) : Ahead version db (after.writeAll writes) := by
  induction writes generalizing after with
  | nil => exact ahead
  | cons write writes ih =>
    exact ih (ahead.write (inside write List.mem_cons_self)) fun other later => inside other (List.mem_cons_of_mem _ later)

omit [DecidableEq K] in
-- A read below the new version does not see it: a mark that has moved on sends it to the scan.
theorem Ahead.getValueOption (ahead : Ahead version db after) (older : read < version) {key : K}
    (scan : db.getValueOption read key = newest (db.values key) read) :
    after.getValueOption read key = db.getValueOption read key := by
  have same : newest (after.values key) read = newest (db.values key) read :=
    newest_congr fun stamp below => ahead.values key stamp (by omega)
  rcases ahead.latest key with kept | moved
  · unfold Db.getValueOption
    rw [kept,same]
    cases db.latest key with
    | none => rfl
    | some latest =>
      dsimp only
      split
      · exact ahead.values key latest (by omega)
      · rfl
  · rw [scan,Db.getValueOption,moved]
    simp [Nat.not_le.mpr older,same]

end Crash

section Runs
variable {hasher : TreeHasher K V R} {config : PruningConfig} {s t : RocksDbStorage K V R} {ops : List (Op K V)}

theorem Committed.getValueOption (committed : Committed hasher s v t)
    (marked : ∀ key latest, s.db.latest key = some latest → latest ≤ u)
    (bare : ∀ key, s.db.latest key = none → ∀ stamp, s.db.values key stamp = none) (newer : u < v) (key : K) :
    t.db.getValueOption v key = (s.pendingUpdates.lookup key).or (s.db.getValueOption u key) := by
  unfold Db.getValueOption
  rw [committed.latest]
  by_cases inside : key ∈ s.pendingUpdates
  · obtain ⟨value,found⟩ := Option.isSome_iff_exists.mp (AList.lookup_isSome.mpr inside)
    simp [inside,committed.values,found]
  · have absent := AList.lookup_eq_none.mpr inside
    have kept : ∀ stamp, t.db.values key stamp = s.db.values key stamp := fun stamp => by
      rw [committed.values,absent]
      split <;> rfl
    rw [if_neg inside,absent,Option.none_or]
    cases mark : s.db.latest key with
    | some latest =>
      have below := marked key latest mark
      simp [below,Nat.le_trans below (Nat.le_of_lt newer),kept]
    | none =>
      dsimp only
      rw [newest_of_absent fun stamp _ => (kept stamp).trans (bare key mark stamp),
        newest_of_absent fun stamp _ => bare key mark stamp]

theorem le_of_getLast? {sorted : List Nat} (increasing : sorted.Pairwise (· < ·)) (last : sorted.getLast? = some u) :
    ∀ version ∈ sorted, version ≤ u := by
  obtain ⟨front,rfl⟩ := List.getLast?_eq_some_iff.mp last
  intro version inside
  rcases List.mem_append.mp inside with earlier | same
  · exact Nat.le_of_lt ((List.pairwise_append.mp increasing).2.2 version earlier u (List.mem_singleton_self u))
  · exact Nat.le_of_eq (List.mem_singleton.mp same)

theorem run_currentVersion (last : (versions ops).getLast? = some u) :
    ((RocksDbStorage.new Db.empty config : RocksDbStorage K V R).run hasher ops).db.currentVersion = some u := by
  induction ops using List.reverseRecOn with
  | nil => cases last
  | append_singleton ops op ih =>
    rw [run_append]
    cases op with
    | set key value => exact ih (by simpa [versions] using last)
    | delete key => exact ih (by simpa [versions] using last)
    | commit version =>
      obtain rfl : version = u := by simpa [versions] using last
      exact commit_marker hasher _ version

-- A commit is cut short anywhere and the store reopened: it stands at the old version and
-- reads as before, or at the new one and reads as committed. The buffer is any buffer, in any
-- order of its entries.
theorem commit_crash_atomic (hasher : TreeHasher K V R) (config : PruningConfig) (disabled : config.enabled = false)
    (increasing : (versions ops).Pairwise (· < ·)) (last : (versions ops).getLast? = some u) (newer : u < v)
    (pending : AList V) :
    let s : RocksDbStorage K V R := {(RocksDbStorage.new Db.empty config).run hasher ops with pendingUpdates:=pending}
    ∀ front, front <+: s.commitWrites hasher v →
      let reopened := RocksDbStorage.new (s.db.writeAll front) config
      (reopened.currentVersion = u ∧ ∀ key, reopened.get key u = s.db.getValueOption u key) ∨
        reopened.currentVersion = v ∧
          ∀ key, reopened.get key v = (pending.lookup key).or (s.db.getValueOption u key) := by
  intro s front cut reopened
  have unpruned : ∀ version ∈ versions ops, prunes config version = false := fun _ _ => by rw [prunes,disabled]; rfl
  have marker : s.db.currentVersion = some u := run_currentVersion last
  have stamped : Stamped config ops ((RocksDbStorage.new Db.empty config).run hasher ops) := run_stamped increasing
  have configured : s.pruningConfig = config := stamped.config
  have plain : s.snapshotDue v = false ∧ prunes s.pruningConfig v = false := by
    rw [RocksDbStorage.snapshotDue,prunes,configured,disabled]
    exact ⟨rfl,rfl⟩
  have writes : s.commitWrites hasher v =
      (if pending.entries.isEmpty then [] else pendingWrites s.db pending v) ++ [.currentVersion v] := by
    rw [RocksDbStorage.commitWrites,plain.1,plain.2]
    rfl
  rw [writes] at cut
  rcases List.prefix_concat_iff.mp cut with whole | early
  · right
    have done : s.db.writeAll front = (s.commit hasher v).2.db := by rw [commit_writes,writes,whole]
    have committed := commitUnpruned_committed hasher s v
    rw [commit_state,plain.2] at done
    refine ⟨?_,fun key => ?_⟩
    · change ((s.db.writeAll front).currentVersion).getD 0 = v
      rw [done]
      exact congrArg (Option.getD · 0) committed.currentVersion
    · change (s.db.writeAll front).getValueOption v key = _
      rw [done]
      have recorded : Recorded config ops ((RocksDbStorage.new Db.empty config).run hasher ops) := run_recorded unpruned
      exact committed.getValueOption (fun key latest mark =>
        le_of_getLast? increasing last latest (recorded.marked key latest mark)) recorded.bare newer key
  · left
    have members : ∀ write ∈ front, write ∈ pendingWrites s.db pending v := by
      intro write inside
      have member := early.subset inside
      split at member
      · cases member
      · exact member
    have still : Ahead v s.db s.db := ⟨rfl,fun _ _ _ => rfl,fun _ => .inl rfl⟩
    have ahead : Ahead v s.db (s.db.writeAll front) := still.writeAll members
    refine ⟨?_,fun key => ahead.getValueOption newer (run_newest increasing unpruned key u)⟩
    change ((s.db.writeAll front).currentVersion).getD 0 = u
    rw [ahead.currentVersion,marker]
    rfl

end Runs

theorem commit_crash_atomic_between_marks :
    let hasher : TreeHasher Bool (fun _ => Nat) Nat := ⟨0,fun _ => 1⟩
    let config : PruningConfig := {enabled:=false}
    let pending : AList fun _ : Bool => Nat := (AList.singleton true 8).insert false 9
    let s : RocksDbStorage Bool (fun _ => Nat) Nat :=
      {(RocksDbStorage.new Db.empty config).run hasher [.set true 7,.commit 1] with pendingUpdates:=pending}
    let reopened := RocksDbStorage.new (s.db.writeAll ((s.commitWrites hasher 3).take 4)) config
    reopened.db.latest false = some 3 ∧ reopened.db.latest true = some 1 ∧
      ((reopened.currentVersion = 1 ∧ ∀ key, reopened.get key 1 = s.db.getValueOption 1 key) ∨
        reopened.currentVersion = 3 ∧ ∀ key, reopened.get key 3 = (pending.lookup key).or (s.db.getValueOption 1 key)) := by
  intro hasher config pending s reopened
  refine ⟨by decide +kernel,by decide +kernel,?_⟩
  exact commit_crash_atomic hasher config rfl (by decide) rfl (by decide) pending _ (List.take_prefix _ _)

end Pranklin.Storage
