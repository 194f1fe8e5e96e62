import Pranklin.Crash

namespace Pranklin.Storage
open VersionLog
variable {K : Type} [DecidableEq K] {V : K → Type} {R : Type}

-- The version marker is moved back, in memory and in the database; records and marks of
-- later versions stay where they are.
def RocksDbStorage.restoreFromSnapshot (s : RocksDbStorage K V R) (snapshotVersion : Nat) :
    Except StateError (RocksDbStorage K V R) :=
  if snapshotVersion ∈ s.db.snapshots then
    .ok {s with currentVersion:=snapshotVersion,db:=s.db.write (.currentVersion snapshotVersion)}
  else .error (.storageError ("Snapshot not found at version " ++ toString snapshotVersion))

-- What the store has become of `t` since: a key that was set reads as last set, and no other
-- key has a new record, mark or buffered value.
structure Since (later : List (Op K V)) (t u : RocksDbStorage K V R) : Prop where
  config : u.pruningConfig = t.pruningConfig
  fresh : ∀ key value, intended later key = some value → u.pendingUpdates.lookup key = some value ∨
    u.pendingUpdates.lookup key = none ∧
      ∃ stamp ∈ versions later, u.db.latest key = some stamp ∧ u.db.values key stamp = some value
  kept : ∀ key, intended later key = none → u.pendingUpdates.lookup key = none ∧
    u.db.latest key = t.db.latest key ∧ u.db.values key = t.db.values key

section Runs
variable {hasher : TreeHasher K V R} {s t u w : RocksDbStorage K V R} {ops later : List (Op K V)}

theorem Since.set (since : Since later t u) (key : K) (value : V key) :
    Since (later ++ [.set key value]) t (u.set key value) := by
  have silent : versions (later ++ [.set key value]) = versions later := by simp [versions]
  refine ⟨since.config,fun read wanted intends => ?_,fun read unset => ?_⟩
  · rw [intended_append] at intends
    by_cases same : read = key
    · subst same
      obtain rfl : value = wanted := by simpa [Contents.apply] using intends
      exact .inl (by simp [RocksDbStorage.set])
    · rw [silent]
      simpa [RocksDbStorage.set,AList.lookup_insert_ne same] using
        since.fresh read wanted (by simpa [Contents.apply,same] using intends)
  · rw [intended_append] at unset
    by_cases same : read = key
    · subst same; simp [Contents.apply] at unset
    · simpa [RocksDbStorage.set,AList.lookup_insert_ne same] using
        since.kept read (by simpa [Contents.apply,same] using unset)

theorem Since.commit (since : Since later t u) (committed : Committed hasher u version w) :
    Since (later ++ [.commit version]) t w := by
  have pending : ∀ key, w.pendingUpdates.lookup key = none := fun key => by rw [committed.pending]; rfl
  have appended : versions (later ++ [.commit version]) = versions later ++ [version] := versions_append later _
  refine ⟨committed.config.trans since.config,fun key value intends => .inr ⟨pending key,?_⟩,fun key unset => ?_⟩
  · rw [intended_append] at intends
    rw [appended]
    rcases since.fresh key value intends with buffered | ⟨absent,stamp,inside,mark,record⟩
    · have member : key ∈ u.pendingUpdates := AList.lookup_isSome.mp (by rw [buffered]; rfl)
      exact ⟨version,by simp,by simp [committed.latest,member],by simp [committed.values,buffered]⟩
    · refine ⟨stamp,List.mem_append_left _ inside,?_,?_⟩
      · rw [committed.latest,if_neg (AList.lookup_eq_none.mp absent),mark]
      · rw [committed.values,absent,record]
        split <;> rfl
  · rw [intended_append] at unset
    obtain ⟨absent,mark,records⟩ := since.kept key unset
    refine ⟨pending key,?_,?_⟩
    · rw [committed.latest,if_neg (AList.lookup_eq_none.mp absent),mark]
    · funext stamp
      rw [committed.values,absent,records]
      split <;> rfl

theorem run_since (clear : t.pendingUpdates = ∅) (undeleted : ∀ key, .delete key ∉ later)
    (unpruned : ∀ version ∈ versions later, prunes t.pruningConfig version = false) :
    Since later t (t.run hasher later) := by
  induction later using List.reverseRecOn with
  | nil =>
    refine ⟨rfl,fun key value intends => (by cases intends),fun key _ => ⟨?_,rfl,rfl⟩⟩
    change t.pendingUpdates.lookup key = none
    rw [clear]
    rfl
  | append_singleton later op ih =>
    rw [versions_append] at unpruned
    have since := ih (fun key inside => undeleted key (List.mem_append_left _ inside)) fun version inside =>
      unpruned version (List.mem_append_left _ inside)
    rw [run_append]
    cases op with
    | set key value => exact since.set key value
    | delete key => exact absurd (List.mem_append_right _ (List.mem_singleton_self _)) (undeleted key)
    | commit version =>
      have plain := unpruned version (List.mem_append_right _ (by simp [versions]))
      rw [← since.config] at plain
      change Since _ t (RocksDbStorage.commit hasher _ version).2
      rw [commit_state,plain]
      exact since.commit (commitUnpruned_committed hasher _ version)

theorem Since.get (since : Since later t u) (current : ∀ version ∈ versions later, version ≤ n) (key : K) :
    u.get key n = (intended later key).or (t.db.getValueOption n key) := by
  rw [RocksDbStorage.get]
  cases intends : intended later key with
  | some value =>
    rcases since.fresh key value intends with buffered | ⟨absent,stamp,inside,mark,record⟩
    · rw [buffered]; rfl
    · rw [absent,Db.getValueOption,mark]
      simp [current stamp inside,record]
  | none =>
    obtain ⟨absent,mark,records⟩ := since.kept key intends
    rw [absent,Db.getValueOption,mark,records]
    rfl

theorem commit_currentVersion (hasher : TreeHasher K V R) (s : RocksDbStorage K V R) (version : Nat) :
    (s.commit hasher version).2.currentVersion = version := by
  have recorded : (s.commitUnpruned hasher version).currentVersion = version := by
    unfold RocksDbStorage.commitUnpruned
    dsimp only
    split <;> rfl
  rw [commit_state]
  split <;> exact recorded

theorem run_reaches (hasher : TreeHasher K V R) (t : RocksDbStorage K V R) (later : List (Op K V)) :
    (t.run hasher later).currentVersion = (versions later).getLast?.getD t.currentVersion := by
  induction later using List.reverseRecOn with
  | nil => rfl
  | append_singleton later op ih =>
    rw [run_append,versions_append]
    cases op with
    | set key value | delete key =>
      rw [show versions [_] = [] from rfl,List.append_nil]
      exact ih
    | commit version =>
      change (RocksDbStorage.commit hasher _ version).2.currentVersion = _
      rw [commit_currentVersion]
      simp [versions]

theorem run_onward (onward : versions later = List.range' (snapshot + 1) count) (start : t.currentVersion = snapshot) :
    (RocksDbStorage.run hasher t later).currentVersion = snapshot + count := by
  rw [run_reaches,onward]
  cases count with
  | zero => exact start
  | succ count =>
    rw [List.range'_concat]
    simp
    omega

theorem restoreFromSnapshot_eq {s : RocksDbStorage K V R} (restored : s.restoreFromSnapshot snapshot = .ok t) :
    t = {s with currentVersion:=snapshot,db:=s.db.write (.currentVersion snapshot)} := by
  unfold RocksDbStorage.restoreFromSnapshot at restored
  split at restored
  · cases restored
    rfl
  · cases restored

-- Of the abandoned versions that the current one has caught up with, the last to write the
-- key gave it a value that it does not have at the snapshot.
def Resurfaces (ops : List (Op K V)) (key : K) (snapshot current : Nat) : Prop :=
  ∃ stamp value, snapshot < stamp ∧ stamp ≤ current ∧ Wrote ops key stamp value ∧
    (∀ later, stamp < later → later ≤ current → ∀ other, ¬Wrote ops key later other) ∧ ¬LastWrote ops key snapshot value

theorem newest_agrees_iff (logged : Logged ops s) (key : K) (ahead : snapshot ≤ current) :
    newest (s.db.values key) current = newest (s.db.values key) snapshot ↔ ¬Resurfaces ops key snapshot current := by
  constructor
  · rintro same ⟨stamp,value,_,reached,wrote,gap,other⟩
    have found := (newest_lastWrote logged key current value).mpr ⟨stamp,reached,wrote,gap⟩
    rw [same] at found
    exact other ((newest_lastWrote logged key snapshot value).mp found)
  · intro quiet
    cases found : newest (s.db.values key) current with
    | none =>
      rcases newestAt_or_absent (s.db.values key) current with ⟨stamp,newestAt⟩ | absent
      · have present := newestAt.2.1
        rw [← newest_of_newestAt newestAt,found] at present
        cases present
      · exact (newest_of_absent fun stamp below => absent stamp (Nat.le_trans below ahead)).symm
    | some value =>
      obtain ⟨stamp,reached,wrote,gap⟩ := (newest_lastWrote logged key current value).mp found
      refine ((newest_lastWrote logged key snapshot value).mpr ?_).symm
      by_cases abandoned : snapshot < stamp
      · by_contra other
        exact quiet ⟨stamp,value,abandoned,reached,wrote,gap,other⟩
      · exact ⟨stamp,Nat.le_of_not_lt abandoned,wrote,fun later above below => gap later above (Nat.le_trans below ahead)⟩

-- After a snapshot is restored and further blocks are committed one version after the other, a
-- key reads as last set since, or else as of the snapshot, exactly when no abandoned write of
-- it has been caught up with.
theorem restored_reads_iff (hasher : TreeHasher K V R) (config : PruningConfig)
    (increasing : (versions ops).Pairwise (· < ·)) (committed : ∃ front last, ops = front ++ [.commit last])
    (unpruned : ∀ version ∈ versions (ops ++ later), prunes config version = false)
    (restored : ((RocksDbStorage.new Db.empty config).run hasher ops).restoreFromSnapshot snapshot = .ok t)
    (undeleted : ∀ key, .delete key ∉ later) (onward : versions later = List.range' (snapshot + 1) count) :
    let stored : RocksDbStorage K V R := (RocksDbStorage.new Db.empty config).run hasher ops
    let current := snapshot + count
    (t.run hasher later).currentVersion = current ∧
      ∀ key, (t.run hasher later).get key current = (intended later key).or (stored.get key snapshot) ↔
        ¬(intended later key = none ∧ Resurfaces ops key snapshot current) := by
  intro stored current
  rw [versions_append] at unpruned
  have early : ∀ version ∈ versions ops, prunes config version = false := fun version inside =>
    unpruned version (List.mem_append_left _ inside)
  have logged : Logged ops stored := run_logged increasing early
  have clear : stored.pendingUpdates = ∅ := by
    obtain ⟨front,last,rfl⟩ := committed
    change ((RocksDbStorage.new Db.empty config).run hasher (front ++ [.commit last])).pendingUpdates = ∅
    rw [run_append]
    exact commit_pending hasher _ last
  obtain rfl := restoreFromSnapshot_eq restored
  have settings : stored.pruningConfig = config := (run_stamped increasing).config
  have since : Since later {stored with currentVersion:=snapshot,db:=stored.db.write (.currentVersion snapshot)}
      (RocksDbStorage.run hasher {stored with currentVersion:=snapshot,db:=stored.db.write (.currentVersion snapshot)} later) :=
    run_since clear undeleted fun version inside => by
      change prunes stored.pruningConfig version = false
      rw [settings]
      exact unpruned version (List.mem_append_right _ inside)
  have bounds : ∀ version ∈ versions later, version ≤ current := by
    intro version inside
    rw [onward,List.mem_range'_1] at inside
    omega
  refine ⟨run_onward onward rfl,fun key => ?_⟩
  have before : stored.get key snapshot = stored.db.getValueOption snapshot key := by
    rw [RocksDbStorage.get,clear]
    rfl
  rw [since.get bounds key,before]
  change (intended later key).or (stored.db.getValueOption current key) = _ ↔ _
  cases intends : intended later key with
  | some value => simp
  | none =>
    rw [Option.none_or,Option.none_or,run_newest increasing early key current,run_newest increasing early key snapshot,
      newest_agrees_iff logged key (Nat.le_add_right snapshot count)]
    simp [current]

end Runs

end Pranklin.Storage

namespace Pranklin.Restore
open Storage

def flat : TreeHasher Bool (fun _ => Nat) Nat := ⟨0,fun _ => 1⟩

def branch : List (Op Bool fun _ => Nat) := [.set true 7,.commit 2,.set false 8,.commit 3,.set true 9,.commit 4]

def stored : RocksDbStorage Bool (fun _ => Nat) Nat :=
  (RocksDbStorage.new Db.empty {snapshotInterval:=2}).run flat branch

def rewound : RocksDbStorage Bool (fun _ => Nat) Nat :=
  {stored with currentVersion:=2,db:=stored.db.write (.currentVersion 2)}

theorem stored_restores : stored.restoreFromSnapshot 2 = .ok rewound := by
  have listed : (2 : Nat) ∈ stored.db.snapshots := by decide +kernel
  rw [RocksDbStorage.restoreFromSnapshot,if_pos listed]
  rfl

theorem restored_reads_iff_before_stale :
    (rewound.run flat [.commit 3]).get true 3 = stored.get true 2 ∧ ¬Resurfaces branch true 2 3 := by
  have read : (rewound.run flat [.commit 3]).get true 3 = stored.get true 2 := by decide +kernel
  have increasing : (versions branch).Pairwise (· < ·) := by decide
  have committed : ∃ front last, branch = front ++ [.commit last] :=
    ⟨[.set true 7,.commit 2,.set false 8,.commit 3,.set true 9],4,rfl⟩
  have unpruned : ∀ version ∈ versions (branch ++ [.commit 3]), prunes {snapshotInterval:=2} version = false := by decide
  have undeleted : ∀ key, .delete key ∉ ([.commit 3] : List (Op Bool fun _ => Nat)) := by simp
  have onward : versions ([.commit 3] : List (Op Bool fun _ => Nat)) = List.range' (2 + 1) 1 := rfl
  have exactly := (restored_reads_iff flat {snapshotInterval:=2} increasing committed unpruned stored_restores undeleted
    onward).2 true
  exact ⟨read,fun stale => exactly.mp read ⟨rfl,stale⟩⟩

-- The abandoned value of version 3 is back as soon as a block without writes reaches it.
theorem abandoned_write_returns :
    stored.restoreFromSnapshot 2 = .ok rewound ∧ rewound.get false 2 = none ∧
      (rewound.run flat [.commit 3]).currentVersion = 3 ∧ (rewound.run flat [.commit 3]).get false 3 = some 8 :=
  ⟨stored_restores,by decide +kernel,by decide +kernel,by decide +kernel⟩

end Pranklin.Restore
