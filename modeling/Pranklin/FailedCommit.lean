import Mathlib.Data.List.TakeWhile
import Pranklin.Crash

namespace Pranklin.Storage
open VersionLog
variable {K : Type} [DecidableEq K] {V : K → Type} {R : Type}

-- What fails inside a commit, with the text of its error: the update of the tree, a write,
-- the reading of the root hash.
structure CommitFaults (K : Type) (V : K → Type) (R : Type) where
  putValueSet : Option String := none
  write : DbWrite K V R → Option String := fun _ => none
  rootHash : Option String := none

def DbWrite.context : DbWrite K V R → String
  | .nodes _ _ => "TreeWriter write failed: "
  | .value _ _ _ => "Failed to store value: "
  | .latest _ _ => "Failed to store latest version: "
  | .currentVersion _ => "Failed to persist version: "
  | .snapshot _ _ => "Failed to create snapshot: "
  | .deleteValues _ => ""

def Db.putAll (faults : CommitFaults K V R) (db : Db K V R) : List (DbWrite K V R) → Except StateError Unit × Db K V R
  | [] => (.ok (),db)
  | write :: writes =>
    match faults.write write with
    | some e => (.error (.storageError (write.context ++ e)),db)
    | none => (db.write write).putAll faults writes

def RocksDbStorage.putPending (faults : CommitFaults K V R) (s : RocksDbStorage K V R) (version : Nat) :
    Except StateError Unit × Db K V R :=
  if s.pendingUpdates.entries.isEmpty then (.ok (),s.db)
  else
    match faults.putValueSet with
    | some e => (.error (.storageError ("JMT put_value_set failed: " ++ e)),s.db)
    | none => s.db.putAll faults (pendingWrites s.db s.pendingUpdates version)

-- `commit` with what may fail up to the version marker. The buffer is cleared first; the root
-- and the version are kept in memory before the marker is put.
def RocksDbStorage.commitWith (hasher : TreeHasher K V R) (faults : CommitFaults K V R) (s : RocksDbStorage K V R)
    (version : Nat) : Except StateError R × RocksDbStorage K V R :=
  let taken := {s with pendingUpdates:=∅}
  match s.putPending faults version with
  | (.error error,db) => (.error error,{taken with db:=db})
  | (.ok _,db) =>
    match faults.rootHash with
    | some e => (.error (.storageError ("JMT get_root_hash failed: " ++ e)),{taken with db:=db})
    | none =>
      let root := db.calculateStateRoot hasher version
      let cached := {taken with
        db:=db,rootCache:=Function.update s.rootCache version (some root),currentVersion:=version}
      match faults.write (.currentVersion version) with
      | some e =>
        (.error (.storageError ((DbWrite.currentVersion version : DbWrite K V R).context ++ e)),cached)
      | none =>
        let marked := {cached with db:=db.write (.currentVersion version)}
        let kept := if marked.snapshotDue version then marked.createSnapshot hasher version else marked
        (.ok root,
          if prunes kept.pruningConfig version then kept.pruneBeforeVersion (version - kept.pruningConfig.pruneBefore)
          else kept)

namespace CommitFaults
variable (faults : CommitFaults K V R) (s : RocksDbStorage K V R) (version : Nat)

def Fails : Prop :=
  (s.pendingUpdates.entries.isEmpty = false ∧
    (faults.putValueSet.isSome ∨ ∃ write ∈ pendingWrites s.db s.pendingUpdates version, (faults.write write).isSome)) ∨
    faults.rootHash.isSome ∨ (faults.write (.currentVersion version)).isSome

def reached : List (DbWrite K V R) :=
  if s.pendingUpdates.entries.isEmpty || faults.putValueSet.isSome then []
  else (pendingWrites s.db s.pendingUpdates version).takeWhile fun write => (faults.write write).isNone

-- What has been written of the key lets it read as it was buffered: its mark, or its record
-- with no mark below it; or it read so without.
def Settled (key : K) (value : V key) : Prop :=
  .latest key version ∈ faults.reached s version ∨
    (.value key version value ∈ faults.reached s version ∧
      ∀ latest, s.db.latest key = some latest → version ≤ latest) ∨
    s.db.getValueOption version key = some value

end CommitFaults

section Writing
variable {faults : CommitFaults K V R} {db : Db K V R} {s : RocksDbStorage K V R} {version : Nat}

theorem putAll_db (faults : CommitFaults K V R) (db : Db K V R) (writes : List (DbWrite K V R)) :
    (db.putAll faults writes).2 = db.writeAll (writes.takeWhile fun write => (faults.write write).isNone) := by
  induction writes generalizing db with
  | nil => rfl
  | cons write writes ih =>
    rw [Db.putAll,List.takeWhile_cons]
    cases faults.write write with
    | some e => rfl
    | none => exact ih _

theorem putAll_ok_iff (writes : List (DbWrite K V R)) :
    (db.putAll faults writes).1 = .ok () ↔ ∀ write ∈ writes, (faults.write write).isSome = false := by
  induction writes generalizing db with
  | nil => simp [Db.putAll]
  | cons write writes ih =>
    rw [Db.putAll,List.forall_mem_cons]
    cases faults.write write with
    | some e => simp
    | none => simp [ih]

theorem putPending_db : (s.putPending faults version).2 = s.db.writeAll (faults.reached s version) := by
  unfold RocksDbStorage.putPending CommitFaults.reached
  cases s.pendingUpdates.entries.isEmpty with
  | true => rfl
  | false =>
    cases faults.putValueSet with
    | some e => rfl
    | none => exact putAll_db faults s.db _

theorem putPending_ok_iff : (s.putPending faults version).1 = .ok () ↔
    ¬(s.pendingUpdates.entries.isEmpty = false ∧ (faults.putValueSet.isSome ∨
      ∃ write ∈ pendingWrites s.db s.pendingUpdates version, (faults.write write).isSome)) := by
  unfold RocksDbStorage.putPending
  cases s.pendingUpdates.entries.isEmpty with
  | true => simp
  | false =>
    cases faults.putValueSet with
    | some e => simp
    | none => simp [putAll_ok_iff]

theorem putAll_none (db : Db K V R) (writes : List (DbWrite K V R)) : db.putAll {} writes = (.ok (),db.writeAll writes) := by
  induction writes generalizing db with
  | nil => rfl
  | cons write writes ih => exact ih _

theorem commitWith_none (hasher : TreeHasher K V R) (s : RocksDbStorage K V R) (version : Nat) :
    s.commitWith hasher {} version = (.ok (s.commit hasher version).1,(s.commit hasher version).2) := by
  have written : s.putPending {} version = (.ok (),(s.writePending version).db) := by
    unfold RocksDbStorage.putPending RocksDbStorage.writePending
    split
    · rfl
    · exact putAll_none _ _
  have recorded : (s.writePending version).recordVersion hasher version =
      ⟨(s.writePending version).db.write (.currentVersion version),version,
        Function.update s.rootCache version (some ((s.writePending version).db.calculateStateRoot hasher version)),
        s.pruningConfig,∅⟩ := by
    unfold RocksDbStorage.recordVersion RocksDbStorage.writePending
    split
    · rename_i nothing
      have empty : s.pendingUpdates = ∅ := AList.ext (List.isEmpty_iff.mp nothing)
      rw [← empty]
    · rfl
  unfold RocksDbStorage.commitWith RocksDbStorage.commit RocksDbStorage.commitUnpruned
  rw [written,recorded]

theorem commitWith_fails (hasher : TreeHasher K V R) (fails : faults.Fails s version) :
    ∃ error, (s.commitWith hasher faults version).1 = .error error ∧
      (s.commitWith hasher faults version).2.pendingUpdates = ∅ ∧
      (s.commitWith hasher faults version).2.db = s.db.writeAll (faults.reached s version) := by
  have db := @putPending_db _ _ _ _ faults s version
  have ok := @putPending_ok_iff _ _ _ _ faults s version
  unfold CommitFaults.Fails at fails
  unfold RocksDbStorage.commitWith
  cases put : s.putPending faults version with
  | mk result reached =>
    rw [put] at db ok
    cases result with
    | error error => exact ⟨error,rfl,rfl,db⟩
    | ok _ =>
      have whole := ok.mp rfl
      cases root : faults.rootHash with
      | some e => exact ⟨_,rfl,rfl,db⟩
      | none =>
        cases marker : faults.write (.currentVersion version) with
        | some e => exact ⟨_,rfl,rfl,db⟩
        | none =>
          rw [root,marker] at fails
          simp only [Option.isSome_none,Bool.false_eq_true,or_false] at fails
          exact absurd fails whole

theorem commitWith_ok (hasher : TreeHasher K V R) (sound : ¬faults.Fails s version) :
    ∃ root, (s.commitWith hasher faults version).1 = .ok root := by
  unfold CommitFaults.Fails at sound
  simp only [not_or,Option.not_isSome_iff_eq_none] at sound
  obtain ⟨whole,root,marker⟩ := sound
  have ok := (@putPending_ok_iff _ _ _ _ faults s version).mpr (by simpa using whole)
  unfold RocksDbStorage.commitWith
  cases put : s.putPending faults version with
  | mk result reached =>
    rw [put] at ok
    cases ok
    rw [root,marker]
    exact ⟨_,rfl⟩

end Writing

section Reading
variable {base db : Db K V R} {pending : AList V} {version : Nat} {writes : List (DbWrite K V R)} {key : K} {value : V key}

theorem mem_pendingWrites {write : DbWrite K V R} : write ∈ pendingWrites base pending version ↔
    write = .nodes version (base.putValueSet pending version) ∨
      (∃ key value, pending.lookup key = some value ∧ write = .value key version value) ∨
      ∃ key ∈ pending, write = .latest key version := by
  unfold pendingWrites
  rw [List.mem_cons,List.mem_append,List.mem_map,List.mem_map]
  apply or_congr_right
  apply or_congr
  · constructor
    · intro ⟨entry,inside,same⟩
      exact ⟨entry.1,entry.2,List.mem_dlookup_iff pending.nodupKeys |>.mpr inside,same.symm⟩
    · intro ⟨key,value,found,same⟩
      exact ⟨⟨key,value⟩,List.mem_dlookup_iff pending.nodupKeys |>.mp found,same.symm⟩
  · constructor
    · intro ⟨key,inside,same⟩
      exact ⟨key,AList.mem_keys.mpr inside,same.symm⟩
    · intro ⟨key,inside,same⟩
      exact ⟨key,AList.mem_keys.mp inside,same.symm⟩

-- The marks of the buffer come after all its records.
theorem recorded_of_marked (front : writes <+: pendingWrites base pending version)
    (found : pending.lookup key = some value) (marked : .latest key version ∈ writes) :
    .value key version value ∈ writes := by
  let records : List (DbWrite K V R) := .nodes version (base.putValueSet pending version) ::
    pending.entries.map fun entry => .value entry.1 version entry.2
  have parts : records <+: (pendingWrites base pending version : List (DbWrite K V R)) := ⟨_,rfl⟩
  rcases List.prefix_or_prefix_of_prefix front parts with early | late
  · have inside := early.subset marked
    simp [records] at inside
  · apply late.subset
    apply List.mem_cons_of_mem
    exact List.mem_map.mpr ⟨⟨key,value⟩,AList.mem_lookup_iff.mp found,rfl⟩

theorem write_latest (write : DbWrite K V R) (inside : write ∈ pendingWrites base pending version) (key : K) :
    (write = .latest key version → (db.write write).latest key = some version) ∧
      (write ≠ .latest key version → (db.write write).latest key = db.latest key) := by
  rcases mem_pendingWrites.mp inside with rfl | ⟨k,v,_,rfl⟩ | ⟨k,_,rfl⟩
  · simp [Db.write]
  · simp [Db.write]
  · constructor
    · intro same
      cases same
      simp [Db.write]
    · intro other
      have apart : key ≠ k := fun same => other (by rw [same])
      simp [Db.write,apart]

theorem writeAll_latest (inside : writes ⊆ pendingWrites base pending version) (key : K) :
    (.latest key version ∈ writes → (db.writeAll writes).latest key = some version) ∧
      (.latest key version ∉ writes → (db.writeAll writes).latest key = db.latest key) := by
  induction writes generalizing db with
  | nil => exact ⟨fun member => absurd member List.not_mem_nil,fun _ => rfl⟩
  | cons write writes ih =>
    obtain ⟨first,rest⟩ := List.cons_subset.mp inside
    obtain ⟨moves,keeps⟩ := @write_latest _ _ _ _ base db pending version write first key
    obtain ⟨marked,unmarked⟩ := @ih (db.write write) rest
    change (_ → ((db.write write).writeAll writes).latest key = _) ∧ (_ → ((db.write write).writeAll writes).latest key = _)
    constructor
    · intro member
      by_cases later : .latest key version ∈ writes
      · exact marked later
      · rcases List.mem_cons.mp member with same | again
        · rw [unmarked later,moves same.symm]
        · exact absurd again later
    · intro absent
      rw [List.mem_cons,not_or] at absent
      rw [unmarked absent.2,keeps (Ne.symm absent.1)]

theorem write_values (write : DbWrite K V R) (inside : write ∈ pendingWrites base pending version)
    (found : pending.lookup key = some value) :
    (∀ stamp, stamp ≠ version → (db.write write).values key stamp = db.values key stamp) ∧
      (write = .value key version value → (db.write write).values key version = some value) ∧
      (write ≠ .value key version value → (db.write write).values key version = db.values key version) := by
  rcases mem_pendingWrites.mp inside with rfl | ⟨k,v,held,rfl⟩ | ⟨k,_,rfl⟩
  · simp [Db.write]
  · by_cases same : key = k
    · subst same
      cases found.symm.trans held
      refine ⟨fun stamp other => ?_,fun _ => ?_,fun other => absurd rfl other⟩
      · simp [Db.write,other]
      · simp [Db.write]
    · refine ⟨fun stamp _ => ?_,fun equal => ?_,fun _ => ?_⟩
      · simp [Db.write,same]
      · cases equal
        exact absurd rfl same
      · simp [Db.write,same]
  · simp [Db.write]

theorem writeAll_values (inside : writes ⊆ pendingWrites base pending version) (found : pending.lookup key = some value) :
    (∀ stamp, stamp ≠ version → (db.writeAll writes).values key stamp = db.values key stamp) ∧
      (.value key version value ∈ writes → (db.writeAll writes).values key version = some value) ∧
      (.value key version value ∉ writes → (db.writeAll writes).values key version = db.values key version) := by
  induction writes generalizing db with
  | nil => exact ⟨fun _ _ => rfl,fun member => absurd member List.not_mem_nil,fun _ => rfl⟩
  | cons write writes ih =>
    obtain ⟨first,rest⟩ := List.cons_subset.mp inside
    obtain ⟨others,puts,keeps⟩ := @write_values _ _ _ _ base db pending version key value write first found
    obtain ⟨stamps,recorded,unrecorded⟩ := @ih (db.write write) rest
    refine ⟨fun stamp other => (stamps stamp other).trans (others stamp other),fun member => ?_,fun absent => ?_⟩
    · change ((db.write write).writeAll writes).values key version = _
      by_cases later : .value key version value ∈ writes
      · exact recorded later
      · rcases List.mem_cons.mp member with same | again
        · rw [unrecorded later,puts same.symm]
        · exact absurd again later
    · rw [List.mem_cons,not_or] at absent
      change ((db.write write).writeAll writes).values key version = _
      rw [unrecorded absent.2,keeps (Ne.symm absent.1)]

theorem writeAll_unbuffered (inside : writes ⊆ pendingWrites base pending version) (absent : pending.lookup key = none) :
    (db.writeAll writes).latest key = db.latest key ∧ (db.writeAll writes).values key = db.values key := by
  have out : key ∉ pending := AList.lookup_eq_none.mp absent
  constructor
  · apply writeAll_frame fun db => db.latest key
    intro write member db
    apply (write_latest write (inside member) key).2
    intro same
    obtain missing | ⟨_,_,_,missing⟩ | ⟨other,held,named⟩ := mem_pendingWrites.mp (inside member)
    · rw [same] at missing
      cases missing
    · rw [same] at missing
      cases missing
    · rw [same] at named
      cases named
      exact out held
  · apply writeAll_frame fun db => db.values key
    intro write member db
    rcases mem_pendingWrites.mp (inside member) with rfl | ⟨k,v,held,rfl⟩ | ⟨k,_,rfl⟩
    · rfl
    · have apart : key ≠ k := by
        intro same
        subst same
        cases absent.symm.trans held
      simp [Db.write,apart]
    · rfl

theorem getValueOption_written (front : writes <+: pendingWrites db pending version)
    (found : pending.lookup key = some value) :
    (db.writeAll writes).getValueOption version key = some value ↔
      .latest key version ∈ writes ∨
        (.value key version value ∈ writes ∧ ∀ latest, db.latest key = some latest → version ≤ latest) ∨
        db.getValueOption version key = some value := by
  obtain ⟨marked,unmarked⟩ := @writeAll_latest _ _ _ _ db db pending version writes front.subset key
  obtain ⟨others,recorded,unrecorded⟩ := @writeAll_values _ _ _ _ db db pending version writes key value front.subset found
  by_cases mark : .latest key version ∈ writes
  · refine iff_of_true ?_ (Or.inl mark)
    rw [Db.getValueOption,marked mark]
    simp [recorded (recorded_of_marked front found mark)]
  · rw [Db.getValueOption,unmarked mark]
    by_cases record : .value key version value ∈ writes
    · have present := recorded record
      -- The record is found unless an older mark hides it.
      cases older : db.latest key with
      | none => exact iff_of_true (newest_self present) (Or.inr (Or.inl ⟨record,fun _ other => by cases other⟩))
      | some latest =>
        dsimp only
        by_cases below : latest < version
        · have stays : ¬(DbWrite.value key version value ∈ writes ∧ ∀ l, some latest = some l → version ≤ l) :=
            fun both => Nat.not_le.mpr below (both.2 latest rfl)
          rw [if_pos (Nat.le_of_lt below),others latest (Nat.ne_of_lt below)]
          simp only [mark,stays,false_or]
          rw [Db.getValueOption,older]
          simp [Nat.le_of_lt below]
        · have after : version ≤ latest := Nat.le_of_not_lt below
          refine iff_of_true ?_ (Or.inr (Or.inl ⟨record,fun l same => Option.some.inj same ▸ after⟩))
          split
          · rename_i within
            rw [Nat.le_antisymm within after,present]
          · exact newest_self present
    · have same : (db.writeAll writes).values key = db.values key := by
        funext stamp
        by_cases now : stamp = version
        · rw [now,unrecorded record]
        · exact others stamp now
      rw [same]
      simp only [mark,record,false_and,false_or]
      rfl

end Reading

section Keeping
variable {faults : CommitFaults K V R} {s : RocksDbStorage K V R} {version : Nat}

theorem reached_front : faults.reached s version <+: pendingWrites s.db s.pendingUpdates version := by
  unfold CommitFaults.reached
  split
  · exact List.nil_prefix
  · exact List.takeWhile_prefix _

-- After a failed commit every key reads at the version being built as before it, exactly when
-- each buffered key is settled by what was written.
theorem failed_commit_reads_iff (hasher : TreeHasher K V R) (faults : CommitFaults K V R) (s : RocksDbStorage K V R)
    (version : Nat) :
    (∀ error, (s.commitWith hasher faults version).1 = .error error →
      ∀ key, (s.commitWith hasher faults version).2.get key version = s.get key version) ↔
      (faults.Fails s version → ∀ key value, s.pendingUpdates.lookup key = some value →
        faults.Settled s version key value) := by
  constructor
  · intro kept fails key value found
    obtain ⟨error,failed,empty,db⟩ := commitWith_fails hasher fails
    have same := kept error failed key
    unfold RocksDbStorage.get at same
    rw [empty,found,db] at same
    exact (getValueOption_written reached_front found).mp same
  · intro settled error failed key
    have fails : faults.Fails s version := by
      by_contra sound
      obtain ⟨root,done⟩ := commitWith_ok hasher sound
      rw [done] at failed
      cases failed
    obtain ⟨_,_,empty,db⟩ := commitWith_fails hasher fails
    unfold RocksDbStorage.get
    rw [empty,db]
    change (s.db.writeAll (faults.reached s version)).getValueOption version key = _
    cases found : s.pendingUpdates.lookup key with
    | some value => exact (getValueOption_written reached_front found).mpr (settled fails key value found)
    | none =>
      obtain ⟨latest,values⟩ := @writeAll_unbuffered _ _ _ _ s.db s.db s.pendingUpdates version _ key
        (@reached_front _ _ _ _ faults s version).subset found
      unfold Db.getValueOption
      rw [latest,values]

theorem settled_late (tree : faults.putValueSet = none)
    (written : ∀ write ∈ pendingWrites s.db s.pendingUpdates version, faults.write write = none) {key : K} {value : V key}
    (found : s.pendingUpdates.lookup key = some value) : faults.Settled s version key value := by
  have filled : s.pendingUpdates.entries.isEmpty = false := by
    rw [List.isEmpty_eq_false_iff]
    exact List.ne_nil_of_mem (AList.mem_lookup_iff.mp found)
  have whole : faults.reached s version = pendingWrites s.db s.pendingUpdates version := by
    unfold CommitFaults.reached
    rw [filled,tree]
    apply List.takeWhile_eq_self_iff.mpr
    intro write inside
    rw [written write inside]
    rfl
  left
  rw [whole]
  exact mem_pendingWrites.mpr (.inr (.inr ⟨key,AList.lookup_isSome.mp (by rw [found]; rfl),rfl⟩))

end Keeping

-- A value committed at version 1 is set anew; the node batch of the commit at version 2 is
-- not written, and the old value shows again.
theorem failed_commit_drops_write :
    ¬∀ (K : Type) [DecidableEq K] (V : K → Type) (R : Type) (hasher : TreeHasher K V R) (faults : CommitFaults K V R)
      (s : RocksDbStorage K V R) (version : Nat) (error : StateError),
      (s.commitWith hasher faults version).1 = .error error →
        ∀ key, (s.commitWith hasher faults version).2.get key version = s.get key version := by
  intro all
  let hasher : TreeHasher Bool (fun _ => Nat) Nat := ⟨0,fun _ => 1⟩
  let faults : CommitFaults Bool (fun _ => Nat) Nat :=
    {write:=fun write => match write with
      | .nodes _ _ => some "IO error"
      | _ => none}
  let s : RocksDbStorage Bool (fun _ => Nat) Nat :=
    (RocksDbStorage.new Db.empty {}).run hasher [.set true 7,.commit 1,.set true 8]
  have kept := all Bool (fun _ => Nat) Nat hasher faults s 2 (.storageError "TreeWriter write failed: IO error") rfl true
  have before : s.get true 2 = some 8 := by decide +kernel
  have after : (s.commitWith hasher faults 2).2.get true 2 = some 7 := by decide +kernel
  rw [before,after] at kept
  cases kept

end Pranklin.Storage
