import Pranklin.Commit
import Pranklin.State

namespace Pranklin.Storage
variable {K : Type} [DecidableEq K] {V : K → Type} {R : Type}

inductive Op (K : Type) (V : K → Type) where
  | set (key : K) (value : V key)
  | delete (key : K)
  | commit (version : Nat)

def RocksDbStorage.apply (hasher : TreeHasher K V R) (s : RocksDbStorage K V R) : Op K V → RocksDbStorage K V R
  | .set key value => s.set key value
  | .delete key => s.delete key
  | .commit version => (s.commit hasher version).2

def RocksDbStorage.run (hasher : TreeHasher K V R) (s : RocksDbStorage K V R) (ops : List (Op K V)) :
    RocksDbStorage K V R := ops.foldl (RocksDbStorage.apply hasher) s

def versions (ops : List (Op K V)) : List Nat :=
  ops.filterMap fun
    | .commit version => some version
    | _ => none

-- The map that the calls speak of: the last set or delete of a key decides.
def Contents.apply (contents : Contents K V) : Op K V → Contents K V
  | .set key value => Function.update contents key (some value)
  | .delete key => Function.update contents key none
  | .commit _ => contents

def intended (ops : List (Op K V)) : Contents K V := ops.foldl Contents.apply fun _ => none

def Saved (ops : List (Op K V)) (key : K) : Prop :=
  ∃ before version, before ++ [.commit version] <+: ops ∧ intended before key ≠ none

-- What the calls amount to: a buffer of sets over what earlier commits have taken from it.
-- A delete takes back a buffered set and no more.
structure Image (K : Type) (V : K → Type) where
  buffer : Contents K V
  base : Contents K V

namespace Image

def empty : Image K V := ⟨fun _ => none,fun _ => none⟩

def apply (image : Image K V) : Op K V → Image K V
  | .set key value => {image with buffer:=Function.update image.buffer key (some value)}
  | .delete key => {image with buffer:=Function.update image.buffer key none}
  | .commit _ => ⟨fun _ => none,fun key => (image.buffer key).or (image.base key)⟩

def run (ops : List (Op K V)) : Image K V := ops.foldl Image.apply .empty

def view (image : Image K V) (key : K) : Option (V key) := (image.buffer key).or (image.base key)

end Image

section Calls
variable {ops : List (Op K V)} {key : K}

theorem intended_append (ops : List (Op K V)) (op : Op K V) : intended (ops ++ [op]) = (intended ops).apply op := by
  simp [intended]

theorem Image.run_append (ops : List (Op K V)) (op : Op K V) : Image.run (ops ++ [op]) = (Image.run ops).apply op := by
  simp [Image.run]

omit [DecidableEq K] in
theorem versions_append (front back : List (Op K V)) : versions (front ++ back) = versions front ++ versions back :=
  List.filterMap_append

theorem saved_append {op : Op K V} :
    Saved (ops ++ [op]) key ↔ Saved ops key ∨ ∃ version, op = .commit version ∧ intended ops key ≠ none := by
  constructor
  · rintro ⟨before,version,earlier,set⟩
    rcases List.prefix_concat_iff.mp earlier with whole | earlier
    · obtain ⟨rfl,last⟩ := List.append_inj' whole rfl
      exact .inr ⟨version,(List.singleton_injective last).symm,set⟩
    · exact .inl ⟨before,version,earlier,set⟩
  · rintro (⟨before,version,earlier,set⟩ | ⟨version,rfl,set⟩)
    · exact ⟨before,version,earlier.trans (List.prefix_append _ _),set⟩
    · exact ⟨ops,version,List.prefix_refl _,set⟩

-- A set key is seen as set; what is under a deleted one depends on the commits.
theorem view_of_intended (wanted : intended ops key = some value) : (Image.run ops).view key = some value := by
  induction ops using List.reverseRecOn generalizing value with
  | nil => cases wanted
  | append_singleton ops op ih =>
    rw [intended_append] at wanted
    rw [Image.run_append]
    cases op with
    | set other written =>
      by_cases same : key = other
      · subst same; simpa [Contents.apply,Image.apply,Image.view] using wanted
      · simpa [Image.apply,Image.view,same] using ih (by simpa [Contents.apply,same] using wanted)
    | delete other =>
      by_cases same : key = other
      · subst same; simp [Contents.apply] at wanted
      · simpa [Image.apply,Image.view,same] using ih (by simpa [Contents.apply,same] using wanted)
    | commit version => exact ih wanted

theorem buffer_of_deleted (wanted : intended ops key = none) : (Image.run ops).buffer key = none := by
  induction ops using List.reverseRecOn with
  | nil => rfl
  | append_singleton ops op ih =>
    rw [intended_append] at wanted
    rw [Image.run_append]
    cases op with
    | set other written =>
      by_cases same : key = other
      · subst same; simp [Contents.apply] at wanted
      · simpa [Image.apply,same] using ih (by simpa [Contents.apply,same] using wanted)
    | delete other =>
      by_cases same : key = other
      · subst same; simp [Image.apply]
      · simpa [Image.apply,same] using ih (by simpa [Contents.apply,same] using wanted)
    | commit version => rfl

theorem base_iff_saved : (Image.run ops).base key ≠ none ↔ Saved ops key := by
  induction ops using List.reverseRecOn with
  | nil =>
    refine ⟨fun present => absurd rfl present,?_⟩
    rintro ⟨before,version,earlier,_⟩
    simp at earlier
  | append_singleton ops op ih =>
    rw [saved_append,Image.run_append]
    cases op with
    | set other written | delete other => simpa [Image.apply] using ih
    | commit version =>
      have seen : (Image.run ops).base key = none → ((Image.run ops).buffer key ≠ none ↔ intended ops key ≠ none) := by
        intro bare
        cases wanted : intended ops key with
        | none => simp [buffer_of_deleted wanted]
        | some value =>
          have view := view_of_intended wanted
          rw [Image.view,bare,Option.or_none] at view
          simp [view]
      by_cases bare : (Image.run ops).base key = none
      · have unsaved : ¬Saved ops key := fun saved => ih.mpr saved bare
        simpa [Image.apply,bare,unsaved] using seen bare
      · have saved := ih.mp bare
        simp [Image.apply,bare,saved]

theorem view_iff (ops : List (Op K V)) (key : K) :
    (Image.run ops).view key = intended ops key ↔ ¬(intended ops key = none ∧ Saved ops key) := by
  cases wanted : intended ops key with
  | some value => simp [view_of_intended wanted]
  | none =>
    rw [Image.view,buffer_of_deleted wanted,Option.none_or,← base_iff_saved]
    simp

theorem intended_deleted {key : K} (deleted : intended ops key = none) {later : List (Op K V)}
    (unset : ∀ value, .set key value ∉ later) :
    intended (ops ++ later) key = none ∧ (Saved (ops ++ later) key ↔ Saved ops key) := by
  induction later using List.reverseRecOn with
  | nil => rw [List.append_nil]; exact ⟨deleted,.rfl⟩
  | append_singleton later op ih =>
    obtain ⟨absent,saved⟩ := ih fun value inside => unset value (List.mem_append_left _ inside)
    rw [← List.append_assoc,intended_append,saved_append,saved]
    refine ⟨?_,by simp [absent]⟩
    cases op with
    | set other value =>
      have apart : key ≠ other := by
        rintro rfl
        exact unset value (List.mem_append_right _ (List.mem_singleton_self _))
      simpa [Contents.apply,apart] using absent
    | delete other =>
      by_cases same : key = other
      · subst same; simp [Contents.apply]
      · simpa [Contents.apply,same] using absent
    | commit version => exact absent

end Calls

section Runs
variable {hasher : TreeHasher K V R} {config : PruningConfig} {s t : RocksDbStorage K V R} {ops : List (Op K V)}

theorem run_append (hasher : TreeHasher K V R) (s : RocksDbStorage K V R) (front back : List (Op K V)) :
    s.run hasher (front ++ back) = (s.run hasher front).run hasher back := List.foldl_append

theorem apply_pending (buffered : ∀ key, s.pendingUpdates.lookup key = (Image.run ops).buffer key) (op : Op K V) (key : K) :
    (s.apply hasher op).pendingUpdates.lookup key = (Image.run (ops ++ [op])).buffer key := by
  rw [Image.run_append]
  cases op with
  | set other value =>
    by_cases same : key = other
    · subst same; simp [RocksDbStorage.apply,RocksDbStorage.set,Image.apply]
    · simp [RocksDbStorage.apply,RocksDbStorage.set,Image.apply,same,buffered,AList.lookup_insert_ne same]
  | delete other =>
    by_cases same : key = other
    · subst same; simp [RocksDbStorage.apply,RocksDbStorage.delete,Image.apply]
    · simp [RocksDbStorage.apply,RocksDbStorage.delete,Image.apply,same,buffered,AList.lookup_erase_ne same]
  | commit version =>
    rw [RocksDbStorage.apply,commit_pending]
    rfl

theorem run_pending (hasher : TreeHasher K V R) (config : PruningConfig) (ops : List (Op K V)) (key : K) :
    ((RocksDbStorage.new Db.empty config).run hasher ops).pendingUpdates.lookup key = (Image.run ops).buffer key := by
  induction ops using List.reverseRecOn generalizing key with
  | nil => rfl
  | append_singleton ops op ih =>
    rw [run_append]
    exact apply_pending ih op key

structure Recorded (config : PruningConfig) (ops : List (Op K V)) (s : RocksDbStorage K V R) : Prop where
  config : s.pruningConfig = config
  marked : ∀ key stamp, s.db.latest key = some stamp → stamp ∈ versions ops
  bare : ∀ key, s.db.latest key = none → ∀ stamp, s.db.values key stamp = none
  base : ∀ key, (s.db.latest key).bind (s.db.values key) = (Image.run ops).base key

theorem Recorded.buffer (recorded : Recorded config ops s) (db : t.db = s.db) (same : t.pruningConfig = s.pruningConfig)
    (silent : versions (ops ++ [op]) = versions ops) (base : (Image.run (ops ++ [op])).base = (Image.run ops).base) :
    Recorded config (ops ++ [op]) t := by
  obtain ⟨config,marked,bare,held⟩ := recorded
  exact ⟨same.trans config,by rw [db,silent]; exact marked,by rw [db]; exact bare,by rw [db,base]; exact held⟩

theorem Recorded.commit (recorded : Recorded config ops s) (committed : Committed hasher s version t)
    (buffered : ∀ key, s.pendingUpdates.lookup key = (Image.run ops).buffer key) :
    Recorded config (ops ++ [.commit version]) t := by
  have earlier : ∀ stamp ∈ versions ops, stamp ∈ versions (ops ++ [.commit version]) := fun stamp inside => by
    rw [versions_append]
    exact List.mem_append_left _ inside
  refine ⟨committed.config.trans recorded.config,fun key stamp mark => ?_,fun key mark stamp => ?_,fun key => ?_⟩
  · rw [committed.latest] at mark
    split at mark
    · cases mark; simp [versions]
    · exact earlier stamp (recorded.marked key stamp mark)
  · rw [committed.latest] at mark
    split at mark
    · cases mark
    · rename_i unbuffered
      rw [committed.values,AList.lookup_eq_none.mpr unbuffered,recorded.bare key mark]
      split <;> rfl
  · rw [Image.run_append,committed.latest]
    change _ = ((Image.run ops).buffer key).or ((Image.run ops).base key)
    rw [← buffered,← recorded.base]
    by_cases inside : key ∈ s.pendingUpdates
    · obtain ⟨value,present⟩ := Option.isSome_iff_exists.mp (AList.lookup_isSome.mpr inside)
      simp [inside,committed.values,present]
    · have absent := AList.lookup_eq_none.mpr inside
      have same : ∀ stamp, t.db.values key stamp = s.db.values key stamp := fun stamp => by
        rw [committed.values,absent]
        split <;> rfl
      rw [if_neg inside,absent,Option.none_or]
      exact congrArg (Option.bind _) (funext same)

theorem run_recorded (unpruned : ∀ version ∈ versions ops, prunes config version = false) :
    Recorded config ops ((RocksDbStorage.new Db.empty config).run hasher ops) := by
  induction ops using List.reverseRecOn with
  | nil => exact ⟨rfl,fun key stamp mark => (by cases mark),fun _ _ _ => rfl,fun _ => rfl⟩
  | append_singleton ops op ih =>
    have before := ih fun version inside => unpruned version (by rw [versions_append]; exact List.mem_append_left _ inside)
    rw [run_append]
    cases op with
    | set key value => exact before.buffer rfl rfl (by simp [versions]) (by rw [Image.run_append]; rfl)
    | delete key => exact before.buffer rfl rfl (by simp [versions]) (by rw [Image.run_append]; rfl)
    | commit version =>
      have plain := unpruned version (by simp [versions])
      rw [← before.config] at plain
      change Recorded config _ (RocksDbStorage.commit hasher _ version).2
      rw [commit_state,plain]
      exact before.commit (commitUnpruned_committed hasher _ version) (run_pending hasher config ops)

theorem get_run (hasher : TreeHasher K V R) (unpruned : ∀ version ∈ versions ops, prunes config version = false)
    (current : ∀ version ∈ versions ops, version ≤ n) (key : K) :
    ((RocksDbStorage.new Db.empty config).run hasher ops).get key n = (Image.run ops).view key := by
  have recorded : Recorded config ops ((RocksDbStorage.new Db.empty config).run hasher ops) := run_recorded unpruned
  have buffered := run_pending hasher config ops key
  generalize (RocksDbStorage.new Db.empty config).run hasher ops = s at recorded buffered
  have stored : s.db.getValueOption n key = (Image.run ops).base key := by
    rw [← recorded.base]
    unfold Db.getValueOption
    cases mark : s.db.latest key with
    | none => exact VersionLog.newest_of_absent fun stamp _ => recorded.bare key mark stamp
    | some stamp => simp [current stamp (recorded.marked key stamp mark)]
  rw [RocksDbStorage.get,Image.view,← buffered,← stored]
  cases s.pendingUpdates.lookup key <;> rfl

end Runs
end Pranklin.Storage

namespace Pranklin.Overlay
open Storage

def indexOp (s : StateManager) (marketId : Nat) : Op StateKey StateKey.Value :=
  match s.positionIndex marketId with
  | some index => .set (.positionIndex marketId) index
  | none => .delete (.positionIndex marketId)

theorem updatePositionIndex_storage (hasher : TreeHasher StateKey StateKey.Value B256) (s : StateManager) (marketId : Nat) :
    (s.updatePositionIndex marketId).storage = s.storage.apply hasher (indexOp s marketId) := by
  unfold StateManager.updatePositionIndex indexOp
  cases s.positionIndex marketId <;> rfl

theorem deletePosition_storage (hasher : TreeHasher StateKey StateKey.Value B256) (s : StateManager) (address : Address)
    (marketId : Nat) :
    (s.deletePosition address marketId).storage = s.storage.run hasher [.delete (.position address marketId),
      indexOp ((s.delete (.position address marketId)).removeFromPositionIndex marketId address) marketId] := by
  have index : ((s.delete (.position address marketId)).removeFromPositionIndex marketId address).storage =
      s.storage.delete (.position address marketId) := by
    unfold StateManager.removeFromPositionIndex
    split <;> rfl
  rw [StateManager.deletePosition,updatePositionIndex_storage hasher,index]
  rfl

-- Storage reads as the map of the calls, and a deleted position stays deleted, exactly where
-- no commit came while the deleted key was set.
theorem storage_refines_map_iff (hasher : TreeHasher StateKey StateKey.Value B256) (config : PruningConfig)
    (ops : List (Op StateKey StateKey.Value)) (unpruned : ∀ version ∈ versions ops, prunes config version = false) :
    let storage : StateStorage := (RocksDbStorage.new .empty config).run hasher ops
    (∀ key n, (∀ version ∈ versions ops, version ≤ n) →
      (storage.get key n = intended ops key ↔ ¬(intended ops key = none ∧ Saved ops key))) ∧
    ∀ (s t : StateManager) (address : Address) (marketId : Nat) (later : List (Op StateKey StateKey.Value)),
      s.storage = storage → t.storage = (s.deletePosition address marketId).storage.run hasher later →
      (∀ position, .set (.position address marketId) position ∉ later) →
      (∀ version ∈ versions (ops ++ later), prunes config version = false ∧ version ≤ t.version) →
      (t.getPosition address marketId = none ↔ ¬Saved ops (.position address marketId)) := by
  refine ⟨fun key n current => by rw [get_run hasher unpruned current]; exact view_iff ops key,?_⟩
  intro s t address marketId later before after unset current
  let gone : List (Op StateKey StateKey.Value) := [.delete (.position address marketId),
    indexOp ((s.delete (.position address marketId)).removeFromPositionIndex marketId address) marketId]
  have quiet : versions gone = [] := by
    unfold gone indexOp
    split <;> rfl
  have whole : t.storage = (RocksDbStorage.new .empty config).run hasher ((ops ++ gone) ++ later) := by
    rw [after,deletePosition_storage hasher,before,run_append,run_append]
  have bounds : ∀ version ∈ versions ((ops ++ gone) ++ later), prunes config version = false ∧ version ≤ t.version := by
    intro version inside
    rw [versions_append,versions_append,quiet,List.append_nil,← versions_append] at inside
    exact current version inside
  have deleted : intended (ops ++ gone) (.position address marketId) = none ∧
      (Saved (ops ++ gone) (.position address marketId) ↔ Saved ops (.position address marketId)) := by
    have first : intended (ops ++ [.delete (.position address marketId)]) (.position address marketId) = none := by
      rw [intended_append]
      simp [Contents.apply]
    have split : ops ++ gone = (ops ++ [.delete (.position address marketId)]) ++
        [indexOp ((s.delete (.position address marketId)).removeFromPositionIndex marketId address) marketId] := by
      simp [gone]
    have indexed : ∀ (s' : StateManager) (value : Position),
        Op.set (.position address marketId) value ∉ [indexOp s' marketId] := by
      intro s' value inside
      unfold indexOp at inside
      split at inside <;> simp at inside
    obtain ⟨absent,saved⟩ := intended_deleted first (indexed _)
    rw [split]
    exact ⟨absent,saved.trans (saved_append.trans (by simp))⟩
  obtain ⟨absent,saved⟩ := intended_deleted deleted.1 unset
  have read := view_iff (ops ++ gone ++ later) (.position address marketId)
  rw [absent,saved,deleted.2] at read
  rw [StateManager.getPosition,StateManager.get,whole,get_run hasher (fun version inside => (bounds version inside).1)
    (fun version inside => (bounds version inside).2),read]
  simp

def roots : TreeHasher StateKey StateKey.Value B256 := ⟨0,fun _ => 1⟩

def trader : Address := .ofNat 1

def held : Position := ⟨5,100,true,50,0⟩

theorem storage_refines_map_iff_same_block :
    let ops : List (Op StateKey StateKey.Value) :=
      [.commit 1,.set (.position trader 0) held,.delete (.position trader 0),.commit 2]
    let storage : StateStorage := (RocksDbStorage.new .empty {}).run roots ops
    storage.get (.position trader 0) 2 = none ∧ ¬Saved ops (.position trader 0) := by
  intro ops storage
  have unpruned : ∀ version ∈ versions ops, prunes {} version = false := by decide
  have read : storage.get (.position trader 0) 2 = none := by decide +kernel
  have wanted : intended ops (.position trader 0) = none := by decide +kernel
  have current : ∀ version ∈ versions ops, version ≤ 2 := by decide
  have exactly := (storage_refines_map_iff roots {} ops unpruned).1 (.position trader 0) 2 current
  refine ⟨read,fun saved => ?_⟩
  exact exactly.mp (read.trans wanted.symm) ⟨wanted,saved⟩

-- A position that a block has committed is back at once when a later block deletes it, and
-- still there after the commit of that block.
theorem deleted_position_resurfaces :
    let ops : List (Op StateKey StateKey.Value) :=
      [.set (.position trader 0) held,.commit 1,.delete (.position trader 0)]
    let storage : StateStorage := (RocksDbStorage.new .empty {}).run roots ops
    let s : StateManager :=
      (((StateManager.new (.new .empty {}) .keep).beginBlock 1).setPosition trader 0 held).commit roots |>.2
    intended ops (.position trader 0) = none ∧ storage.get (.position trader 0) 1 = some held ∧
      ((s.beginBlock 2).deletePosition trader 0).getPosition trader 0 = some held ∧
      (((s.beginBlock 2).deletePosition trader 0).commit roots).2.getPosition trader 0 = some held := by
  refine ⟨?_,?_,?_,?_⟩ <;> decide +kernel

end Pranklin.Overlay
