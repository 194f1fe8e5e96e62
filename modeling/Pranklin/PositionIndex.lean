import Pranklin.Commit
import Pranklin.State

namespace Pranklin
open Storage

namespace StateManager

-- The in-memory set of a market, or the persisted one, which is collected into a set of its own order.
def getPositionAddresses (s : StateManager) (marketId : Nat) : List Address :=
  match s.positionIndex marketId with
  | some index => index
  | none => s.hashOrder.arrange s.moment ((s.get (.positionIndex marketId)).getD []).dedup

def getAllPositionsInMarket (s : StateManager) (marketId : Nat) : List (Address × Position) :=
  (s.getPositionAddresses marketId).filterMap fun address =>
    ((s.getPosition address marketId).filter fun pos => 0 < pos.size).map fun position => (address,position)

end StateManager

-- The calls of the claim, with the blocks between them; a restart drops the process and opens the same database.
inductive PositionCall where
  | setPosition (address : Address) (marketId : Nat) (position : Position)
  | deletePosition (address : Address) (marketId : Nat)
  | commit
  | restart (config : PruningConfig) (hashOrder : HashOrder)
  | beginBlock (height : Nat)

def openPosition (read : Option Position) : Prop := ∃ position, read = some position ∧ 0 < position.size

namespace PositionCall
variable (hasher : TreeHasher StateKey StateKey.Value B256)

def apply (s : StateManager) : PositionCall → StateManager
  | .setPosition address marketId position => s.setPosition address marketId position
  | .deletePosition address marketId => s.deletePosition address marketId
  | .commit => (s.commit hasher).2
  | .restart config hashOrder => .new (.new s.storage.db config) hashOrder
  | .beginBlock height => s.beginBlock height

def run (s : StateManager) (calls : List PositionCall) : StateManager := calls.foldl (apply hasher) s

def Allowed (s : StateManager) : PositionCall → Prop
  | .commit => prunes s.storage.pruningConfig s.version = false
  | .beginBlock height => s.version ≤ height
  | _ => True

end PositionCall

namespace StateManager
variable {s : StateManager} {hasher : TreeHasher StateKey StateKey.Value B256}

def base (s : StateManager) (key : StateKey) : Option key.Value :=
  (s.storage.db.latest key).bind (s.storage.db.values key)

structure Dated (s : StateManager) : Prop where
  marked : ∀ key stamp, s.storage.db.latest key = some stamp → stamp ≤ s.storage.db.currentVersion.getD 0
  bare : ∀ key, s.storage.db.latest key = none → ∀ stamp, s.storage.db.values key stamp = none
  marker : s.storage.db.currentVersion.getD 0 ≤ s.version

theorem Dated.committed_eq (dated : s.Dated) (key : StateKey) : s.committed key = s.base key := by
  unfold committed base Db.getValueOption
  cases mark : s.storage.db.latest key with
  | none => exact VersionLog.newest_of_absent fun stamp _ => dated.bare key mark stamp
  | some stamp => simp [(dated.marked key stamp mark).trans dated.marker]

theorem get_eq (s : StateManager) (key : StateKey) :
    s.get key = (s.storage.pendingUpdates.lookup key).or (s.committed key) := by
  unfold get RocksDbStorage.get committed
  cases s.storage.pendingUpdates.lookup key <;> rfl

theorem Dated.commit (dated : s.Dated) (plain : prunes s.storage.pruningConfig s.version = false) :
    (s.commit hasher).2.Dated ∧ ∀ key, (s.commit hasher).2.base key = s.get key := by
  have latest : ∀ key, (s.commit hasher).2.storage.db.latest key =
      if (s.storage.pendingUpdates.lookup key).isSome then some s.version else s.storage.db.latest key :=
    commit_latest hasher s.storage s.version
  have values : ∀ key stamp, (s.commit hasher).2.storage.db.values key stamp =
      if stamp = s.version then (s.storage.pendingUpdates.lookup key).or (s.storage.db.values key stamp)
      else s.storage.db.values key stamp := by
    intro key stamp
    refine (commit_values hasher s.storage s.version key stamp).trans ?_
    rw [plain]
    rfl
  have marker : (s.commit hasher).2.storage.db.currentVersion = some s.version :=
    commit_marker hasher s.storage s.version
  refine ⟨⟨fun key stamp mark => ?_,fun key mark stamp => ?_,by rw [marker]; exact Nat.le_refl _⟩,fun key => ?_⟩
  · rw [latest] at mark
    rw [marker,Option.getD_some]
    split at mark
    · exact (Option.some.inj mark).ge
    · exact (dated.marked key stamp mark).trans dated.marker
  · rw [latest] at mark
    cases pending : s.storage.pendingUpdates.lookup key with
    | some value => simp [pending] at mark
    | none =>
      rw [pending] at mark
      rw [values,pending,dated.bare key mark]
      split <;> rfl
  · rw [get_eq,dated.committed_eq,base,latest]
    cases pending : s.storage.pendingUpdates.lookup key with
    | some value =>
      change (s.commit hasher).2.storage.db.values key s.version = _
      rw [values,if_pos rfl,pending]
      rfl
    | none =>
      change (s.storage.db.latest key).bind _ = s.base key
      refine congrArg (Option.bind _) (funext fun stamp => ?_)
      rw [values,pending]
      split <;> rfl

def pending (s : StateManager) (key : StateKey) : Option key.Value := s.storage.pendingUpdates.lookup key

structure Moved (s : StateManager) (address : Address) (marketId : Nat) (written : Option Position)
    (next : Option (List Address)) (t : StateManager) : Prop where
  db : t.storage.db = s.storage.db
  version : t.version = s.version
  index : t.positionIndex = Function.update s.positionIndex marketId next
  own : t.pending (.position address marketId) = written
  listed : t.pending (.positionIndex marketId) = next
  other : ∀ key, key ≠ .position address marketId → key ≠ .positionIndex marketId → t.pending key = s.pending key

theorem pending_set_self (s : StateManager) (key : StateKey) (value : key.Value) :
    (s.set key value).pending key = some value := by
  simp [pending,set,RocksDbStorage.set]

theorem pending_set_ne (s : StateManager) {key read : StateKey} (value : key.Value) (other : read ≠ key) :
    (s.set key value).pending read = s.pending read := by
  simp [pending,set,RocksDbStorage.set,AList.lookup_insert_ne other]

theorem pending_delete_self (s : StateManager) (key : StateKey) : (s.delete key).pending key = none := by
  simp [pending,delete,RocksDbStorage.delete]

theorem pending_delete_ne (s : StateManager) {key read : StateKey} (other : read ≠ key) :
    (s.delete key).pending read = s.pending read := by
  simp [pending,delete,RocksDbStorage.delete,AList.lookup_erase_ne other]

theorem updatePositionIndex_moved {u : StateManager} {address : Address} {marketId : Nat} {written : Option Position}
    {index : Option (List Address)} (db : u.storage.db = s.storage.db) (version : u.version = s.version)
    (held : u.positionIndex = Function.update s.positionIndex marketId index)
    (own : u.pending (.position address marketId) = written)
    (other : ∀ key, key ≠ .position address marketId → u.pending key = s.pending key) :
    Moved s address marketId written index (u.updatePositionIndex marketId) := by
  have found : u.positionIndex marketId = index := by rw [held,Function.update_self]
  unfold updatePositionIndex
  cases index with
  | some index =>
    rw [found]
    exact ⟨db,version,held,(pending_set_ne _ _ (by simp)).trans own,pending_set_self _ _ _,
      fun key apart elsewhere => (pending_set_ne _ _ elsewhere).trans (other key apart)⟩
  | none =>
    rw [found]
    exact ⟨db,version,held,(pending_delete_ne _ (by simp)).trans own,pending_delete_self _ _,
      fun key apart elsewhere => (pending_delete_ne _ elsewhere).trans (other key apart)⟩

theorem setPosition_moved (s : StateManager) (address : Address) (marketId : Nat) (position : Position) :
    ∃ inserted, Moved s address marketId (some position) (some inserted) (s.setPosition address marketId position) ∧
      (∀ b, b ∈ inserted ↔ b = address ∨ b ∈ (s.positionIndex marketId).getD []) ∧
      (((s.positionIndex marketId).getD []).Nodup → inserted.Nodup) := by
  let index := (s.positionIndex marketId).getD []
  refine ⟨if address ∈ index then index else s.hashOrder.arrange s.moment (address :: index),?_,?_,?_⟩
  · exact updatePositionIndex_moved rfl rfl rfl (pending_set_self _ _ _) fun key apart => pending_set_ne _ _ apart
  · intro b
    split
    · rename_i inside
      constructor
      · exact .inr
      · rintro (rfl | inside)
        · assumption
        · exact inside
    · rw [(s.hashOrder.perm s.moment _).mem_iff,List.mem_cons]
  · intro distinct
    split
    · exact distinct
    · rename_i absent
      exact (s.hashOrder.perm s.moment _).nodup_iff.mpr (List.nodup_cons.mpr ⟨absent,distinct⟩)

def erased (s : StateManager) (address : Address) (marketId : Nat) : Option (List Address) :=
  (s.positionIndex marketId).bind fun index => if (index.erase address).isEmpty then none else some (index.erase address)

theorem removeFromPositionIndex_index (s : StateManager) (marketId : Nat) (address : Address) :
    (s.removeFromPositionIndex marketId address).storage = s.storage ∧
      (s.removeFromPositionIndex marketId address).version = s.version ∧
      (s.removeFromPositionIndex marketId address).positionIndex =
        Function.update s.positionIndex marketId (s.erased address marketId) := by
  unfold removeFromPositionIndex erased
  split
  · rename_i found
    exact ⟨rfl,rfl,by rw [found,Option.bind_none,← found,Function.update_eq_self]⟩
  · rename_i index found
    exact ⟨rfl,rfl,by rw [found]; rfl⟩

theorem deletePosition_moved (s : StateManager) (address : Address) (marketId : Nat) :
    Moved s address marketId none (s.erased address marketId) (s.deletePosition address marketId) := by
  obtain ⟨storage,version,index⟩ :=
    removeFromPositionIndex_index (s.delete (.position address marketId)) marketId address
  refine @updatePositionIndex_moved s _ address marketId none _ ?_ version index ?_ ?_
  · rw [storage]
    rfl
  · unfold pending
    rw [storage]
    exact pending_delete_self s _
  · intro key apart
    unfold pending
    rw [storage]
    exact pending_delete_ne s apart

-- What holds in memory and in the buffer after any calls: the sets have no repetitions and are what reads find
-- under the index keys; whoever has a buffered position is in the set of its market.
structure Tracked (s : StateManager) : Prop where
  dated : s.Dated
  sets : ∀ marketId index, s.positionIndex marketId = some index → index.Nodup
  tracked : ∀ address marketId position, s.pending (.position address marketId) = some position →
    ∃ index, s.positionIndex marketId = some index ∧ address ∈ index
  mirrored : ∀ marketId index, s.positionIndex marketId = some index → s.get (.positionIndex marketId) = some index
  unbuffered : ∀ marketId, s.positionIndex marketId = none → s.pending (.positionIndex marketId) = none

section Moves
variable {t : StateManager} {address : Address} {marketId : Nat} {written : Option Position} {index : Option (List Address)}

theorem Moved.index_own (moved : Moved s address marketId written index t) : t.positionIndex marketId = index := by
  rw [moved.index,Function.update_self]

theorem Moved.index_other (moved : Moved s address marketId written index t) (other : market ≠ marketId) :
    t.positionIndex market = s.positionIndex market := by
  rw [moved.index,Function.update_of_ne other]

theorem Moved.committed_eq (moved : Moved s address marketId written index t) (key : StateKey) :
    t.committed key = s.committed key := by
  unfold committed
  rw [moved.db,moved.version]

theorem Moved.get_eq (moved : Moved s address marketId written index t) {key : StateKey}
    (apart : key ≠ .position address marketId) (elsewhere : key ≠ .positionIndex marketId) : t.get key = s.get key := by
  rw [StateManager.get_eq,StateManager.get_eq,moved.committed_eq]
  exact congrArg (Option.or · _) (moved.other key apart elsewhere)

theorem Moved.get_own (moved : Moved s address marketId written index t) :
    t.getPosition address marketId = written.or (s.committed (.position address marketId)) := by
  rw [getPosition,StateManager.get_eq,moved.committed_eq]
  exact congrArg (Option.or · _) moved.own

theorem Moved.get_index (moved : Moved s address marketId written index t) :
    t.get (.positionIndex marketId) = index.or (s.committed (.positionIndex marketId)) := by
  rw [StateManager.get_eq,moved.committed_eq]
  exact congrArg (Option.or · _) moved.listed

theorem Moved.dated (moved : Moved s address marketId written index t) (dated : s.Dated) : t.Dated := by
  obtain ⟨marked,bare,marker⟩ := dated
  exact ⟨by rw [moved.db]; exact marked,by rw [moved.db]; exact bare,by rw [moved.db,moved.version]; exact marker⟩

theorem Moved.tracked (moved : Moved s address marketId written index t) (tracked : s.Tracked)
    (distinct : ∀ set, index = some set → set.Nodup)
    (kept : ∀ set, s.positionIndex marketId = some set → ∀ b ∈ set, b ≠ address → ∃ next, index = some next ∧ b ∈ next)
    (inside : written ≠ none → ∃ next, index = some next ∧ address ∈ next) : t.Tracked where
  dated := moved.dated tracked.dated
  sets := by
    intro market set found
    by_cases same : market = marketId
    · subst same
      rw [moved.index_own] at found
      exact distinct set found
    · rw [moved.index_other same] at found
      exact tracked.sets market set found
  tracked := by
    intro b market position found
    by_cases same : market = marketId
    · subst same
      rw [moved.index_own]
      by_cases own : b = address
      · subst own
        exact inside (by rw [← moved.own,found]; simp)
      · rw [moved.other _ (by simp [own]) (by simp)] at found
        obtain ⟨set,known,member⟩ := tracked.tracked b market position found
        exact kept set known b member own
    · rw [moved.index_other same]
      rw [moved.other _ (by simp [same]) (by simp)] at found
      exact tracked.tracked b market position found
  mirrored := by
    intro market set found
    by_cases same : market = marketId
    · subst same
      rw [moved.index_own] at found
      rw [moved.get_index,found]
      rfl
    · rw [moved.index_other same] at found
      rw [moved.get_eq (by simp) (by simp [same])]
      exact tracked.mirrored market set found
  unbuffered := by
    intro market found
    by_cases same : market = marketId
    · subst same
      rw [moved.index_own] at found
      rw [moved.listed,found]
    · rw [moved.index_other same] at found
      rw [moved.other _ (by simp) (by simp [same])]
      exact tracked.unbuffered market found

theorem Tracked.setPosition (tracked : s.Tracked) (address : Address) (marketId : Nat) (position : Position) :
    (s.setPosition address marketId position).Tracked := by
  obtain ⟨inserted,moved,members,distinct⟩ := setPosition_moved s address marketId position
  apply moved.tracked tracked
  · rintro set ⟨rfl⟩
    apply distinct
    cases found : s.positionIndex marketId with
    | none => exact List.nodup_nil
    | some set => exact tracked.sets marketId set found
  · intro set found b inside _
    exact ⟨inserted,rfl,(members b).mpr (.inr (by rw [found]; exact inside))⟩
  · exact fun _ => ⟨inserted,rfl,(members address).mpr (.inl rfl)⟩

theorem Tracked.deletePosition (tracked : s.Tracked) (address : Address) (marketId : Nat) :
    (s.deletePosition address marketId).Tracked := by
  apply (deletePosition_moved s address marketId).tracked tracked
  · intro set found
    obtain ⟨index,known,rest⟩ := Option.bind_eq_some_iff.mp found
    split at rest
    · cases rest
    · cases rest
      exact (tracked.sets marketId index known).erase _
  · intro set found b inside other
    have left : b ∈ set.erase address := (List.mem_erase_of_ne other).mpr inside
    have some : (set.erase address).isEmpty = false := by
      cases empty : set.erase address with
      | nil => rw [empty] at left; cases left
      | cons _ _ => rfl
    exact ⟨set.erase address,by unfold erased; rw [found,Option.bind_some,some]; rfl,left⟩
  · exact fun written => absurd rfl written

end Moves
end StateManager
end Pranklin
