import Mathlib.Data.List.AList
import Mathlib.Data.List.Sort
import Pranklin.Words
import Pranklin.VersionLog

namespace Pranklin.Storage
open Words

-- Keys stand for their hashes (SHA-256 taken as collision free) and a value for
-- the JSON text that `serde_json` writes for it and reads back unchanged.
variable {K : Type} [DecidableEq K] {V : K → Type} {R : Type}

structure PruningConfig where
  snapshotInterval : Nat := 1000
  pruneBefore : Nat := 100000
  enabled : Bool := true

abbrev Contents (K : Type) (V : K → Type) := (key : K) → Option (V key)

def Contents.blank : Contents K V := fun _ => none

-- The Merkle tree of the jmt crate: a stored tree is its contents, and its root
-- hash is a function of them. `zero` is `B256::ZERO`.
structure TreeHasher (K : Type) (V : K → Type) (R : Type) where
  zero : R
  hash : Contents K V → R

-- One field per `StorageKey` variant. No code under the engine writes
-- `RightmostLeaf`. `nodes` keeps, per version, the tree whose root node it holds.
@[ext] structure Db (K : Type) (V : K → Type) (R : Type) where
  currentVersion : Option Nat
  nodes : Nat → Option (Contents K V)
  values : (key : K) → Nat → Option (V key)
  latest : K → Option Nat
  snapshots : AList (fun _ : Nat => R)

def Db.empty : Db K V R := ⟨none,fun _ => none,fun _ _ => none,fun _ => none,∅⟩

inductive DbWrite (K : Type) (V : K → Type) (R : Type) where
  | nodes (version : Nat) (tree : Contents K V)
  | value (key : K) (version : Nat) (value : V key)
  | latest (key : K) (version : Nat)
  | currentVersion (version : Nat)
  | snapshot (version : Nat) (root : R)
  | deleteValues (selected : Nat → Bool)

def Db.write (db : Db K V R) : DbWrite K V R → Db K V R
  | .nodes version tree => {db with nodes:=Function.update db.nodes version (some tree)}
  | .value key version value =>
    {db with values:=Function.update db.values key (Function.update (db.values key) version (some value))}
  | .latest key version => {db with latest:=Function.update db.latest key (some version)}
  | .currentVersion version => {db with currentVersion:=some version}
  | .snapshot version root => {db with snapshots:=db.snapshots.insert version root}
  | .deleteValues selected =>
    {db with values:=fun key version => if selected version then none else db.values key version}

def Db.writeAll (db : Db K V R) (writes : List (DbWrite K V R)) : Db K V R := writes.foldl Db.write db

structure RocksDbStorage (K : Type) (V : K → Type) (R : Type) where
  db : Db K V R
  currentVersion : Nat
  rootCache : Nat → Option R
  pruningConfig : PruningConfig
  pendingUpdates : AList V

-- A database is opened, fresh or not: the version marker is read back and the
-- caches start empty.
def RocksDbStorage.new (db : Db K V R) (config : PruningConfig) : RocksDbStorage K V R :=
  ⟨db,db.currentVersion.getD 0,fun _ => none,config,∅⟩

-- `TreeReader::get_value_option`: the latest-version fast path, then the scan.
def Db.getValueOption (db : Db K V R) (maxVersion : Nat) (key : K) : Option (V key) :=
  match db.latest key with
  | some latest =>
    if latest ≤ maxVersion then db.values key latest
    else VersionLog.newest (db.values key) maxVersion
  | none => VersionLog.newest (db.values key) maxVersion

omit [DecidableEq K] in
theorem Db.getValueOption_empty (maxVersion : Nat) (key : K) :
    (Db.empty : Db K V R).getValueOption maxVersion key = none := VersionLog.newest_of_absent fun _ _ => rfl

def RocksDbStorage.get (s : RocksDbStorage K V R) (key : K) (version : Nat) : Option (V key) :=
  match s.pendingUpdates.lookup key with
  | some value => some value
  | none => s.db.getValueOption version key

def RocksDbStorage.set (s : RocksDbStorage K V R) (key : K) (value : V key) : RocksDbStorage K V R :=
  {s with pendingUpdates:=s.pendingUpdates.insert key value}

def RocksDbStorage.delete (s : RocksDbStorage K V R) (key : K) : RocksDbStorage K V R :=
  {s with pendingUpdates:=s.pendingUpdates.erase key}

-- The tree stored one version below; without one, the empty tree.
def Db.previousTree (db : Db K V R) : Nat → Contents K V
  | 0 => .blank
  | version + 1 => (db.nodes version).getD .blank

def Db.putValueSet (db : Db K V R) (values : AList V) (version : Nat) : Contents K V := fun key =>
  match values.lookup key with
  | some value => some value
  | none => db.previousTree version key

def pendingWrites (db : Db K V R) (pending : AList V) (version : Nat) : List (DbWrite K V R) :=
  .nodes version (db.putValueSet pending version) ::
    (pending.entries.map (fun entry => .value entry.1 version entry.2) ++
      pending.keys.map (fun key => .latest key version))

-- The first stage of `commit`: the buffer is taken and written through the tree.
def RocksDbStorage.writePending (s : RocksDbStorage K V R) (version : Nat) : RocksDbStorage K V R :=
  if s.pendingUpdates.entries.isEmpty then s
  else {s with db:=s.db.writeAll (pendingWrites s.db s.pendingUpdates version),pendingUpdates:=∅}

def Db.calculateStateRoot (hasher : TreeHasher K V R) (db : Db K V R) (version : Nat) : R :=
  match db.nodes version with
  | some tree => hasher.hash tree
  | none => hasher.zero

def RocksDbStorage.getRoot (hasher : TreeHasher K V R) (s : RocksDbStorage K V R) (version : Nat) : R :=
  (s.rootCache version).getD hasher.zero

def RocksDbStorage.recordVersion (hasher : TreeHasher K V R) (s : RocksDbStorage K V R)
    (version : Nat) : RocksDbStorage K V R :=
  {s with
    rootCache:=Function.update s.rootCache version (some (s.db.calculateStateRoot hasher version)),
    currentVersion:=version,
    db:=s.db.write (.currentVersion version)}

def RocksDbStorage.createSnapshot (hasher : TreeHasher K V R) (s : RocksDbStorage K V R)
    (version : Nat) : RocksDbStorage K V R :=
  {s with db:=s.db.write (.snapshot version (s.getRoot hasher version))}

def RocksDbStorage.snapshotDue (s : RocksDbStorage K V R) (version : Nat) : Bool :=
  s.pruningConfig.enabled && isMultipleOf version s.pruningConfig.snapshotInterval

def RocksDbStorage.commitUnpruned (hasher : TreeHasher K V R) (s : RocksDbStorage K V R)
    (version : Nat) : RocksDbStorage K V R :=
  let recorded := (s.writePending version).recordVersion hasher version
  if recorded.snapshotDue version then recorded.createSnapshot hasher version else recorded

-- A value record is collected when it is old and its version is no snapshot;
-- `snapshots_to_keep` holds the multiples of the interval up to `before`.
def prunable (config : PruningConfig) (before version : Nat) : Bool :=
  decide (version < before) && !isMultipleOf version config.snapshotInterval

def RocksDbStorage.pruneBeforeVersion (s : RocksDbStorage K V R) (before : Nat) : RocksDbStorage K V R :=
  {s with db:=s.db.write (.deleteValues (prunable s.pruningConfig before))}

def prunes (config : PruningConfig) (version : Nat) : Bool :=
  config.enabled && decide (config.pruneBefore < version)

def RocksDbStorage.commit (hasher : TreeHasher K V R) (s : RocksDbStorage K V R) (version : Nat) :
    R × RocksDbStorage K V R :=
  let committed := s.commitUnpruned hasher version
  ((s.writePending version).db.calculateStateRoot hasher version,
    if prunes committed.pruningConfig version then
      committed.pruneBeforeVersion (version - committed.pruningConfig.pruneBefore)
    else committed)

def RocksDbStorage.listSnapshots (s : RocksDbStorage K V R) : List Nat :=
  s.db.snapshots.keys.insertionSort (· ≤ ·)

end Pranklin.Storage
