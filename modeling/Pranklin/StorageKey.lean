import Pranklin.Events

namespace Pranklin
open Borsh Borsh.Format

-- The keys of the state's database; the keys of its tree are of another crate.
inductive StorageKey (NodeKey KeyHash : Type) where
  | currentVersion
  | jmtNode (key : NodeKey)
  | jmtValue (keyHash : KeyHash) (version : UInt64)
  | latestVersion (keyHash : KeyHash)
  | snapshot (version : UInt64)
  | rightmostLeaf (version : UInt64)
deriving DecidableEq

theorem u64Format_writes (n : UInt64) : u64Format.Writes n := by
  rw [Writes,encode_u64]
  rfl

def u64Code : Code UInt64 := u64Format.code u64Format_writes

namespace StorageKey
variable {NodeKey KeyHash : Type} (nodes : Code NodeKey) (hashes : Code KeyHash)

def encode : StorageKey NodeKey KeyHash → List UInt8
  | .currentVersion => [0]
  | .jmtNode key => 1 :: nodes.encode key
  | .jmtValue keyHash version => 2 :: (hashes.pair u64Code).encode (keyHash,version)
  | .latestVersion keyHash => 3 :: hashes.encode keyHash
  | .snapshot version => 4 :: u64Code.encode version
  | .rightmostLeaf version => 5 :: u64Code.encode version

def decode : List UInt8 → Option (StorageKey NodeKey KeyHash × List UInt8)
  | 0 :: rest => some (.currentVersion,rest)
  | 1 :: rest => (nodes.decode rest).map fun (key,rest) => (.jmtNode key,rest)
  | 2 :: rest => ((hashes.pair u64Code).decode rest).map fun ((keyHash,version),rest) => (.jmtValue keyHash version,rest)
  | 3 :: rest => (hashes.decode rest).map fun (keyHash,rest) => (.latestVersion keyHash,rest)
  | 4 :: rest => (u64Code.decode rest).map fun (version,rest) => (.snapshot version,rest)
  | 5 :: rest => (u64Code.decode rest).map fun (version,rest) => (.rightmostLeaf version,rest)
  | _ => none

def code : Code (StorageKey NodeKey KeyHash) where
  encode := encode nodes hashes
  decode := decode nodes hashes
  decode_encode key rest := by
    cases key with
    | currentVersion => rfl
    | jmtNode key => exact nodes.decode_map jmtNode key rest
    | jmtValue keyHash version =>
      exact (hashes.pair u64Code).decode_map (fun (keyHash,version) => jmtValue keyHash version) (keyHash,version) rest
    | latestVersion keyHash => exact hashes.decode_map latestVersion keyHash rest
    | snapshot version => exact u64Code.decode_map snapshot version rest
    | rightmostLeaf version => exact u64Code.decode_map rightmostLeaf version rest

def toBytes (key : StorageKey NodeKey KeyHash) : List UInt8 := (code nodes hashes).encode key

def fromBytes (data : List UInt8) : Option (StorageKey NodeKey KeyHash) := (code nodes hashes).fromSlice data

def prefixForJmtValues : List UInt8 := [2]
def prefixForSnapshots : List UInt8 := [4]

structure Selected (key : StorageKey NodeKey KeyHash) : Prop where
  jmtValues : prefixForJmtValues <+: key.toBytes nodes hashes ↔ ∃ keyHash version, key = .jmtValue keyHash version
  snapshots : prefixForSnapshots <+: key.toBytes nodes hashes ↔ ∃ version, key = .snapshot version
  reads : fromBytes nodes hashes (key.toBytes nodes hashes) = some key
  injective : ∀ other : StorageKey NodeKey KeyHash, other.toBytes nodes hashes = key.toBytes nodes hashes → other = key

variable (key : StorageKey NodeKey KeyHash)

theorem jmtValues_prefix_iff :
    prefixForJmtValues <+: key.toBytes nodes hashes ↔ ∃ keyHash version, key = .jmtValue keyHash version := by
  cases key <;> simp [toBytes,code,encode,prefixForJmtValues]

theorem snapshots_prefix_iff :
    prefixForSnapshots <+: key.toBytes nodes hashes ↔ ∃ version, key = .snapshot version := by
  cases key <;> simp [toBytes,code,encode,prefixForSnapshots]

theorem selected : Selected nodes hashes key :=
  ⟨jmtValues_prefix_iff nodes hashes key,snapshots_prefix_iff nodes hashes key,(code nodes hashes).fromSlice_encode key,
    fun _ => (code nodes hashes).encode_inj⟩

end StorageKey

structure EventStoreKey.Selected (key : EventStoreKey) : Prop where
  block : ∀ blockHeight, prefixForBlock blockHeight <+: key.toBytes ↔
    ∃ txHash eventIndex, key = .blockIndex blockHeight txHash eventIndex
  tx : ∀ txHash, prefixForTx txHash <+: key.toBytes ↔ ∃ eventIndex, key = .txIndex txHash eventIndex
  events : prefixForEvents <+: key.toBytes ↔ ∃ blockHeight txHash eventIndex, key = .event blockHeight txHash eventIndex
  reads : fromBytes key.toBytes = some key
  injective : ∀ other : EventStoreKey, other.toBytes = key.toBytes → other = key

theorem EventStoreKey.selected (key : EventStoreKey) : key.Selected :=
  ⟨fun _ => block_prefix_iff,fun _ => tx_prefix_iff,events_prefix_iff,fromBytes_toBytes key,fun _ => toBytes_inj.mp⟩

theorem prefixes_select_variants {NodeKey KeyHash : Type} (nodes : Code NodeKey) (hashes : Code KeyHash) :
    (∀ key : EventStoreKey, key.Selected) ∧ ∀ key : StorageKey NodeKey KeyHash, key.Selected nodes hashes :=
  ⟨EventStoreKey.selected,StorageKey.selected nodes hashes⟩

section Bench

def hashCode : Code B256 := hashFormat.code fun hash => by rw [Writes,encode_hash]; rfl

def nodeKeyFormat : Format (UInt64 × UInt64 × {path : List UInt8 // path.length ≤ 32}) :=
  u64Format.pair (u64Format.pair (bytes.iso (fun content => if short : content.length ≤ 32 then some ⟨content,short⟩ else none)
    (fun path => some path.val) fun content path => by
      constructor
      · intro made
        split at made
        · cases made
          rfl
        · cases made
      · intro same
        cases same
        exact dif_pos path.property))

def nodeKeyCode : Code (UInt64 × UInt64 × {path : List UInt8 // path.length ≤ 32}) := nodeKeyFormat.code fun key => by
  have short : key.2.2.val.length < 2 ^ 32 := key.2.2.property.trans_lt (by decide)
  exact writes_pair.mpr ⟨u64Format_writes _,writes_pair.mpr ⟨u64Format_writes _,writes_total.mpr (writes_bytes.mpr short)⟩⟩

theorem prefixes_select_variants_of_snapshot :
    StorageKey.prefixForSnapshots <+: (StorageKey.snapshot 12345).toBytes nodeKeyCode hashCode ∧
      ¬StorageKey.prefixForJmtValues <+: (StorageKey.snapshot 12345).toBytes nodeKeyCode hashCode := by
  obtain ⟨jmtValues,snapshots,_,_⟩ := (prefixes_select_variants nodeKeyCode hashCode).2 (.snapshot 12345)
  exact ⟨snapshots.mpr ⟨_,rfl⟩,fun found => by obtain ⟨_,_,same⟩ := jmtValues.mp found; cases same⟩

end Bench
end Pranklin
