import Pranklin.TxSigning

namespace Pranklin
open Borsh Borsh.Format

structure DomainEvent where
  blockHeight : UInt64
  txHash : B256
  eventIndex : UInt32
  timestamp : UInt64
  event : Event
deriving DecidableEq

-- An order is filled for both of its sides; nobody is involved in a nonce, a market or the fund.
def eventInvolvesAddress (event : Event) (address : Address) : Bool :=
  match event with
  | .balanceChanged addr _ _ _ _ => addr == address
  | .transfer sender recipient _ _ => sender == address || recipient == address
  | .orderPlaced _ owner _ _ _ _ _ => owner == address
  | .orderCancelled _ owner _ _ => owner == address
  | .orderFilled _ _ maker taker _ _ _ _ _ _ => maker == address || taker == address
  | .positionOpened trader _ _ _ _ _ => trader == address
  | .positionClosed trader _ _ _ _ _ => trader == address
  | .positionModified trader _ _ _ => trader == address
  | .positionLiquidated trader _ liquidator _ _ _ _ _ =>
      trader == address || (liquidator.map fun l => l == address).getD false
  | .fundingPaid trader _ _ _ _ _ => trader == address
  | .bridgeDeposit _ user _ _ _ => user == address
  | .bridgeWithdraw _ user _ _ _ _ => user == address
  | .agentSet account agent _ => account == address || agent == address
  | .agentRemoved account agent => account == address || agent == address
  | _ => false

inductive EventStoreKey where
  | event (blockHeight : UInt64) (txHash : B256) (eventIndex : UInt32)
  | blockIndex (blockHeight : UInt64) (txHash : B256) (eventIndex : UInt32)
  | txIndex (txHash : B256) (eventIndex : UInt32)
  | metaCount
deriving DecidableEq

def u64Format : Format UInt64 := ((word 8).below (2 ^ 64)).via .ofFin UInt64.toFin (fun _ => rfl) (fun _ => rfl)
def u32Format : Format UInt32 := ((word 4).below (2 ^ 32)).via .ofFin UInt32.toFin (fun _ => rfl) (fun _ => rfl)
def hashFormat : Format B256 := ((raw 32).below (2 ^ 256)).via .ofFin BitVec.toFin (fun _ => rfl) (fun _ => rfl)

namespace EventStoreKey

def tag : EventStoreKey → Nat
  | .event _ _ _ => 0
  | .blockIndex _ _ _ => 1
  | .txIndex _ _ => 2
  | .metaCount => 3

def asEvent : EventStoreKey → Option (UInt64 × B256 × UInt32)
  | .event height hash index => some (height,hash,index)
  | _ => none

def asBlockIndex : EventStoreKey → Option (UInt64 × B256 × UInt32)
  | .blockIndex height hash index => some (height,hash,index)
  | _ => none

def asTxIndex : EventStoreKey → Option (B256 × UInt32)
  | .txIndex hash index => some (hash,index)
  | _ => none

def asMetaCount : EventStoreKey → Option Unit
  | .metaCount => some ()
  | _ => none

def variants : List (Format EventStoreKey) :=
  [(u64Format.pair (hashFormat.pair u32Format)).variant (fun (height,hash,index) => .event height hash index) asEvent
      (by rintro ⟨_,_,_⟩ (_ | _ | _ | _) <;> simp [asEvent,eq_comm]),
    (u64Format.pair (hashFormat.pair u32Format)).variant (fun (height,hash,index) => .blockIndex height hash index)
      asBlockIndex (by rintro ⟨_,_,_⟩ (_ | _ | _ | _) <;> simp [asBlockIndex,eq_comm]),
    (hashFormat.pair u32Format).variant (fun (hash,index) => .txIndex hash index) asTxIndex
      (by rintro ⟨_,_⟩ (_ | _ | _ | _) <;> simp [asTxIndex,eq_comm]),
    nothing.variant (fun _ => .metaCount) asMetaCount (by rintro _ (_ | _ | _ | _) <;> simp [asMetaCount])]

theorem variants_tagged :
    ∀ entry ∈ variants.zipIdx, ∀ key data, entry.1.encode key = some data → tag key = entry.2 := by
  unfold variants
  simp only [List.zipIdx_cons,List.zipIdx_nil,List.forall_mem_cons]
  refine ⟨?_,?_,?_,?_,List.forall_mem_nil _⟩
  all_goals
    intro key _ written
    obtain ⟨_,known⟩ := encode_iso written
    cases key <;> first | rfl | cases known

def format : Format EventStoreKey := enum tag variants variants_tagged

-- The empty answer stands for the panic of `expect`, which no key meets.
def toBytes (key : EventStoreKey) : List UInt8 := (format.encode key).getD []

def fromBytes (data : List UInt8) : Option EventStoreKey := format.fromSlice data

def prefixForEvents : List UInt8 := [0]
def prefixForBlock (height : UInt64) : List UInt8 := 1 :: littleEndian 8 height.toNat
def prefixForTx (hash : B256) : List UInt8 := 2 :: hash.bytes

end EventStoreKey

section Layout

theorem encode_u64 (height : UInt64) : u64Format.encode height = some (littleEndian 8 height.toNat) :=
  @encode_word 8 height.toNat height.toNat_lt

theorem encode_u32 (index : UInt32) : u32Format.encode index = some (littleEndian 4 index.toNat) :=
  @encode_word 4 index.toNat index.toNat_lt

theorem encode_hash (hash : B256) : hashFormat.encode hash = some hash.bytes :=
  @encode_raw 32 hash.toNat hash.isLt

namespace EventStoreKey

theorem encode_event (height : UInt64) (hash : B256) (index : UInt32) : format.encode (.event height hash index) =
    some (0 :: (littleEndian 8 height.toNat ++ (hash.bytes ++ littleEndian 4 index.toNat))) :=
  encode_enum rfl (by simp [tag]) (encode_pair (encode_u64 height) (encode_pair (encode_hash hash) (encode_u32 index)))

theorem encode_blockIndex (height : UInt64) (hash : B256) (index : UInt32) : format.encode (.blockIndex height hash index) =
    some (1 :: (littleEndian 8 height.toNat ++ (hash.bytes ++ littleEndian 4 index.toNat))) :=
  encode_enum rfl (by simp [tag]) (encode_pair (encode_u64 height) (encode_pair (encode_hash hash) (encode_u32 index)))

theorem encode_txIndex (hash : B256) (index : UInt32) :
    format.encode (.txIndex hash index) = some (2 :: (hash.bytes ++ littleEndian 4 index.toNat)) :=
  encode_enum rfl (by simp [tag]) (encode_pair (encode_hash hash) (encode_u32 index))

theorem encode_toBytes (key : EventStoreKey) : format.encode key = some key.toBytes := by
  unfold toBytes
  cases key with
  | event height hash index => rw [encode_event]; rfl
  | blockIndex height hash index => rw [encode_blockIndex]; rfl
  | txIndex hash index => rw [encode_txIndex]; rfl
  | metaCount => rfl

theorem fromBytes_iff {data : List UInt8} {key : EventStoreKey} : fromBytes data = some key ↔ data = key.toBytes := by
  unfold fromBytes
  rw [fromSlice_iff,encode_toBytes,Option.some.injEq,eq_comm]

theorem fromBytes_toBytes (key : EventStoreKey) : fromBytes key.toBytes = some key := fromBytes_iff.mpr rfl

theorem toBytes_inj {one other : EventStoreKey} : one.toBytes = other.toBytes ↔ one = other :=
  ⟨fun same => Option.some.inj ((fromBytes_toBytes one).symm.trans (fromBytes_iff.mpr same)),fun same => by rw [same]⟩

theorem toBytes_tag (key : EventStoreKey) : ∃ rest, key.toBytes = key.tag.toUInt8 :: rest := by
  cases key with
  | event height hash index => exact ⟨_,Option.some.inj ((encode_toBytes _).symm.trans (encode_event height hash index))⟩
  | blockIndex height hash index =>
    exact ⟨_,Option.some.inj ((encode_toBytes _).symm.trans (encode_blockIndex height hash index))⟩
  | txIndex hash index => exact ⟨_,Option.some.inj ((encode_toBytes _).symm.trans (encode_txIndex hash index))⟩
  | metaCount => exact ⟨[],rfl⟩

theorem events_prefix_iff {key : EventStoreKey} :
    prefixForEvents <+: key.toBytes ↔ ∃ height hash index, key = .event height hash index := by
  obtain ⟨rest,laid⟩ := toBytes_tag key
  unfold prefixForEvents
  rw [laid,List.cons_prefix_cons]
  cases key <;> simp [tag]

theorem block_prefix_iff {height : UInt64} {key : EventStoreKey} :
    prefixForBlock height <+: key.toBytes ↔ ∃ hash index, key = .blockIndex height hash index := by
  constructor
  · rintro ⟨back,same⟩
    cases key with
    | blockIndex other hash index =>
      have laid := Option.some.inj ((encode_toBytes _).symm.trans (encode_blockIndex other hash index))
      rw [laid] at same
      obtain ⟨heights,_⟩ := List.append_inj (List.cons.inj same).2
        ((littleEndian_length ..).trans (littleEndian_length ..).symm)
      have equal := littleEndian_inj height.toNat_lt other.toNat_lt heights
      exact ⟨hash,index,by rw [UInt64.toNat_inj.mp equal]⟩
    | event | txIndex | metaCount =>
      obtain ⟨rest,laid⟩ := toBytes_tag _
      rw [laid] at same
      exact absurd (List.cons.inj same).1 (by simp [tag])
  · rintro ⟨hash,index,rfl⟩
    exact ⟨_,Option.some.inj ((encode_blockIndex height hash index).symm.trans (encode_toBytes _))⟩

theorem tx_prefix_iff {hash : B256} {key : EventStoreKey} :
    prefixForTx hash <+: key.toBytes ↔ ∃ index, key = .txIndex hash index := by
  constructor
  · rintro ⟨back,same⟩
    cases key with
    | txIndex other index =>
      have laid := Option.some.inj ((encode_toBytes _).symm.trans (encode_txIndex other index))
      rw [laid] at same
      obtain ⟨hashes,_⟩ := List.append_inj (List.cons.inj same).2 ((bigEndian_length ..).trans (bigEndian_length ..).symm)
      exact ⟨index,by rw [B256.bytes_inj hashes]⟩
    | event | blockIndex | metaCount =>
      obtain ⟨rest,laid⟩ := toBytes_tag _
      rw [laid] at same
      exact absurd (List.cons.inj same).1 (by simp [tag])
  · rintro ⟨index,rfl⟩
    exact ⟨_,Option.some.inj ((encode_txIndex hash index).symm.trans (encode_toBytes _))⟩

end EventStoreKey
end Layout
end Pranklin
