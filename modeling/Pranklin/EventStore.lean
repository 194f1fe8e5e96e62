import Pranklin.Events
import Pranklin.OrderedStore
import Mathlib.Data.List.AList

namespace Pranklin
open Borsh

inductive EventStoreError where
  | serializationError (message : String)
  | other (message : String)
  | rocksDbError (message : String)
deriving DecidableEq

def heights (lowest highest : UInt64) : List UInt64 :=
  (List.range' lowest.toNat (highest.toNat + 1 - lowest.toNat)).map UInt64.ofNat

structure InMemoryEventStore where
  events : List DomainEvent := []
  byTx : AList fun _ : B256 => List Nat := ∅
  byBlock : AList fun _ : UInt64 => List Nat := ∅

namespace InMemoryEventStore

def push (store : InMemoryEventStore) (event : DomainEvent) : InMemoryEventStore :=
  let idx := store.events.length
  {events:=store.events ++ [event]
   byTx:=store.byTx.insert event.txHash ((store.byTx.lookup event.txHash).getD [] ++ [idx])
   byBlock:=store.byBlock.insert event.blockHeight ((store.byBlock.lookup event.blockHeight).getD [] ++ [idx])}

def append (store : InMemoryEventStore) (events : List DomainEvent) : InMemoryEventStore := events.foldl push store

-- None is the panic of an index outside of the vector.
def eventsAt (store : InMemoryEventStore) (indices : List Nat) : Option (List DomainEvent) :=
  indices.mapM fun idx => store.events[idx]?

def getByBlockRange (store : InMemoryEventStore) (fromHeight toHeight : UInt64) : Option (List DomainEvent) :=
  ((heights fromHeight toHeight).mapM fun height => store.eventsAt ((store.byBlock.lookup height).getD [])).map
    List.flatten

def getByTx (store : InMemoryEventStore) (txHash : B256) : Option (List DomainEvent) :=
  match store.byTx.lookup txHash with
  | some indices => store.eventsAt indices
  | none => some []

def takeInvolved (address : Address) (limit : Nat) : Nat → List DomainEvent → List DomainEvent
  | _,[] => []
  | count,event :: events =>
    if limit ≤ count then []
    else if eventInvolvesAddress event.event address then event :: takeInvolved address limit (count + 1) events
    else takeInvolved address limit count events

def getByAddress (store : InMemoryEventStore) (address : Address) (limit : Nat) : List DomainEvent :=
  takeInvolved address limit 0 store.events.reverse

def count (store : InMemoryEventStore) : UInt64 := UInt64.ofNat store.events.length

end InMemoryEventStore

structure EventCodec where
  format : Format DomainEvent
  toVecError : DomainEvent → String
  fromSliceError : List UInt8 → String

namespace EventCodec

def toVec (codec : EventCodec) (event : DomainEvent) : Except EventStoreError (List UInt8) :=
  match codec.format.encode event with
  | some value => .ok value
  | none => .error (.serializationError (codec.toVecError event))

def fromSlice (codec : EventCodec) (value : List UInt8) : Except EventStoreError DomainEvent :=
  match codec.format.fromSlice value with
  | some event => .ok event
  | none => .error (.serializationError (codec.fromSliceError value))

end EventCodec

abbrev EventDb := OrderedStore UInt8 (List UInt8)
abbrev EventIterator := OrderedStore.PrefixIterator UInt8 (List UInt8)

structure RocksDbEventStore where
  db : EventDb := ∅
  writeBuffer : List DomainEvent := []
  bufferLimit : Nat

def DomainEvent.eventKey (event : DomainEvent) : EventStoreKey := .event event.blockHeight event.txHash event.eventIndex
def DomainEvent.blockKey (event : DomainEvent) : EventStoreKey := .blockIndex event.blockHeight event.txHash event.eventIndex
def DomainEvent.txKey (event : DomainEvent) : EventStoreKey := .txIndex event.txHash event.eventIndex

namespace RocksDbEventStore

def count (store : RocksDbEventStore) : Except EventStoreError UInt64 :=
  match store.db[EventStoreKey.metaCount.toBytes]? with
  | some bytes =>
    match u64Format.fromSlice bytes with
    | some count => .ok count
    | none => .error (.other "Invalid count format")
  | none => .ok 0

def puts (codec : EventCodec) (event : DomainEvent) : Except EventStoreError (List (List UInt8 × List UInt8)) := do
  let value ← codec.toVec event
  return [(event.eventKey.toBytes,value),(event.blockKey.toBytes,[]),(event.txKey.toBytes,[])]

-- The buffer is drained even where the batch is given up.
def flush (codec : EventCodec) (store : RocksDbEventStore) : Except EventStoreError Unit × RocksDbEventStore :=
  if store.writeBuffer.isEmpty then (.ok (),store)
  else
    let drained := {store with writeBuffer:=[]}
    let batch : Except EventStoreError (List (List UInt8 × List UInt8)) := do
      let batch ← store.writeBuffer.mapM (puts codec)
      let count ← drained.count
      let count := count + UInt64.ofNat store.writeBuffer.length
      return batch.flatten ++ [(EventStoreKey.metaCount.toBytes,littleEndian 8 count.toNat)]
    match batch with
    | .error e => (.error e,drained)
    | .ok batch => (.ok (),{drained with db:=store.db.insertMany batch})

def append (codec : EventCodec) (store : RocksDbEventStore) (events : List DomainEvent) :
    Except EventStoreError Unit × RocksDbEventStore :=
  let extended := {store with writeBuffer:=store.writeBuffer ++ events}
  if extended.bufferLimit ≤ extended.writeBuffer.length then extended.flush codec else (.ok (),extended)

section Queries
variable (codec : EventCodec) (iterator : EventIterator) (store : RocksDbEventStore)

-- The three loops end at the first key that is not their own.
def readBlock (height : UInt64) : List (List UInt8 × List UInt8) → Except EventStoreError (List DomainEvent)
  | [] => .ok []
  | (key,_) :: entries =>
    match EventStoreKey.fromBytes key with
    | some (.blockIndex blockHeight txHash eventIndex) =>
      if blockHeight = height then
        match store.db[(EventStoreKey.event blockHeight txHash eventIndex).toBytes]? with
        | some value => do
          let event ← codec.fromSlice value
          let found ← readBlock height entries
          return event :: found
        | none => readBlock height entries
      else .ok []
    | _ => .ok []

def getByBlockRange (fromHeight toHeight : UInt64) : Except EventStoreError (List DomainEvent) := do
  let found ← (heights fromHeight toHeight).mapM fun height =>
    store.readBlock codec height (iterator.scan store.db (EventStoreKey.prefixForBlock height))
  return found.flatten

def findEvent (txHash : B256) (eventIndex : UInt32) :
    List (List UInt8 × List UInt8) → Except EventStoreError (Option DomainEvent)
  | [] => .ok none
  | (key,value) :: entries =>
    match EventStoreKey.fromBytes key with
    | some (.event _ eventTxHash eventIdx) =>
      if eventTxHash = txHash ∧ eventIdx = eventIndex then do
        let event ← codec.fromSlice value
        return some event
      else findEvent txHash eventIndex entries
    | _ => findEvent txHash eventIndex entries

def readTx (txHash : B256) : List (List UInt8 × List UInt8) → Except EventStoreError (List DomainEvent)
  | [] => .ok []
  | (key,_) :: entries =>
    match EventStoreKey.fromBytes key with
    | some (.txIndex keyTxHash eventIndex) =>
      if keyTxHash = txHash then do
        let event ← findEvent codec txHash eventIndex (iterator.scan store.db EventStoreKey.prefixForEvents)
        let found ← readTx txHash entries
        return event.toList ++ found
      else .ok []
    | _ => .ok []

def getByTx (txHash : B256) : Except EventStoreError (List DomainEvent) := do
  let found ← store.readTx codec iterator txHash (iterator.scan store.db (EventStoreKey.prefixForTx txHash))
  return found.mergeSort fun one other => one.eventIndex ≤ other.eventIndex

def readInvolved (address : Address) : List (List UInt8 × List UInt8) → Except EventStoreError (List DomainEvent)
  | [] => .ok []
  | (key,value) :: entries =>
    match EventStoreKey.fromBytes key with
    | some (.event _ _ _) => do
      let event ← codec.fromSlice value
      let found ← readInvolved address entries
      return if eventInvolvesAddress event.event address then event :: found else found
    | _ => .ok []

def getByAddress (address : Address) (limit : Nat) : Except EventStoreError (List DomainEvent) := do
  let found ← readInvolved codec address (iterator.scan store.db EventStoreKey.prefixForEvents)
  return (found.mergeSort fun one other => other.blockHeight ≤ one.blockHeight).take limit

end Queries

def appends (codec : EventCodec) (store : RocksDbEventStore) : List (List DomainEvent) →
    Except EventStoreError Unit × RocksDbEventStore
  | [] => store.flush codec
  | batch :: batches =>
    match store.append codec batch with
    | (.ok (),store) => appends codec store batches
    | (.error e,store) => (.error e,store)

end RocksDbEventStore
end Pranklin
