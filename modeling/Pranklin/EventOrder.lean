import Pranklin.Flushing

namespace Pranklin.EventOrder
open Borsh RocksDbEventStore StoreCall

-- An index is written into its key with the lowest byte first, and the keys are walked by
-- their bytes.
def StoredBefore (one other : UInt32) : Prop :=
  compare (littleEndian 4 one.toNat) (littleEndian 4 other.toNat) = .lt

instance : Decidable (StoredBefore one other) := inferInstanceAs (Decidable (_ = _))

structure InOrder (found : List DomainEvent) : Prop where
  heights : found.Pairwise fun one other => one.blockHeight ≤ other.blockHeight
  indices : found.Pairwise fun one other => one.blockHeight = other.blockHeight → one.txHash = other.txHash →
    one.eventIndex < other.eventIndex

def Aligned (events : List DomainEvent) (fromHeight toHeight : UInt64) : Prop :=
  ∀ one ∈ events, ∀ other ∈ events, fromHeight ≤ one.blockHeight → one.blockHeight ≤ toHeight →
    one.blockHeight = other.blockHeight → one.txHash = other.txHash → one.eventIndex < other.eventIndex →
    StoredBefore one.eventIndex other.eventIndex

section Keys
variable {one other : DomainEvent}

theorem blockKey_bytes (event : DomainEvent) : event.blockKey.toBytes =
    1 :: (littleEndian 8 event.blockHeight.toNat ++ (event.txHash.bytes ++ littleEndian 4 event.eventIndex.toNat)) :=
  Option.some.inj ((EventStoreKey.encode_toBytes _).symm.trans
    (EventStoreKey.encode_blockIndex event.blockHeight event.txHash event.eventIndex))

theorem compare_blockKey (height : one.blockHeight = other.blockHeight) (tx : one.txHash = other.txHash) :
    compare one.blockKey.toBytes other.blockKey.toBytes =
      compare (littleEndian 4 one.eventIndex.toNat) (littleEndian 4 other.eventIndex.toNat) := by
  rw [blockKey_bytes,blockKey_bytes,height,tx,OrderedStore.compare_cons,Std.ReflOrd.compare_self,
    OrderedStore.compare_append,OrderedStore.compare_append]
  rfl

theorem storedBefore_of_before (before : Before one other) (height : one.blockHeight = other.blockHeight)
    (tx : one.txHash = other.txHash) : StoredBefore one.eventIndex other.eventIndex := by
  rcases before with lower | ⟨_,lower⟩
  · rw [height] at lower
    exact absurd lower (UInt64.lt_irrefl _)
  · rwa [compare_blockKey height tx] at lower

theorem StoredBefore.asymm {one other : UInt32} (before : StoredBefore one other) : ¬StoredBefore other one := by
  intro after
  have turned := Std.OrientedCmp.gt_of_lt before
  unfold StoredBefore at after
  rw [after] at turned
  cases turned

end Keys

theorem inOrder_iff {events found : List DomainEvent} {fromHeight toHeight : UInt64}
    (perm : found.Perm (events.filter fun event => fromHeight ≤ event.blockHeight ∧ event.blockHeight ≤ toHeight))
    (before : found.Pairwise Before) : InOrder found ↔ Aligned events fromHeight toHeight := by
  constructor
  · intro ordered one inside other there low high height tx less
    have listed : ∀ event ∈ events, event.blockHeight = one.blockHeight → event ∈ found := by
      intro event member same
      apply perm.mem_iff.mpr
      exact List.mem_filter.mpr ⟨member,by rw [same]; simpa using ⟨low,high⟩⟩
    obtain ⟨front,back,split⟩ := List.append_of_mem (listed one inside rfl)
    have standing := listed other there height.symm
    obtain ⟨_,indices⟩ := ordered
    rw [split] at standing indices before
    rcases List.mem_append.mp standing with ahead | behind
    · -- Ahead of the first it would have to have the lower index.
      have lower := (List.pairwise_append.mp indices).2.2 other ahead one List.mem_cons_self height.symm tx.symm
      exact absurd less (UInt32.lt_asymm lower)
    · rcases List.mem_cons.mp behind with rfl | later
      · exact absurd less (UInt32.lt_irrefl _)
      · have first := (List.pairwise_cons.mp (List.pairwise_append.mp before).2.1).1 other later
        exact storedBefore_of_before first height tx
  · intro aligned
    have within : ∀ event ∈ found, event ∈ events ∧ fromHeight ≤ event.blockHeight ∧ event.blockHeight ≤ toHeight := by
      intro event inside
      simpa using perm.mem_iff.mp inside
    constructor
    · apply List.Pairwise.imp _ before
      intro one other first
      rcases first with lower | ⟨same,_⟩
      · exact UInt64.le_of_lt lower
      · exact UInt64.le_of_eq same
    · apply List.Pairwise.imp_of_mem _ before
      intro one other here there first height tx
      have bytes := storedBefore_of_before first height tx
      obtain ⟨member,low,high⟩ := within other there
      by_contra unordered
      rcases UInt32.lt_or_eq_of_le (UInt32.not_lt.mp unordered) with less | same
      · exact bytes.asymm (aligned other member one (within one here).1 low high height.symm tx.symm less)
      · rw [same] at bytes
        exact bytes.asymm bytes

theorem read_by_key (codec : EventCodec) (iterator : EventIterator) (bufferLimit : Nat) (calls : List StoreCall)
    (distinct : ((flushedBy codec {bufferLimit:=bufferLimit} calls).map DomainEvent.place).Nodup) (fromHeight toHeight : UInt64) :
    ∃ found, (run codec {bufferLimit:=bufferLimit} calls).getByBlockRange codec iterator fromHeight toHeight = .ok found ∧
      found.Perm ((flushedBy codec {bufferLimit:=bufferLimit} calls).filter fun event =>
        fromHeight ≤ event.blockHeight ∧ event.blockHeight ≤ toHeight) ∧ found.Pairwise Before := by
  obtain ⟨holds,written⟩ := @run_holds codec {bufferLimit:=bufferLimit} [] holds_empty
    (fun _ inside => absurd inside List.not_mem_nil) calls distinct
  obtain ⟨found,read,_,before⟩ := getByBlockRange_eq iterator holds written distinct fromHeight toHeight
  obtain ⟨again,reread,perm⟩ := readable_of_holds iterator holds written distinct fromHeight toHeight
  cases read.symm.trans reread
  exact ⟨found,read,perm,before⟩

-- Whatever was appended and flushed, with whatever failures, a range of blocks is read back in
-- order exactly when no transaction has two indices there whose bytes are the other way around.
theorem block_range_in_order_iff (codec : EventCodec) (iterator : EventIterator) (bufferLimit : Nat) (calls : List StoreCall)
    (distinct : ((flushedBy codec {bufferLimit:=bufferLimit} calls).map DomainEvent.place).Nodup) :
    let store := run codec {bufferLimit:=bufferLimit} calls
    let flushed := flushedBy codec {bufferLimit:=bufferLimit} calls
    ∀ fromHeight toHeight, ∃ found, store.getByBlockRange codec iterator fromHeight toHeight = .ok found ∧
      found.Perm (flushed.filter fun event => fromHeight ≤ event.blockHeight ∧ event.blockHeight ≤ toHeight) ∧
      (InOrder found ↔ Aligned flushed fromHeight toHeight) := by
  intro store flushed fromHeight toHeight
  obtain ⟨found,read,perm,before⟩ := read_by_key codec iterator bufferLimit calls distinct fromHeight toHeight
  exact ⟨found,read,perm,inOrder_iff perm before⟩

-- One byte is in the order of its number; the second byte outweighs the first.
theorem storedBefore_of_small {one other : UInt32} (less : one < other) (small : other < 256) : StoredBefore one other := by
  rw [UInt32.lt_iff_toNat_lt] at less small
  change other.toNat < 256 at small
  have byte : one.toNat.toUInt8 < other.toNat.toUInt8 := by
    rw [UInt8.lt_iff_toNat_lt]
    change one.toNat % 256 < other.toNat % 256
    rwa [Nat.mod_eq_of_lt small,Nat.mod_eq_of_lt (Nat.lt_trans less small)]
  have first : compare one.toNat.toUInt8 other.toNat.toUInt8 = .lt := if_pos byte
  have split : ∀ n, littleEndian 4 n = n.toUInt8 :: littleEndian 3 (n / 256) := fun _ => rfl
  rw [StoredBefore,split,split,OrderedStore.compare_cons,first]
  rfl

theorem aligned_numbered_iff {events : List DomainEvent} {height fromHeight toHeight : UInt64} {txHash : B256} {n : Nat}
    (own : ∀ event ∈ events, event.blockHeight = height ∧ event.txHash = txHash)
    (numbered : ∀ i : UInt32, (∃ event ∈ events, event.eventIndex = i) ↔ i.toNat < n)
    (low : fromHeight ≤ height) (high : height ≤ toHeight) : Aligned events fromHeight toHeight ↔ n ≤ 256 := by
  constructor
  · intro aligned
    by_contra more
    obtain ⟨one,inside,first⟩ := (numbered 1).mpr (by change 1 < n; omega)
    obtain ⟨other,there,last⟩ := (numbered 256).mpr (by change 256 < n; omega)
    obtain ⟨height₁,tx₁⟩ := own one inside
    obtain ⟨height₂,tx₂⟩ := own other there
    have bytes := aligned one inside other there (height₁ ▸ low) (height₁ ▸ high) (height₁.trans height₂.symm)
      (tx₁.trans tx₂.symm) (by rw [first,last]; decide)
    rw [first,last] at bytes
    revert bytes
    decide
  · intro few one inside other there _ _ _ _ less
    apply storedBefore_of_small less
    have within := (numbered other.eventIndex).mp ⟨other,there,rfl⟩
    rw [UInt32.lt_iff_toNat_lt]
    exact Nat.lt_of_lt_of_le within few

open Bench

def posted : List StoreCall := [.append [deposited 300 9 0,deposited 1 7 1] {},.append [deposited 1 7 0] {},.flush {}]

theorem block_range_in_order_posted :
    flushedBy deposits {bufferLimit:=2} posted = [deposited 300 9 0,deposited 1 7 1,deposited 1 7 0] ∧
      ∃ found, (run deposits {bufferLimit:=2} posted).getByBlockRange deposits .seeking 1 300 = .ok found ∧
        InOrder found := by
  have flushed : flushedBy deposits {bufferLimit:=2} posted =
      [deposited 300 9 0,deposited 1 7 1,deposited 1 7 0] := by decide +kernel
  have distinct : ((flushedBy deposits {bufferLimit:=2} posted).map DomainEvent.place).Nodup := by
    rw [flushed]
    decide +kernel
  obtain ⟨found,read,_,ordered⟩ := block_range_in_order_iff deposits .seeking 2 posted distinct 1 300
  refine ⟨flushed,found,read,ordered.mpr ?_⟩
  rw [flushed]
  unfold Aligned
  decide +kernel

-- An order that takes from many others: one event more than a byte can number.
def swept : List DomainEvent := (List.range 257).map fun i => deposited 1 7 (.ofNat i)

theorem swept_own : ∀ event ∈ swept, event.blockHeight = 1 ∧ event.txHash = 7 := by
  intro event inside
  obtain ⟨i,_,rfl⟩ := List.mem_map.mp inside
  exact ⟨rfl,rfl⟩

theorem swept_numbered (i : UInt32) : (∃ event ∈ swept, event.eventIndex = i) ↔ i.toNat < 257 := by
  constructor
  · intro ⟨event,inside,index⟩
    obtain ⟨n,listed,rfl⟩ := List.mem_map.mp inside
    have small := List.mem_range.mp listed
    rw [← index]
    change (UInt32.ofNat n).toNat < 257
    rw [UInt32.toNat_ofNat_of_lt' (Nat.lt_trans small (by decide))]
    exact small
  · intro small
    exact ⟨_,List.mem_map_of_mem (List.mem_range.mpr small),UInt32.ofNat_toNat⟩

theorem swept_flushed : flushedBy deposits {bufferLimit:=1000} [.append swept {},.flush {}] = swept := by
  apply flushedBy_once
  · unfold swept
    rw [List.length_map,List.length_range]
    decide
  · intro event inside
    obtain ⟨i,_,rfl⟩ := List.mem_map.mp inside
    exact deposited_writes 1 7 _

theorem swept_distinct : (swept.map DomainEvent.place).Nodup := by
  unfold swept
  rw [List.map_map]
  apply List.Nodup.map_on _ List.nodup_range
  intro n below m small same
  have index : UInt32.ofNat n = UInt32.ofNat m := congrArg (fun place => place.2.2) same
  have numbers := congrArg UInt32.toNat index
  rwa [UInt32.toNat_ofNat_of_lt' (Nat.lt_trans (List.mem_range.mp below) (by decide)),
    UInt32.toNat_ofNat_of_lt' (Nat.lt_trans (List.mem_range.mp small) (by decide))] at numbers

theorem swept_out_of_order :
    ¬∀ (codec : EventCodec) (iterator : EventIterator) (bufferLimit : Nat) (calls : List StoreCall),
      ((flushedBy codec {bufferLimit:=bufferLimit} calls).map DomainEvent.place).Nodup → ∀ fromHeight toHeight, fromHeight ≤ toHeight →
        ∃ found, (run codec {bufferLimit:=bufferLimit} calls).getByBlockRange codec iterator fromHeight toHeight = .ok found ∧
          InOrder found := by
  intro all
  have distinct := swept_distinct
  rw [← swept_flushed] at distinct
  obtain ⟨found,read,ordered⟩ := all deposits .seeking 1000 [.append swept {},.flush {}] distinct 1 1 (by decide)
  obtain ⟨again,reread,perm,before⟩ := read_by_key deposits .seeking 1000 [.append swept {},.flush {}] distinct 1 1
  cases read.symm.trans reread
  rw [swept_flushed] at perm
  have aligned := (inOrder_iff perm before).mp ordered
  have few := (aligned_numbered_iff swept_own swept_numbered (by decide) (by decide)).mp aligned
  exact absurd few (by decide)

end Pranklin.EventOrder
