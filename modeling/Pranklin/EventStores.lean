import Pranklin.Calls
import Pranklin.EventStore

namespace Pranklin
open Borsh

section Indices
variable {κ : Type} [DecidableEq κ] {events more : List DomainEvent} {key : DomainEvent → κ}
  {index : AList fun _ : κ => List Nat}

def Indexes (events : List DomainEvent) (key : DomainEvent → κ) (index : AList fun _ : κ => List Nat) : Prop :=
  ∀ k, (((index.lookup k).getD []).mapM fun idx => events[idx]?) = some (events.filter fun event => key event = k)

theorem mapM_grow {indices : List Nat} {found : List DomainEvent} (read : (indices.mapM fun idx => events[idx]?) = some found) :
    (indices.mapM fun idx => (events ++ more)[idx]?) = some found := by
  induction indices generalizing found with
  | nil => exact read
  | cons idx indices ih =>
    rw [List.mapM_cons] at read ⊢
    obtain ⟨event,first,read⟩ := Option.bind_eq_some_iff.mp read
    obtain ⟨rest,second,same⟩ := Option.bind_eq_some_iff.mp read
    obtain ⟨within,_⟩ := List.getElem?_eq_some_iff.mp first
    rw [List.getElem?_append_left within,first,ih second]
    exact same

theorem mapM_snoc {f : Nat → Option DomainEvent} {indices : List Nat} {last : Nat} {found : List DomainEvent}
    {event : DomainEvent} (read : indices.mapM f = some found) (own : f last = some event) :
    (indices ++ [last]).mapM f = some (found ++ [event]) := by
  rw [List.mapM_append,read]
  simp [own]

theorem Indexes.push (indexes : Indexes events key index) (event : DomainEvent) : Indexes (events ++ [event]) key
    (index.insert (key event) ((index.lookup (key event)).getD [] ++ [events.length])) := by
  intro k
  by_cases own : key event = k
  · subst own
    have last : (events ++ [event])[events.length]? = some event := List.getElem?_concat_length
    rw [AList.lookup_insert,Option.getD_some,mapM_snoc (mapM_grow (indexes (key event))) last,List.filter_append]
    simp
  · rw [AList.lookup_insert_ne (Ne.symm own),mapM_grow (indexes k),List.filter_append]
    simp [own]

end Indices

namespace InMemoryEventStore

structure Indexed (store : InMemoryEventStore) : Prop where
  byTx : Indexes store.events DomainEvent.txHash store.byTx
  byBlock : Indexes store.events DomainEvent.blockHeight store.byBlock

theorem indexed_empty : Indexed {} := ⟨fun _ => rfl,fun _ => rfl⟩

theorem Indexed.push {store : InMemoryEventStore} (indexed : store.Indexed) (event : DomainEvent) :
    (store.push event).Indexed := ⟨indexed.byTx.push event,indexed.byBlock.push event⟩

theorem Indexed.append {store : InMemoryEventStore} (indexed : store.Indexed) (events : List DomainEvent) :
    (store.append events).Indexed ∧ (store.append events).events = store.events ++ events := by
  induction events generalizing store with
  | nil => exact ⟨indexed,(List.append_nil _).symm⟩
  | cons event events ih =>
    obtain ⟨kept,grown⟩ := ih (indexed.push event)
    exact ⟨kept,grown.trans (List.append_assoc ..)⟩

theorem appends_indexed (batches : List (List DomainEvent)) :
    (batches.foldl append {}).Indexed ∧ (batches.foldl append {}).events = batches.flatten := by
  have run : ∀ store : InMemoryEventStore, store.Indexed →
      (batches.foldl append store).Indexed ∧ (batches.foldl append store).events = store.events ++ batches.flatten := by
    induction batches with
    | nil => exact fun store indexed => ⟨indexed,(List.append_nil _).symm⟩
    | cons batch batches ih =>
      intro store indexed
      obtain ⟨kept,grown⟩ := indexed.append batch
      obtain ⟨last,all⟩ := ih _ kept
      exact ⟨last,by rw [List.foldl_cons,all,grown,List.flatten_cons,List.append_assoc]⟩
  exact run {} indexed_empty

section Queries
variable {store : InMemoryEventStore}

theorem getByTx_eq (indexed : store.Indexed) (txHash : B256) :
    store.getByTx txHash = some (store.events.filter fun event => event.txHash = txHash) := by
  rw [← indexed.byTx txHash]
  unfold getByTx eventsAt
  cases store.byTx.lookup txHash with
  | some indices => rfl
  | none => rfl

theorem getByBlockRange_eq (indexed : store.Indexed) (fromHeight toHeight : UInt64) :
    store.getByBlockRange fromHeight toHeight = some ((heights fromHeight toHeight).flatMap fun height =>
      store.events.filter fun event => event.blockHeight = height) := by
  unfold getByBlockRange
  induction heights fromHeight toHeight with
  | nil => rfl
  | cons height rest ih =>
    obtain ⟨found,read,same⟩ := Option.map_eq_some_iff.mp ih
    rw [List.mapM_cons,eventsAt,indexed.byBlock height,read,List.flatMap_cons,← same]
    rfl

theorem takeInvolved_eq (address : Address) {limit count : Nat} {events : List DomainEvent}
    (enough : count + events.length ≤ limit) :
    takeInvolved address limit count events = events.filter fun event => eventInvolvesAddress event.event address := by
  induction events generalizing count with
  | nil => rfl
  | cons event events ih =>
    rw [List.length_cons] at enough
    unfold takeInvolved
    rw [if_neg (by omega)]
    by_cases involved : eventInvolvesAddress event.event address = true
    · rw [if_pos involved,ih (by omega),List.filter_cons,if_pos involved]
    · rw [if_neg involved,ih (by omega),List.filter_cons,if_neg involved]

theorem getByAddress_eq (address : Address) {limit : Nat} (enough : store.events.length ≤ limit) :
    store.getByAddress address limit = store.events.reverse.filter fun event => eventInvolvesAddress event.event address :=
  takeInvolved_eq address (by rw [List.length_reverse,Nat.zero_add]; exact enough)

end Queries
end InMemoryEventStore
namespace EventCodec
variable {codec : EventCodec} {event : DomainEvent}

def value (codec : EventCodec) (event : DomainEvent) : List UInt8 := (codec.format.encode event).getD []

theorem toVec_eq (written : codec.format.Writes event) : codec.toVec event = .ok (codec.value event) := by
  obtain ⟨data,encoded⟩ := Format.writes_iff.mp written
  unfold toVec value
  rw [encoded]
  rfl

theorem fromSlice_value (written : codec.format.Writes event) : codec.fromSlice (codec.value event) = .ok event := by
  obtain ⟨data,encoded⟩ := Format.writes_iff.mp written
  unfold fromSlice value
  rw [encoded,Option.getD_some,(Format.fromSlice_iff _ _ _).mpr encoded]

end EventCodec

def DomainEvent.identity (event : DomainEvent) : B256 × UInt32 := (event.txHash,event.eventIndex)

def DomainEvent.place (event : DomainEvent) : UInt64 × B256 × UInt32 := (event.blockHeight,event.txHash,event.eventIndex)

theorem DomainEvent.places_nodup {events : List DomainEvent} (distinct : (events.map DomainEvent.identity).Nodup) :
    (events.map DomainEvent.place).Nodup := by
  apply List.Nodup.of_map Prod.snd
  rw [List.map_map]
  exact distinct

namespace RocksDbEventStore
variable {codec : EventCodec} {stored : List DomainEvent}

def rows (codec : EventCodec) (event : DomainEvent) : List (List UInt8 × List UInt8) :=
  [(event.eventKey.toBytes,codec.value event),(event.blockKey.toBytes,[]),(event.txKey.toBytes,[])]

def countRow (stored : List DomainEvent) : List (List UInt8 × List UInt8) :=
  if stored.isEmpty then [] else
    [(EventStoreKey.metaCount.toBytes,littleEndian 8 (UInt64.ofNat stored.length).toNat)]

def content (codec : EventCodec) (stored : List DomainEvent) : List (List UInt8 × List UInt8) :=
  stored.flatMap (rows codec) ++ countRow stored

def Holds (codec : EventCodec) (db : EventDb) (stored : List DomainEvent) : Prop :=
  ∀ key value, db[key]? = some value ↔ (key,value) ∈ content codec stored

theorem holds_empty : Holds codec ∅ [] := fun key value => by simp [content,countRow]

def Carries (codec : EventCodec) (events : List DomainEvent) (bytes : List UInt8) (value : List UInt8) : EventStoreKey → Prop
  | .event height txHash index => ∃ event ∈ events, event.place = (height,txHash,index) ∧ value = codec.value event
  | .metaCount => value = bytes
  | _ => value = []

theorem content_carries {events : List DomainEvent} {bytes key value : List UInt8}
    (inside : (key,value) ∈ events.flatMap (rows codec) ++ [(EventStoreKey.metaCount.toBytes,bytes)]) :
    ∃ k : EventStoreKey, key = k.toBytes ∧ Carries codec events bytes value k := by
  rcases List.mem_append.mp inside with row | count
  · obtain ⟨event,member,own⟩ := List.mem_flatMap.mp row
    simp only [rows,List.mem_cons,List.not_mem_nil,or_false,Prod.mk.injEq] at own
    rcases own with ⟨rfl,rfl⟩ | ⟨rfl,rfl⟩ | ⟨rfl,rfl⟩
    · exact ⟨event.eventKey,rfl,event,member,rfl,rfl⟩
    · exact ⟨event.blockKey,rfl,rfl⟩
    · exact ⟨event.txKey,rfl,rfl⟩
  · cases List.mem_singleton.mp count
    exact ⟨.metaCount,rfl,rfl⟩

theorem content_agrees {events : List DomainEvent} (distinct : (events.map DomainEvent.place).Nodup) (bytes : List UInt8)
    (key one other : List UInt8)
    (left : (key,one) ∈ events.flatMap (rows codec) ++ [(EventStoreKey.metaCount.toBytes,bytes)])
    (right : (key,other) ∈ events.flatMap (rows codec) ++ [(EventStoreKey.metaCount.toBytes,bytes)]) : one = other := by
  obtain ⟨k,named,first⟩ := content_carries left
  obtain ⟨j,again,second⟩ := content_carries right
  obtain rfl := EventStoreKey.toBytes_inj.mp (named.symm.trans again)
  cases k with
  | event height txHash index =>
    obtain ⟨event,inside,own,rfl⟩ := first
    obtain ⟨twin,there,same,rfl⟩ := second
    rw [List.inj_on_of_nodup_map distinct inside there (own.trans same.symm)]
  | blockIndex | txIndex | metaCount => exact first.trans second.symm

section Writes
variable {store : RocksDbEventStore}

theorem puts_eq {event : DomainEvent} (written : codec.format.Writes event) : puts codec event = .ok (rows codec event) := by
  unfold puts
  rw [EventCodec.toVec_eq written]
  rfl

theorem mapM_puts {events : List DomainEvent} (written : ∀ event ∈ events, codec.format.Writes event) :
    events.mapM (puts codec) = .ok (events.map (rows codec)) := by
  induction events with
  | nil => rfl
  | cons event events ih =>
    rw [List.mapM_cons,puts_eq (written event List.mem_cons_self),
      ih fun e inside => written e (List.mem_cons_of_mem _ inside)]
    rfl

theorem fromSlice_count (count : UInt64) : u64Format.fromSlice (littleEndian 8 count.toNat) = some count :=
  (Format.fromSlice_iff _ _ _).mpr (encode_u64 count)

theorem count_eq (holds : Holds codec store.db stored) : store.count = .ok (UInt64.ofNat stored.length) := by
  unfold count
  by_cases empty : stored = []
  · cases found : store.db[EventStoreKey.metaCount.toBytes]? with
    | none => rw [empty]; rfl
    | some value =>
      have inside := (holds _ _).mp found
      rw [empty] at inside
      exact absurd inside List.not_mem_nil
  · have counted : countRow stored = [(EventStoreKey.metaCount.toBytes,
        littleEndian 8 (UInt64.ofNat stored.length).toNat)] := if_neg (by simpa using empty)
    have found : store.db[EventStoreKey.metaCount.toBytes]? = some (littleEndian 8 (UInt64.ofNat stored.length).toNat) := by
      apply (holds _ _).mpr
      unfold content
      rw [counted]
      exact List.mem_append_right _ (List.mem_singleton_self _)
    rw [found]
    dsimp only
    rw [fromSlice_count]

theorem insertMany_holds {db : EventDb} {buffer : List DomainEvent} (holds : Holds codec db stored) (some : buffer ≠ [])
    (distinct : ((stored ++ buffer).map DomainEvent.place).Nodup) :
    Holds codec (db.insertMany (buffer.flatMap (rows codec) ++
      [(EventStoreKey.metaCount.toBytes,littleEndian 8 (UInt64.ofNat (stored ++ buffer).length).toNat)])) (stored ++ buffer) := by
  generalize total : littleEndian 8 (UInt64.ofNat (stored ++ buffer).length).toNat = bytes
  have all := @content_agrees codec _ distinct bytes
  have counted : content codec (stored ++ buffer) = stored.flatMap (rows codec) ++
      (buffer.flatMap (rows codec) ++ [(EventStoreKey.metaCount.toBytes,bytes)]) := by
    unfold content countRow
    rw [if_neg (by simp [some]),total,List.flatMap_append,List.append_assoc]
  rw [List.flatMap_append,List.append_assoc] at all
  have fresh : ∀ key one other, (key,one) ∈ buffer.flatMap (rows codec) ++ [(EventStoreKey.metaCount.toBytes,bytes)] →
      (key,other) ∈ buffer.flatMap (rows codec) ++ [(EventStoreKey.metaCount.toBytes,bytes)] → one = other :=
    fun key one other left right => all key one other (List.mem_append_right _ left) (List.mem_append_right _ right)
  intro key value
  rw [counted,List.mem_append,OrderedStore.insertMany_iff fresh,holds key value]
  constructor
  · rintro (inside | ⟨absent,inside⟩)
    · exact Or.inr inside
    · rcases List.mem_append.mp inside with row | count
      · exact Or.inl row
      · unfold countRow at count
        split at count
        · cases count
        · cases List.mem_singleton.mp count
          exact absurd (by simp) absent
  · rintro (row | inside)
    · by_cases present : key ∈ (buffer.flatMap (rows codec) ++ [(EventStoreKey.metaCount.toBytes,bytes)]).map Prod.fst
      · -- The key is written again, and with the value it has.
        obtain ⟨⟨_,again⟩,inside,rfl⟩ := List.mem_map.mp present
        rw [all _ value again (List.mem_append_left _ row) (List.mem_append_right _ inside)]
        exact Or.inl inside
      · exact Or.inr ⟨present,List.mem_append_left _ row⟩
    · exact Or.inl inside

theorem flush_eq {events : List DomainEvent} (holds : Holds codec store.db stored)
    (whole : stored ++ store.writeBuffer = events)
    (written : ∀ event ∈ events, codec.format.Writes event) (distinct : (events.map DomainEvent.place).Nodup) :
    ∃ db, store.flush codec = (.ok (),⟨db,[],store.bufferLimit⟩) ∧ Holds codec db events := by
  subst whole
  unfold flush
  by_cases empty : store.writeBuffer = []
  · rw [if_pos (by simpa using empty),empty,List.append_nil]
    obtain ⟨_,_,_⟩ := store
    cases empty
    exact ⟨_,rfl,holds⟩
  · have total : UInt64.ofNat stored.length + UInt64.ofNat store.writeBuffer.length =
        UInt64.ofNat (stored ++ store.writeBuffer).length := by
      rw [List.length_append]
      exact (UInt64.ofNat_add ..).symm
    have counting : count ⟨store.db,[],store.bufferLimit⟩ = .ok (UInt64.ofNat stored.length) := count_eq holds
    refine ⟨_,?_,insertMany_holds holds empty distinct⟩
    rw [if_neg (by simpa using empty),mapM_puts fun event inside => written event (List.mem_append_right _ inside),
      ← total,List.flatMap_def]
    dsimp only
    rw [counting]
    rfl

theorem append_eq {batch events : List DomainEvent} (holds : Holds codec store.db stored)
    (whole : stored ++ (store.writeBuffer ++ batch) = events) (written : ∀ event ∈ events, codec.format.Writes event)
    (distinct : (events.map DomainEvent.place).Nodup) :
    ∃ next kept, store.append codec batch = (.ok (),next) ∧ Holds codec next.db kept ∧ kept ++ next.writeBuffer = events := by
  unfold append
  dsimp only
  split
  · obtain ⟨db,flushed,held⟩ := @flush_eq codec stored {store with writeBuffer:=store.writeBuffer ++ batch} events holds whole
      written distinct
    exact ⟨_,_,flushed,held,List.append_nil _⟩
  · exact ⟨_,stored,rfl,holds,whole⟩

-- Wherever the buffer overflows in between, the last flush leaves every event in the database.
theorem appends_eq {batches : List (List DomainEvent)} {events : List DomainEvent} (holds : Holds codec store.db stored)
    (whole : stored ++ store.writeBuffer ++ batches.flatten = events)
    (written : ∀ event ∈ events, codec.format.Writes event) (distinct : (events.map DomainEvent.place).Nodup) :
    ∃ last, appends codec store batches = (.ok (),last) ∧ Holds codec last.db events := by
  induction batches generalizing store stored with
  | nil =>
    obtain ⟨db,flushed,held⟩ := flush_eq holds ((List.append_nil _).symm.trans whole) written distinct
    exact ⟨_,flushed,held⟩
  | cons batch batches ih =>
    rw [List.flatten_cons,← List.append_assoc,List.append_assoc stored] at whole
    subst whole
    obtain ⟨next,kept,appended,held,same⟩ := append_eq holds rfl
      (fun event inside => written event (List.mem_append_left _ inside))
      (distinct.sublist ((List.sublist_append_left ..).map _))
    unfold appends
    rw [appended]
    exact ih held (by rw [same])

end Writes

section Scans
variable {iterator : EventIterator} {db : EventDb}

-- A scan whose prefix picks one row of each event of some kind meets these rows in the order of
-- their keys, each once, and leaves the kind.
theorem scan_rows (holds : Holds codec db stored) {front : List UInt8} {own : DomainEvent → Bool}
    {entry : DomainEvent → List UInt8 × List UInt8} (distinct : ((stored.filter own).map entry).Nodup)
    (mine : ∀ event, entry event ∈ rows codec event)
    (picks : ∀ event, ∀ row ∈ rows codec event, front <+: row.1 ↔ row = entry event ∧ own event)
    (count : ¬ front <+: EventStoreKey.metaCount.toBytes) :
    ∃ (ordered : List DomainEvent) (later : List (List UInt8 × List UInt8)), ordered.Perm (stored.filter own) ∧
      iterator.scan db front = ordered.map entry ++ later ∧ (∀ other ∈ later, ¬ front <+: other.1) ∧
      ordered.Pairwise fun one other => compare (entry one).1 (entry other).1 = .lt := by
  apply iterator.scan_eq distinct
  intro key value
  rw [holds key value]
  constructor
  · rintro ⟨inside,begins⟩
    rcases List.mem_append.mp inside with row | counted
    · obtain ⟨event,kept,row⟩ := List.mem_flatMap.mp row
      obtain ⟨same,owned⟩ := (picks event _ row).mp begins
      exact same ▸ List.mem_map_of_mem (List.mem_filter.mpr ⟨kept,owned⟩)
    · unfold countRow at counted
      split at counted
      · cases counted
      · cases List.mem_singleton.mp counted
        exact absurd begins count
  · intro inside
    obtain ⟨event,filtered,same⟩ := List.mem_map.mp inside
    obtain ⟨kept,owned⟩ := List.mem_filter.mp filtered
    have row := mine event
    have begins := (picks event _ row).mpr ⟨rfl,owned⟩
    rw [same] at row begins
    exact ⟨List.mem_append_left _ (List.mem_flatMap.mpr ⟨event,kept,row⟩),begins⟩

theorem nodup_rows {κ : Type} {name : DomainEvent → κ} {key : DomainEvent → EventStoreKey}
    {value : DomainEvent → List UInt8} (distinct : (stored.map name).Nodup) (own : DomainEvent → Bool)
    (told : ∀ one other, key one = key other → name one = name other) :
    ((stored.filter own).map fun event => ((key event).toBytes,value event)).Nodup := by
  apply List.Nodup.map_on
  · intro one here other there same
    have named := told one other (EventStoreKey.toBytes_inj.mp (congrArg Prod.fst same))
    exact List.inj_on_of_nodup_map distinct (List.mem_of_mem_filter here) (List.mem_of_mem_filter there) named
  · exact distinct.of_map.filter _

theorem place_of_eventKey (one other : DomainEvent) (same : one.eventKey = other.eventKey) : one.place = other.place := by
  simpa [DomainEvent.eventKey,DomainEvent.place] using same

theorem place_of_blockKey (one other : DomainEvent) (same : one.blockKey = other.blockKey) : one.place = other.place := by
  simpa [DomainEvent.blockKey,DomainEvent.place] using same

theorem identity_of_txKey (one other : DomainEvent) (same : one.txKey = other.txKey) : one.identity = other.identity := by
  simpa [DomainEvent.txKey,DomainEvent.identity] using same

open EventStoreKey in
theorem scan_events (holds : Holds codec db stored) (distinct : (stored.map DomainEvent.place).Nodup) :
    ∃ (ordered : List DomainEvent) (later : List (List UInt8 × List UInt8)), ordered.Perm stored ∧
      iterator.scan db prefixForEvents = ordered.map (fun event => (event.eventKey.toBytes,codec.value event)) ++ later ∧
      ∀ other ∈ later, ¬ prefixForEvents <+: other.1 := by
  have picks : ∀ event, ∀ row ∈ rows codec event,
      prefixForEvents <+: row.1 ↔ row = (event.eventKey.toBytes,codec.value event) ∧ true := by
    intro event row inside
    simp only [rows,List.mem_cons,List.not_mem_nil,or_false] at inside
    rcases inside with rfl | rfl | rfl <;>
      simp [events_prefix_iff,toBytes_inj,DomainEvent.eventKey,DomainEvent.blockKey,DomainEvent.txKey]
  obtain ⟨ordered,later,perm,scanned,past,_⟩ := @scan_rows codec stored iterator db holds prefixForEvents (fun _ => true)
    (fun event => (event.eventKey.toBytes,codec.value event)) (nodup_rows distinct _ place_of_eventKey)
    (fun event => by simp [rows]) picks (by simp [events_prefix_iff])
  rw [List.filter_true] at perm
  exact ⟨ordered,later,perm,scanned,past⟩

open EventStoreKey in
theorem scan_block (holds : Holds codec db stored) (distinct : (stored.map DomainEvent.place).Nodup) (height : UInt64) :
    ∃ (ordered : List DomainEvent) (later : List (List UInt8 × List UInt8)),
      ordered.Perm (stored.filter fun event => event.blockHeight = height) ∧
      iterator.scan db (prefixForBlock height) = ordered.map (fun event => (event.blockKey.toBytes,[])) ++ later ∧
      (∀ other ∈ later, ¬ prefixForBlock height <+: other.1) ∧
      ordered.Pairwise fun one other => compare one.blockKey.toBytes other.blockKey.toBytes = .lt := by
  apply scan_rows holds (nodup_rows distinct _ place_of_blockKey)
  · intro event
    simp [rows]
  · intro event row inside
    simp only [rows,List.mem_cons,List.not_mem_nil,or_false] at inside
    rcases inside with rfl | rfl | rfl <;>
      simp [block_prefix_iff,toBytes_inj,DomainEvent.eventKey,DomainEvent.blockKey,DomainEvent.txKey]
  · simp [block_prefix_iff]

open EventStoreKey in
theorem scan_tx (holds : Holds codec db stored) (distinct : (stored.map DomainEvent.identity).Nodup) (txHash : B256) :
    ∃ (ordered : List DomainEvent) (later : List (List UInt8 × List UInt8)),
      ordered.Perm (stored.filter fun event => event.txHash = txHash) ∧
      iterator.scan db (prefixForTx txHash) = ordered.map (fun event => (event.txKey.toBytes,[])) ++ later ∧
      ∀ other ∈ later, ¬ prefixForTx txHash <+: other.1 := by
  have picks : ∀ event, ∀ row ∈ rows codec event,
      prefixForTx txHash <+: row.1 ↔ row = (event.txKey.toBytes,[]) ∧ decide (event.txHash = txHash) := by
    intro event row inside
    simp only [rows,List.mem_cons,List.not_mem_nil,or_false] at inside
    rcases inside with rfl | rfl | rfl <;>
      simp [tx_prefix_iff,toBytes_inj,DomainEvent.eventKey,DomainEvent.blockKey,DomainEvent.txKey]
  obtain ⟨ordered,later,perm,scanned,past,_⟩ := @scan_rows codec stored iterator db holds (prefixForTx txHash)
    (fun event => event.txHash = txHash) (fun event => (event.txKey.toBytes,[])) (nodup_rows distinct _ identity_of_txKey)
    (fun event => by simp [rows]) picks (by simp [tx_prefix_iff])
  exact ⟨ordered,later,perm,scanned,past⟩

end Scans

section Loops
variable {iterator : EventIterator} {store : RocksDbEventStore} {later : List (List UInt8 × List UInt8)}

theorem stored_value (holds : Holds codec store.db stored) {event : DomainEvent} (inside : event ∈ stored) :
    store.db[event.eventKey.toBytes]? = some (codec.value event) :=
  (holds _ _).mpr (List.mem_append_left _ (List.mem_flatMap.mpr ⟨event,inside,List.mem_cons_self⟩))

theorem begins_block {key : List UInt8} {height : UInt64} {txHash : B256} {eventIndex : UInt32}
    (read : EventStoreKey.fromBytes key = some (.blockIndex height txHash eventIndex)) :
    EventStoreKey.prefixForBlock height <+: key := by
  rw [EventStoreKey.fromBytes_iff.mp read]
  exact EventStoreKey.block_prefix_iff.mpr ⟨_,_,rfl⟩

theorem begins_tx {key : List UInt8} {txHash : B256} {eventIndex : UInt32}
    (read : EventStoreKey.fromBytes key = some (.txIndex txHash eventIndex)) : EventStoreKey.prefixForTx txHash <+: key := by
  rw [EventStoreKey.fromBytes_iff.mp read]
  exact EventStoreKey.tx_prefix_iff.mpr ⟨_,rfl⟩

theorem begins_event {key : List UInt8} {height : UInt64} {txHash : B256} {eventIndex : UInt32}
    (read : EventStoreKey.fromBytes key = some (.event height txHash eventIndex)) :
    EventStoreKey.prefixForEvents <+: key := by
  rw [EventStoreKey.fromBytes_iff.mp read]
  exact EventStoreKey.events_prefix_iff.mpr ⟨_,_,_,rfl⟩

theorem readBlock_later {height : UInt64} (past : ∀ other ∈ later, ¬ EventStoreKey.prefixForBlock height <+: other.1) :
    store.readBlock codec height later = .ok [] := by
  cases later with
  | nil => rfl
  | cons entry later =>
    obtain ⟨key,_⟩ := entry
    have other := past _ List.mem_cons_self
    unfold readBlock
    split
    · rename_i blockHeight _ _ read
      rw [if_neg]
      intro same
      exact other (same ▸ begins_block read)
    · rfl

theorem readBlock_eq {height : UInt64} {ordered : List DomainEvent} (holds : Holds codec store.db stored)
    (written : ∀ event ∈ stored, codec.format.Writes event)
    (within : ∀ event ∈ ordered, event ∈ stored ∧ event.blockHeight = height)
    (past : ∀ other ∈ later, ¬ EventStoreKey.prefixForBlock height <+: other.1) :
    store.readBlock codec height (ordered.map (fun event => (event.blockKey.toBytes,[])) ++ later) = .ok ordered := by
  induction ordered with
  | nil => exact readBlock_later past
  | cons event ordered ih =>
    obtain ⟨inside,own⟩ := within event List.mem_cons_self
    have found := stored_value holds inside
    have rest := ih fun e member => within e (List.mem_cons_of_mem _ member)
    rw [List.map_cons,List.cons_append]
    generalize ordered.map _ ++ later = entries at rest ⊢
    unfold DomainEvent.eventKey at found
    rw [readBlock,EventStoreKey.fromBytes_toBytes]
    dsimp only [DomainEvent.blockKey]
    rw [if_pos own,found]
    dsimp only
    rw [EventCodec.fromSlice_value (written event inside),rest]
    rfl

theorem findEvent_eq {ordered : List DomainEvent} {event : DomainEvent} (written : codec.format.Writes event)
    (distinct : (ordered.map DomainEvent.identity).Nodup) (inside : event ∈ ordered) :
    findEvent codec event.txHash event.eventIndex
      (ordered.map (fun event => (event.eventKey.toBytes,codec.value event)) ++ later) = .ok (some event) := by
  induction ordered with
  | nil => cases inside
  | cons head ordered ih =>
    rw [List.map_cons,List.cons_append,findEvent,EventStoreKey.fromBytes_toBytes]
    dsimp only [DomainEvent.eventKey]
    by_cases same : head.txHash = event.txHash ∧ head.eventIndex = event.eventIndex
    · have equal : head = event := List.inj_on_of_nodup_map distinct List.mem_cons_self inside (Prod.ext same.1 same.2)
      subst equal
      rw [if_pos same,EventCodec.fromSlice_value written]
      rfl
    · have other : event ∈ ordered := by
        rcases List.mem_cons.mp inside with equal | other
        · exact absurd ⟨equal ▸ rfl,equal ▸ rfl⟩ same
        · exact other
      rw [if_neg same]
      exact ih (List.nodup_cons.mp distinct).2 other

theorem readTx_later {txHash : B256} (past : ∀ other ∈ later, ¬ EventStoreKey.prefixForTx txHash <+: other.1) :
    store.readTx codec iterator txHash later = .ok [] := by
  cases later with
  | nil => rfl
  | cons entry later =>
    obtain ⟨key,_⟩ := entry
    have other := past _ List.mem_cons_self
    unfold readTx
    split
    · rename_i keyTxHash _ read
      rw [if_neg]
      intro same
      exact other (same ▸ begins_tx read)
    · rfl

theorem readTx_eq {txHash : B256} {ordered : List DomainEvent} (holds : Holds codec store.db stored)
    (written : ∀ event ∈ stored, codec.format.Writes event) (distinct : (stored.map DomainEvent.identity).Nodup)
    (within : ∀ event ∈ ordered, event ∈ stored ∧ event.txHash = txHash)
    (past : ∀ other ∈ later, ¬ EventStoreKey.prefixForTx txHash <+: other.1) :
    store.readTx codec iterator txHash (ordered.map (fun event => (event.txKey.toBytes,[])) ++ later) = .ok ordered := by
  induction ordered with
  | nil => exact readTx_later past
  | cons event ordered ih =>
    obtain ⟨inside,own⟩ := within event List.mem_cons_self
    obtain ⟨listed,rest,perm,scanned,_⟩ := @scan_events codec stored iterator store.db holds
      (DomainEvent.places_nodup distinct)
    have found := @findEvent_eq codec rest listed event (written event inside)
      ((perm.map DomainEvent.identity).nodup_iff.mpr distinct) (perm.mem_iff.mpr inside)
    have more := ih fun e member => within e (List.mem_cons_of_mem _ member)
    rw [List.map_cons,List.cons_append]
    generalize ordered.map _ ++ later = entries at more ⊢
    rw [own] at found
    rw [readTx,EventStoreKey.fromBytes_toBytes]
    dsimp only [DomainEvent.txKey]
    rw [if_pos own,scanned,found,more]
    rfl

theorem readInvolved_eq {address : Address} {ordered : List DomainEvent}
    (written : ∀ event ∈ ordered, codec.format.Writes event)
    (past : ∀ other ∈ later, ¬ EventStoreKey.prefixForEvents <+: other.1) :
    readInvolved codec address (ordered.map (fun event => (event.eventKey.toBytes,codec.value event)) ++ later) =
      .ok (ordered.filter fun event => eventInvolvesAddress event.event address) := by
  induction ordered with
  | nil =>
    cases later with
    | nil => rfl
    | cons entry later =>
      obtain ⟨key,_⟩ := entry
      have other := past _ List.mem_cons_self
      rw [List.map_nil,List.nil_append,readInvolved]
      split
      · rename_i read
        exact absurd (begins_event read) other
      · rfl
  | cons event ordered ih =>
    have rest := ih fun e member => written e (List.mem_cons_of_mem _ member)
    rw [List.map_cons,List.cons_append]
    generalize ordered.map _ ++ later = entries at rest ⊢
    rw [readInvolved,EventStoreKey.fromBytes_toBytes]
    dsimp only [DomainEvent.eventKey]
    rw [EventCodec.fromSlice_value (written event List.mem_cons_self),rest,List.filter_cons]
    rfl

end Loops

section Queries
variable {store : RocksDbEventStore}

theorem mapM_ok {κ : Type} {f : κ → Except EventStoreError (List DomainEvent)} {P : κ → List DomainEvent → Prop}
    (each : ∀ k, ∃ found, f k = .ok found ∧ P k found) (ks : List κ) :
    ∃ found, ks.mapM f = .ok found ∧ List.Forall₂ P ks found := by
  induction ks with
  | nil => exact ⟨[],rfl,.nil⟩
  | cons k ks ih =>
    obtain ⟨first,read,own⟩ := each k
    obtain ⟨rest,others,all⟩ := ih
    refine ⟨first :: rest,?_,.cons own all⟩
    rw [List.mapM_cons,read,others]
    rfl

def Before (one other : DomainEvent) : Prop :=
  one.blockHeight < other.blockHeight ∨
    one.blockHeight = other.blockHeight ∧ compare one.blockKey.toBytes other.blockKey.toBytes = .lt

theorem heights_rising (lowest highest : UInt64) : (heights lowest highest).Pairwise (· < ·) := by
  have limit := highest.toNat_lt
  apply List.pairwise_map.mpr
  apply List.Pairwise.imp_of_mem _ List.pairwise_lt_range'
  intro n m low high less
  rw [List.mem_range'_1] at low high
  have below : m < UInt64.size := by
    rw [UInt64.size]
    omega
  rw [UInt64.lt_iff_toNat_lt,UInt64.toNat_ofNat_of_lt' (Nat.lt_trans less below),UInt64.toNat_ofNat_of_lt' below]
  exact less

theorem blocks_before {ks : List UInt64} {found : List (List DomainEvent)} (rising : ks.Pairwise (· < ·))
    (blocks : List.Forall₂ (fun height block => block.Perm (stored.filter fun event => event.blockHeight = height) ∧
      block.Pairwise fun one other => compare one.blockKey.toBytes other.blockKey.toBytes = .lt) ks found) :
    found.flatten.Perm (ks.flatMap fun height => stored.filter fun event => event.blockHeight = height) ∧
      found.flatten.Pairwise Before := by
  induction blocks with
  | nil => exact ⟨.nil,.nil⟩
  | @cons height block ks found own _ ih =>
    obtain ⟨perm,sorted⟩ := own
    obtain ⟨later,rest⟩ := List.pairwise_cons.mp rising
    obtain ⟨perms,behind⟩ := ih rest
    have here : ∀ event ∈ block, event.blockHeight = height := by
      intro event inside
      simpa using (List.mem_filter.mp (perm.mem_iff.mp inside)).2
    refine ⟨perm.append perms,List.pairwise_append.mpr ⟨?_,behind,?_⟩⟩
    · apply sorted.imp_of_mem
      intro one other first second lower
      exact Or.inr ⟨(here one first).trans (here other second).symm,lower⟩
    · intro one first other second
      obtain ⟨next,listed,inside⟩ := List.mem_flatMap.mp (perms.mem_iff.mp second)
      have there : other.blockHeight = next := by simpa using (List.mem_filter.mp inside).2
      left
      rw [here one first,there]
      exact later next listed

theorem getByBlockRange_eq (iterator : EventIterator) (holds : Holds codec store.db stored)
    (written : ∀ event ∈ stored, codec.format.Writes event) (distinct : (stored.map DomainEvent.place).Nodup)
    (fromHeight toHeight : UInt64) : ∃ found, store.getByBlockRange codec iterator fromHeight toHeight = .ok found ∧
      found.Perm ((heights fromHeight toHeight).flatMap fun height => stored.filter fun event => event.blockHeight = height) ∧
      found.Pairwise Before := by
  have each : ∀ height, ∃ found, store.readBlock codec height
      (iterator.scan store.db (EventStoreKey.prefixForBlock height)) = .ok found ∧
        found.Perm (stored.filter fun event => event.blockHeight = height) ∧
        found.Pairwise fun one other => compare one.blockKey.toBytes other.blockKey.toBytes = .lt := by
    intro height
    obtain ⟨ordered,later,perm,scanned,past,sorted⟩ := @scan_block codec stored iterator store.db holds distinct height
    refine ⟨ordered,?_,perm,sorted⟩
    rw [scanned]
    apply readBlock_eq holds written _ past
    intro event inside
    simpa using perm.mem_iff.mp inside
  obtain ⟨found,read,blocks⟩ := mapM_ok each (heights fromHeight toHeight)
  refine ⟨found.flatten,?_,blocks_before (heights_rising _ _) blocks⟩
  unfold getByBlockRange
  rw [read]
  rfl

theorem mem_heights {lowest highest height : UInt64} :
    height ∈ heights lowest highest ↔ lowest ≤ height ∧ height ≤ highest := by
  unfold heights
  rw [List.mem_map,UInt64.le_iff_toNat_le,UInt64.le_iff_toNat_le]
  constructor
  · intro ⟨n,inside,same⟩
    rw [List.mem_range'_1] at inside
    have limit := highest.toNat_lt
    have below : n < UInt64.size := by
      rw [UInt64.size]
      omega
    rw [← same,UInt64.toNat_ofNat_of_lt' below]
    omega
  · intro ⟨low,high⟩
    refine ⟨height.toNat,?_,UInt64.ofNat_toNat⟩
    rw [List.mem_range'_1]
    omega

theorem Before.irrefl (event : DomainEvent) : ¬Before event event := by
  intro before
  rcases before with lower | ⟨_,lower⟩
  · exact UInt64.lt_irrefl _ lower
  · rw [Std.ReflOrd.compare_self] at lower
    cases lower

def Readable (codec : EventCodec) (iterator : EventIterator) (store : RocksDbEventStore) (events : List DomainEvent) : Prop :=
  ∀ fromHeight toHeight, ∃ found, store.getByBlockRange codec iterator fromHeight toHeight = .ok found ∧
    found.Perm (events.filter fun event => fromHeight ≤ event.blockHeight ∧ event.blockHeight ≤ toHeight)

theorem readable_of_holds (iterator : EventIterator) (holds : Holds codec store.db stored)
    (written : ∀ event ∈ stored, codec.format.Writes event) (distinct : (stored.map DomainEvent.place).Nodup) :
    Readable codec iterator store stored := by
  intro fromHeight toHeight
  obtain ⟨found,read,perm,before⟩ := getByBlockRange_eq iterator holds written distinct fromHeight toHeight
  refine ⟨found,read,?_⟩
  have once : found.Nodup := by
    apply List.Pairwise.imp _ before
    intro one other lower same
    exact Before.irrefl other (same ▸ lower)
  apply (List.perm_ext_iff_of_nodup once (distinct.of_map.filter _)).mpr
  intro event
  rw [perm.mem_iff,List.mem_flatMap,List.mem_filter]
  constructor
  · intro ⟨height,listed,inside⟩
    obtain ⟨member,own⟩ := List.mem_filter.mp inside
    obtain rfl := of_decide_eq_true own
    exact ⟨member,by simpa using mem_heights.mp listed⟩
  · intro ⟨member,within⟩
    refine ⟨event.blockHeight,mem_heights.mpr (by simpa using within),?_⟩
    exact List.mem_filter.mpr ⟨member,by simp⟩

theorem getByTx_eq (iterator : EventIterator) (holds : Holds codec store.db stored)
    (written : ∀ event ∈ stored, codec.format.Writes event) (distinct : (stored.map DomainEvent.identity).Nodup)
    (txHash : B256) : ∃ found, store.getByTx codec iterator txHash = .ok found ∧
      found.Perm (stored.filter fun event => event.txHash = txHash) ∧
      found.Pairwise fun one other => one.eventIndex ≤ other.eventIndex := by
  obtain ⟨ordered,later,perm,scanned,past⟩ := @scan_tx codec stored iterator store.db holds distinct txHash
  have read : store.readTx codec iterator txHash (iterator.scan store.db (EventStoreKey.prefixForTx txHash)) = .ok ordered := by
    rw [scanned]
    apply readTx_eq holds written distinct _ past
    intro event inside
    simpa using perm.mem_iff.mp inside
  refine ⟨ordered.mergeSort fun one other => one.eventIndex ≤ other.eventIndex,?_,
    (List.mergeSort_perm ordered _).trans perm,?_⟩
  · unfold getByTx
    rw [read]
    rfl
  · have sorted := @List.pairwise_mergeSort _ (fun one other : DomainEvent => one.eventIndex ≤ other.eventIndex)
      (by simpa using fun _ _ _ => UInt32.le_trans) (by simpa using fun _ _ => UInt32.le_total _ _) ordered
    simpa using sorted

theorem getByAddress_eq (iterator : EventIterator) (holds : Holds codec store.db stored)
    (written : ∀ event ∈ stored, codec.format.Writes event) (distinct : (stored.map DomainEvent.identity).Nodup)
    (address : Address) {limit : Nat} (enough : stored.length ≤ limit) :
    ∃ found, store.getByAddress codec iterator address limit = .ok found ∧
      found.Perm (stored.filter fun event => eventInvolvesAddress event.event address) := by
  obtain ⟨ordered,later,perm,scanned,past⟩ := @scan_events codec stored iterator store.db holds
    (DomainEvent.places_nodup distinct)
  have read := @readInvolved_eq codec later address ordered (fun event inside => written event (perm.mem_iff.mp inside)) past
  rw [← scanned] at read
  have sorted := (List.mergeSort_perm (ordered.filter fun event => eventInvolvesAddress event.event address)
    fun one other => other.blockHeight ≤ one.blockHeight).trans (perm.filter _)
  refine ⟨_,?_,sorted⟩
  unfold getByAddress
  rw [read]
  refine congrArg Except.ok (List.take_of_length_le ?_)
  rw [sorted.length_eq]
  exact (List.length_filter_le ..).trans enough

end Queries

end RocksDbEventStore
-- Both stores answer alike after any appended batches, whatever the limit of the buffer.
theorem event_stores_agree (codec : EventCodec) (iterator : EventIterator) (bufferLimit : Nat)
    (batches : List (List DomainEvent)) (written : ∀ event ∈ batches.flatten, codec.format.Writes event)
    (distinct : (batches.flatten.map fun event => (event.txHash,event.eventIndex)).Nodup) :
    ∃ store : RocksDbEventStore,
      RocksDbEventStore.appends codec {bufferLimit:=bufferLimit} batches = (.ok (),store) ∧
      store.count = .ok (batches.foldl InMemoryEventStore.append {}).count ∧
      (∀ fromHeight toHeight, ∃ one other,
        (batches.foldl InMemoryEventStore.append {}).getByBlockRange fromHeight toHeight = some one ∧
        store.getByBlockRange codec iterator fromHeight toHeight = .ok other ∧ other.Perm one) ∧
      (∀ txHash, ∃ one other, (batches.foldl InMemoryEventStore.append {}).getByTx txHash = some one ∧
        store.getByTx codec iterator txHash = .ok other ∧ other.Perm one ∧
        other.Pairwise fun before after => before.eventIndex ≤ after.eventIndex) ∧
      ∀ address limit, batches.flatten.length ≤ limit → ∃ other,
        store.getByAddress codec iterator address limit = .ok other ∧
        other.Perm ((batches.foldl InMemoryEventStore.append {}).getByAddress address limit) := by
  obtain ⟨indexed,events⟩ := InMemoryEventStore.appends_indexed batches
  obtain ⟨store,appended,holds⟩ := @RocksDbEventStore.appends_eq codec [] {bufferLimit:=bufferLimit} batches batches.flatten
    RocksDbEventStore.holds_empty rfl written (DomainEvent.places_nodup distinct)
  refine ⟨store,appended,?_,?_,?_,?_⟩
  · rw [RocksDbEventStore.count_eq holds,InMemoryEventStore.count,events]
  · intro fromHeight toHeight
    obtain ⟨found,read,perm,_⟩ := RocksDbEventStore.getByBlockRange_eq iterator holds written
      (DomainEvent.places_nodup distinct) fromHeight toHeight
    have memory := InMemoryEventStore.getByBlockRange_eq indexed fromHeight toHeight
    rw [events] at memory
    exact ⟨_,found,memory,read,perm⟩
  · intro txHash
    obtain ⟨found,read,perm,sorted⟩ := RocksDbEventStore.getByTx_eq iterator holds written distinct txHash
    have memory := InMemoryEventStore.getByTx_eq indexed txHash
    rw [events] at memory
    exact ⟨_,found,memory,read,perm,sorted⟩
  · intro address limit enough
    obtain ⟨found,read,perm⟩ := RocksDbEventStore.getByAddress_eq iterator holds written distinct address enough
    have memory := @InMemoryEventStore.getByAddress_eq (batches.foldl .append {}) address limit (events ▸ enough)
    rw [events] at memory
    exact ⟨found,read,memory ▸ perm.trans ((List.reverse_perm _).filter _).symm⟩

namespace Bench
open Borsh.Format

def depositedFormat : Format Event :=
  enum (fun event => match event with | .balanceChanged _ _ _ _ _ => 0 | _ => 1)
    [(Address.format.pair (u32.pair (u128.pair (u128.pair (enum (fun reason => if reason = .deposit then 0 else 1)
        [only BalanceChangeReason.deposit] (by
      simp only [List.zipIdx_cons,List.zipIdx_nil,List.forall_mem_cons]
      refine ⟨fun reason _ written => ?_,List.forall_mem_nil _⟩
      rw [encode_only written]
      rfl)))))).variant (fun (address,assetId,old,new,reason) => .balanceChanged address assetId old new reason)
      (fun event => match event with
        | .balanceChanged address assetId old new reason => some (address,assetId,old,new,reason)
        | _ => none) (by rintro ⟨_,_,_,_,_⟩ event; cases event <;> simp [eq_comm])] (by
  simp only [List.zipIdx_cons,List.zipIdx_nil,List.forall_mem_cons]
  refine ⟨?_,List.forall_mem_nil _⟩
  intro event _ written
  obtain ⟨_,known⟩ := encode_iso written
  cases event <;> first | rfl | cases known)

def deposits : EventCodec where
  format := (u64Format.pair (hashFormat.pair (u32Format.pair (u64Format.pair depositedFormat)))).via
    (fun (height,hash,index,timestamp,event) => ⟨height,hash,index,timestamp,event⟩)
    (fun e => (e.blockHeight,e.txHash,e.eventIndex,e.timestamp,e.event)) (fun _ => rfl) (fun _ => rfl)
  toVecError _ := ""
  fromSliceError _ := ""

def deposited (height : UInt64) (txHash : B256) (index : UInt32) : DomainEvent :=
  ⟨height,txHash,index,0,.balanceChanged alice 0 0 5 .deposit⟩

theorem deposited_writes (height : UInt64) (txHash : B256) (index : UInt32) :
    deposits.format.Writes (deposited height txHash index) := by
  have known : (depositedFormat.encode (.balanceChanged alice 0 0 5 .deposit)).isSome = true := by decide +kernel
  obtain ⟨data,encoded⟩ := Option.isSome_iff_exists.mp known
  apply Format.writes_iff.mpr
  exact ⟨_,encode_pair (encode_u64 height) (encode_pair (encode_hash txHash)
    (encode_pair (encode_u32 index) (encode_pair (encode_u64 0) encoded)))⟩

end Bench

open Bench in
theorem event_stores_agree_deposits : ∃ store : RocksDbEventStore,
    RocksDbEventStore.appends deposits ⟨∅,[],2⟩ [[deposited 256 7 1,deposited 1 7 0],[deposited 1 9 0]] = (.ok (),store) ∧
      store.count = .ok 3 ∧ ∃ found, store.getByTx deposits OrderedStore.PrefixIterator.seeking 7 = .ok found ∧
        found.Perm [deposited 256 7 1,deposited 1 7 0] := by
  have written : ∀ event ∈ [deposited 256 7 1,deposited 1 7 0,deposited 1 9 0],deposits.format.Writes event := by
    simp [deposited_writes]
  obtain ⟨store,appended,counted,_,byTx,_⟩ := event_stores_agree deposits .seeking 2
    [[deposited 256 7 1,deposited 1 7 0],[deposited 1 9 0]] written (by decide +kernel)
  obtain ⟨one,found,memory,read,perm,_⟩ := byTx 7
  have known : one = [deposited 256 7 1,deposited 1 7 0] := by
    apply Option.some.inj
    rw [← memory]
    decide +kernel
  exact ⟨store,appended,counted,found,read,known ▸ perm⟩

end Pranklin
