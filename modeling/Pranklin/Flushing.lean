import Pranklin.EventStores
import Pranklin.Fronts

namespace Pranklin
open Borsh

structure DbFaults where
  get : Option String := none
  write : Option String := none

namespace RocksDbEventStore

def attempt (fault : Option String) : Except EventStoreError Unit :=
  match fault with
  | some message => .error (.rocksDbError message)
  | none => .ok ()

-- `flush` on a database that may fail. A batch is written as a whole or not at all.
def flushWith (codec : EventCodec) (faults : DbFaults) (store : RocksDbEventStore) :
    Except EventStoreError Unit × RocksDbEventStore :=
  if store.writeBuffer.isEmpty then (.ok (),store)
  else
    let drained := {store with writeBuffer:=[]}
    let batch : Except EventStoreError (List (List UInt8 × List UInt8)) := do
      let batch ← store.writeBuffer.mapM (puts codec)
      attempt faults.get
      let count ← drained.count
      let count := count + UInt64.ofNat store.writeBuffer.length
      attempt faults.write
      return batch.flatten ++ [(EventStoreKey.metaCount.toBytes,littleEndian 8 count.toNat)]
    match batch with
    | .error e => (.error e,drained)
    | .ok batch => (.ok (),{drained with db:=store.db.insertMany batch})

def appendWith (codec : EventCodec) (faults : DbFaults) (store : RocksDbEventStore) (events : List DomainEvent) :
    Except EventStoreError Unit × RocksDbEventStore :=
  let extended := {store with writeBuffer:=store.writeBuffer ++ events}
  if extended.bufferLimit ≤ extended.writeBuffer.length then extended.flushWith codec faults else (.ok (),extended)

end RocksDbEventStore

inductive StoreCall where
  | append (events : List DomainEvent) (faults : DbFaults)
  | flush (faults : DbFaults)

namespace StoreCall
open RocksDbEventStore

def perform (codec : EventCodec) (store : RocksDbEventStore) : StoreCall → Except EventStoreError Unit × RocksDbEventStore
  | .append events faults => store.appendWith codec faults events
  | .flush faults => store.flushWith codec faults

def appended : StoreCall → List DomainEvent
  | .append events _ => events
  | .flush _ => []

def faults : StoreCall → DbFaults
  | .append _ faults | .flush faults => faults

def run (codec : EventCodec) (store : RocksDbEventStore) (calls : List StoreCall) : RocksDbEventStore :=
  calls.foldl (fun store call => (call.perform codec store).2) store

end StoreCall

namespace RocksDbEventStore
variable {codec : EventCodec} {faults : DbFaults} {store : RocksDbEventStore} {stored events : List DomainEvent}

theorem flushWith_none (codec : EventCodec) (store : RocksDbEventStore) :
    store.flushWith codec {} = store.flush codec := rfl

theorem appendWith_none (codec : EventCodec) (store : RocksDbEventStore) (events : List DomainEvent) :
    store.appendWith codec {} events = store.append codec events := rfl

-- The buffer can go to the database: there is nothing in it, or each event has its bytes and
-- the database answers.
def Flushable (codec : EventCodec) (faults : DbFaults) (buffer : List DomainEvent) : Prop :=
  buffer = [] ∨ (∀ event ∈ buffer, codec.format.Writes event) ∧ faults.get = none ∧ faults.write = none

instance : Decidable (Flushable codec faults events) :=
  have (event : DomainEvent) : Decidable (codec.format.Writes event) :=
    inferInstanceAs (Decidable ((codec.format.encode event).isSome = true))
  inferInstanceAs (Decidable (_ ∨ _ ∧ _ ∧ _))

theorem flushWith_able (able : Flushable codec faults store.writeBuffer) :
    store.flushWith codec faults = store.flush codec := by
  rcases able with bare | ⟨_,get,write⟩
  · unfold flushWith flush
    rw [if_pos (by simpa using bare),if_pos (by simpa using bare)]
  · obtain ⟨_,_⟩ := faults
    subst get write
    rfl

theorem mapM_puts_error (unwritten : ∃ event ∈ events, ¬codec.format.Writes event) :
    ∃ error, events.mapM (puts codec) = .error error := by
  induction events with
  | nil =>
    obtain ⟨_,inside,_⟩ := unwritten
    cases inside
  | cons event events ih =>
    by_cases written : codec.format.Writes event
    · have later : ∃ other ∈ events, ¬codec.format.Writes other := by
        obtain ⟨other,inside,lost⟩ := unwritten
        rcases List.mem_cons.mp inside with rfl | inside
        · exact absurd written lost
        · exact ⟨other,inside,lost⟩
      obtain ⟨error,failed⟩ := ih later
      refine ⟨error,?_⟩
      rw [List.mapM_cons,puts_eq written,failed]
      rfl
    · refine ⟨.serializationError (codec.toVecError event),?_⟩
      have none : codec.format.encode event = none := by
        unfold Format.Writes at written
        simpa using written
      rw [List.mapM_cons,puts,EventCodec.toVec,none]
      rfl

theorem flushWith_unable (unable : ¬Flushable codec faults store.writeBuffer) :
    ∃ error, store.flushWith codec faults = (.error error,{store with writeBuffer:=[]}) := by
  unfold Flushable at unable
  simp only [not_or,not_and] at unable
  obtain ⟨filled,broken⟩ := unable
  unfold flushWith
  rw [if_neg (by simpa using filled)]
  dsimp only
  by_cases written : ∀ event ∈ store.writeBuffer, codec.format.Writes event
  · rw [mapM_puts written]
    cases get : faults.get with
    | some message => exact ⟨_,rfl⟩
    | none =>
      cases counted : count {store with writeBuffer:=[]} with
      | error error => exact ⟨error,rfl⟩
      | ok n =>
        cases write : faults.write with
        | some message => exact ⟨_,rfl⟩
        | none => exact absurd write (broken written get)
  · obtain ⟨error,failed⟩ := @mapM_puts_error codec store.writeBuffer (by simpa using written)
    rw [failed]
    exact ⟨error,rfl⟩

end RocksDbEventStore

namespace StoreCall
open RocksDbEventStore
variable {codec : EventCodec} {iterator : EventIterator} {store : RocksDbEventStore} {call : StoreCall}
  {stored events : List DomainEvent}

def buffered (store : RocksDbEventStore) (call : StoreCall) : List DomainEvent := store.writeBuffer ++ call.appended

def Flushes (store : RocksDbEventStore) (call : StoreCall) : Prop :=
  match call with
  | .append _ _ => store.bufferLimit ≤ (call.buffered store).length
  | .flush _ => True

instance : Decidable (call.Flushes store) :=
  match call with
  | .append _ _ => inferInstanceAs (Decidable (_ ≤ _))
  | .flush _ => inferInstanceAs (Decidable True)

theorem perform_eq (codec : EventCodec) (store : RocksDbEventStore) (call : StoreCall) :
    (call.Flushes store ∧
        call.perform codec store = flushWith codec call.faults {store with writeBuffer:=call.buffered store}) ∨
      (¬call.Flushes store ∧ call.perform codec store = (.ok (),{store with writeBuffer:=call.buffered store})) := by
  cases call with
  | append events faults =>
    unfold Flushes perform appendWith
    dsimp only
    split
    · rename_i full
      exact .inl ⟨full,rfl⟩
    · rename_i room
      exact .inr ⟨room,rfl⟩
  | flush faults =>
    have same : buffered store (.flush faults) = store.writeBuffer := List.append_nil _
    rw [same]
    exact .inl ⟨trivial,rfl⟩

def Able (codec : EventCodec) (store : RocksDbEventStore) (call : StoreCall) : Prop :=
  call.Flushes store → Flushable codec call.faults (call.buffered store)

instance : Decidable (call.Able codec store) := inferInstanceAs (Decidable (_ → _))

-- Every event is readable in the database or in the buffer, and nothing else is.
def NothingLost (codec : EventCodec) (iterator : EventIterator) (store : RocksDbEventStore) (events : List DomainEvent) : Prop :=
  ∃ readable, Readable codec iterator store readable ∧ (readable ++ store.writeBuffer).Perm events

theorem NothingLost.readable (kept : NothingLost codec iterator store events) (bare : store.writeBuffer = []) :
    Readable codec iterator store events := by
  obtain ⟨readable,reads,perm⟩ := kept
  rw [bare,List.append_nil] at perm
  intro fromHeight toHeight
  obtain ⟨found,read,same⟩ := reads fromHeight toHeight
  exact ⟨found,read,same.trans (perm.filter _)⟩

structure Accounted (codec : EventCodec) (store : RocksDbEventStore) (stored events : List DomainEvent) : Prop where
  holds : Holds codec store.db stored
  written : ∀ event ∈ stored, codec.format.Writes event
  whole : stored ++ store.writeBuffer = events

theorem Accounted.nothingLost (accounted : Accounted codec store stored events)
    (distinct : (events.map DomainEvent.place).Nodup) (iterator : EventIterator) :
    NothingLost codec iterator store events := by
  have whole := accounted.whole
  subst whole
  refine ⟨stored,readable_of_holds iterator accounted.holds accounted.written ?_,.rfl⟩
  exact distinct.sublist ((List.sublist_append_left ..).map _)

theorem Accounted.perform (accounted : Accounted codec store stored events) (able : call.Able codec store)
    (distinct : ((events ++ call.appended).map DomainEvent.place).Nodup) :
    ∃ kept, Accounted codec (call.perform codec store).2 kept (events ++ call.appended) := by
  have whole : stored ++ call.buffered store = events ++ call.appended := by
    rw [buffered,← List.append_assoc,accounted.whole]
  rcases perform_eq codec store call with ⟨flushes,performed⟩ | ⟨_,performed⟩
  · have flushable := able flushes
    have written : ∀ event ∈ events ++ call.appended, codec.format.Writes event := by
      intro event inside
      rw [← whole] at inside
      rcases List.mem_append.mp inside with old | new
      · exact accounted.written event old
      · rcases flushable with bare | ⟨all,_⟩
        · rw [bare] at new
          cases new
        · exact all event new
    obtain ⟨db,flushed,held⟩ := @flush_eq codec stored {store with writeBuffer:=call.buffered store} _ accounted.holds whole
      written distinct
    rw [performed,flushWith_able flushable,flushed]
    exact ⟨_,held,written,List.append_nil _⟩
  · rw [performed]
    exact ⟨stored,accounted.holds,accounted.written,whole⟩

theorem whole_range (events : List DomainEvent) :
    (events.filter fun event => (0 : UInt64) ≤ event.blockHeight ∧ event.blockHeight ≤ .ofNat (UInt64.size - 1)) = events := by
  apply List.filter_eq_self.mpr
  intro event _
  have limit := event.blockHeight.toNat_lt
  have last : (UInt64.ofNat (UInt64.size - 1)).toNat = UInt64.size - 1 := UInt64.toNat_ofNat_of_lt' (by decide)
  have high : event.blockHeight ≤ .ofNat (UInt64.size - 1) := by
    rw [UInt64.le_iff_toNat_le,last,UInt64.size]
    omega
  simpa using high

theorem readable_perm {one other : List DomainEvent} (first : Readable codec iterator store one)
    (second : Readable codec iterator store other) : one.Perm other := by
  obtain ⟨found,read,all⟩ := first 0 (.ofNat (UInt64.size - 1))
  obtain ⟨again,reread,every⟩ := second 0 (.ofNat (UInt64.size - 1))
  cases read.symm.trans reread
  rw [whole_range] at all every
  exact all.symm.trans every

theorem Accounted.lost (accounted : Accounted codec store stored events) (unable : ¬call.Able codec store)
    (distinct : ((events ++ call.appended).map DomainEvent.place).Nodup) (iterator : EventIterator) :
    ¬NothingLost codec iterator (call.perform codec store).2 (events ++ call.appended) := by
  unfold Able at unable
  push Not at unable
  obtain ⟨flushes,broken⟩ := unable
  rcases perform_eq codec store call with ⟨_,performed⟩ | ⟨idle,_⟩
  · obtain ⟨error,failed⟩ := @flushWith_unable codec call.faults {store with writeBuffer:=call.buffered store} broken
    rw [performed,failed]
    intro ⟨readable,reads,perm⟩
    have whole : stored ++ call.buffered store = events ++ call.appended := by
      rw [buffered,← List.append_assoc,accounted.whole]
    rw [← whole] at perm distinct
    have rows : Readable codec iterator {store with writeBuffer:=[]} stored :=
      readable_of_holds iterator accounted.holds accounted.written
        (distinct.sublist ((List.sublist_append_left ..).map _))
    have lengths := (readable_perm reads rows).length_eq
    have sum := perm.length_eq
    rw [List.length_append,List.length_append,lengths] at sum
    apply broken
    left
    apply List.eq_nil_of_length_eq_zero
    simpa using sum.symm
  · exact absurd flushes idle

end StoreCall

namespace StoreCall
open RocksDbEventStore
variable {codec : EventCodec} {store : RocksDbEventStore} {stored : List DomainEvent}

def flushed (codec : EventCodec) (store : RocksDbEventStore) (call : StoreCall) : List DomainEvent :=
  if call.Flushes store ∧ Flushable codec call.faults (call.buffered store) then call.buffered store else []

def flushedBy (codec : EventCodec) (store : RocksDbEventStore) : List StoreCall → List DomainEvent
  | [] => []
  | call :: calls => call.flushed codec store ++ flushedBy codec (call.perform codec store).2 calls

theorem flushedBy_once {bufferLimit : Nat} {events : List DomainEvent} (room : events.length < bufferLimit)
    (written : ∀ event ∈ events, codec.format.Writes event) :
    flushedBy codec {bufferLimit:=bufferLimit} [.append events {},.flush {}] = events := by
  have waits : ¬Flushes {bufferLimit:=bufferLimit} (.append events {}) := Nat.not_le.mpr room
  have waiting : perform codec {bufferLimit:=bufferLimit} (.append events {}) =
      (.ok (),{bufferLimit:=bufferLimit,writeBuffer:=events}) := if_neg waits
  have held : buffered {bufferLimit:=bufferLimit,writeBuffer:=events} (.flush {}) = events := List.append_nil events
  have none : flushed codec {bufferLimit:=bufferLimit} (.append events {}) = [] := if_neg fun both => waits both.1
  have all : flushed codec {bufferLimit:=bufferLimit,writeBuffer:=events} (.flush {}) = events := by
    unfold flushed
    rw [held]
    exact if_pos ⟨trivial,.inr ⟨written,rfl,rfl⟩⟩
  rw [flushedBy,flushedBy,flushedBy,none,waiting,all,List.append_nil]
  rfl

theorem perform_holds (holds : Holds codec store.db stored) (written : ∀ event ∈ stored, codec.format.Writes event)
    (call : StoreCall) (distinct : ((stored ++ call.flushed codec store).map DomainEvent.place).Nodup) :
    Holds codec (call.perform codec store).2.db (stored ++ call.flushed codec store) ∧
      ∀ event ∈ stored ++ call.flushed codec store, codec.format.Writes event := by
  rcases perform_eq codec store call with ⟨flushes,performed⟩ | ⟨idle,performed⟩
  · by_cases able : Flushable codec call.faults (call.buffered store)
    · have brought : call.flushed codec store = call.buffered store := if_pos ⟨flushes,able⟩
      rw [brought] at distinct ⊢
      have all : ∀ event ∈ stored ++ call.buffered store, codec.format.Writes event := by
        intro event inside
        rcases List.mem_append.mp inside with old | new
        · exact written event old
        · rcases able with bare | ⟨each,_⟩
          · rw [bare] at new
            cases new
          · exact each event new
      obtain ⟨db,done,held⟩ := @flush_eq codec stored {store with writeBuffer:=call.buffered store} _ holds rfl all distinct
      rw [performed,flushWith_able able,done]
      exact ⟨held,all⟩
    · have brought : call.flushed codec store = [] := if_neg fun both => able both.2
      obtain ⟨error,failed⟩ := @flushWith_unable codec call.faults {store with writeBuffer:=call.buffered store} able
      rw [brought,List.append_nil,performed,failed]
      exact ⟨holds,written⟩
  · have brought : call.flushed codec store = [] := if_neg fun both => idle both.1
    rw [brought,List.append_nil,performed]
    exact ⟨holds,written⟩

theorem run_holds (holds : Holds codec store.db stored) (written : ∀ event ∈ stored, codec.format.Writes event)
    (calls : List StoreCall) (distinct : ((stored ++ flushedBy codec store calls).map DomainEvent.place).Nodup) :
    Holds codec (run codec store calls).db (stored ++ flushedBy codec store calls) ∧
      ∀ event ∈ stored ++ flushedBy codec store calls, codec.format.Writes event := by
  induction calls generalizing store stored with
  | nil =>
    rw [flushedBy,List.append_nil]
    exact ⟨holds,written⟩
  | cons call calls ih =>
    rw [flushedBy,← List.append_assoc] at distinct ⊢
    obtain ⟨held,all⟩ := perform_holds holds written call
      (distinct.sublist ((List.sublist_append_left ..).map DomainEvent.place))
    exact ih held all distinct

end StoreCall

open StoreCall RocksDbEventStore in
-- Along the calls no event is lost exactly when every flush that the calls come to can be
-- carried out: what a failing one has drained is not put back.
theorem StoreCall.nothing_lost_iff (codec : EventCodec) (iterator : EventIterator) (bufferLimit : Nat) (calls : List StoreCall)
    (distinct : ((calls.flatMap appended).map DomainEvent.place).Nodup) :
    (∀ front, front <+: calls →
      NothingLost codec iterator (run codec {bufferLimit:=bufferLimit} front) (front.flatMap appended)) ↔
      ∀ front call, front ++ [call] <+: calls → call.Able codec (run codec {bufferLimit:=bufferLimit} front) := by
  have apart : ∀ front, front <+: calls → ((front.flatMap appended).map DomainEvent.place).Nodup := by
    intro front part
    obtain ⟨back,rfl⟩ := part
    rw [List.flatMap_append,List.map_append] at distinct
    exact (List.nodup_append.mp distinct).1
  have next : ∀ front call, (front ++ [call]).flatMap appended = front.flatMap appended ++ call.appended := by
    intro front call
    rw [List.flatMap_append]
    simp
  have ran : ∀ front call, run codec {bufferLimit:=bufferLimit} (front ++ [call]) =
      (call.perform codec (run codec {bufferLimit:=bufferLimit} front)).2 := by
    intro front call
    unfold run
    rw [List.foldl_append]
    rfl
  apply @Fronts.every_front_iff _ _ _ fun front => ∃ stored,
    Accounted codec (run codec {bufferLimit:=bufferLimit} front) stored (front.flatMap appended)
  · exact ⟨[],holds_empty,fun _ inside => absurd inside List.not_mem_nil,rfl⟩
  · intro front part ⟨stored,accounted⟩
    exact accounted.nothingLost (apart front part) iterator
  · intro front call part ⟨stored,accounted⟩ able
    have unlike := apart _ part
    rw [next] at unlike ⊢
    rw [ran]
    exact accounted.perform able unlike
  · intro front call part ⟨stored,accounted⟩ shown
    have unlike := apart _ part
    rw [next] at unlike shown
    rw [ran] at shown
    by_contra unable
    exact accounted.lost unable unlike iterator shown

namespace StoreCall
open RocksDbEventStore Bench

def offline : List StoreCall :=
  [.append [deposited 256 7 1] {},.append [deposited 1 7 0] {get:=some "IO error",write:=some "IO error"},.flush {}]

theorem nothing_lost_offline :
    ((offline.flatMap appended).map DomainEvent.place).Nodup ∧
      Readable deposits .seeking (run deposits {bufferLimit:=3} offline) [deposited 256 7 1,deposited 1 7 0] := by
  have distinct : ((offline.flatMap appended).map DomainEvent.place).Nodup := by decide +kernel
  have able : ∀ front call, front ++ [call] <+: offline → call.Able deposits (run deposits {bufferLimit:=3} front) := by
    unfold offline
    simp only [Fronts.forall_step_cons]
    refine ⟨by decide +kernel,by decide +kernel,by decide +kernel,Fronts.forall_step_nil⟩
  have kept := (nothing_lost_iff deposits .seeking 3 offline distinct).mpr able _ List.prefix_rfl
  exact ⟨distinct,kept.readable (by decide +kernel)⟩

def failing : List StoreCall := [.append [deposited 1 7 0] {},.flush {write:=some "IO error"}]

theorem failed_flush_loses_event :
    ¬∀ (codec : EventCodec) (iterator : EventIterator) (bufferLimit : Nat) (calls : List StoreCall),
      ((calls.flatMap appended).map DomainEvent.place).Nodup → ∀ front, front <+: calls →
        NothingLost codec iterator (run codec {bufferLimit:=bufferLimit} front) (front.flatMap appended) := by
  intro all
  have kept := all deposits .seeking 1000 failing (by decide +kernel) _ List.prefix_rfl
  have waiting : Accounted deposits (run deposits {bufferLimit:=1000} (failing.take 1)) [] [deposited 1 7 0] :=
    ⟨holds_empty,fun _ inside => absurd inside List.not_mem_nil,rfl⟩
  have unable : ¬Able deposits (run deposits {bufferLimit:=1000} (failing.take 1)) (.flush {write:=some "IO error"}) := by
    decide +kernel
  exact waiting.lost unable (by decide +kernel) .seeking kept

end StoreCall
end Pranklin
