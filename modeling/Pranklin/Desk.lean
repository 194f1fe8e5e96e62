import Pranklin.Engine
import Pranklin.KeyedList

namespace Pranklin
open Words

structure Slot where
  marketId : Nat
  isBuy : Bool
  price : Nat
deriving DecidableEq

def Order.slot (order : Order) : Slot := ⟨order.marketId,order.isBuy,order.price⟩

def PriceLevel.kept (level : PriceLevel) : Option PriceLevel := if level.isEmpty then none else some level

theorem PriceLevel.kept_eq_some {level found : PriceLevel} :
    level.kept = some found ↔ level = found ∧ level.orders ≠ [] := by
  by_cases empty : level.orders = [] <;> simp [kept,isEmpty,empty]

theorem PriceLevel.kept_of_mem {level : PriceLevel} (inside : orderId ∈ level.orders) :
    level.kept = some level := kept_eq_some.mpr ⟨rfl,List.ne_nil_of_mem inside⟩

namespace OrderbookManager

def level (book : OrderbookManager) (slot : Slot) : Option PriceLevel :=
  (book.side slot.isBuy slot.marketId)[slot.price]?

theorem side_setSide (book : OrderbookManager) (isBuy : Bool) (marketId : Nat) (levels : PriceLevels)
    (read : Bool) (readMarket : Nat) :
    (book.setSide isBuy marketId levels).side read readMarket =
      if read = isBuy ∧ readMarket = marketId then levels else book.side read readMarket := by
  by_cases same : readMarket = marketId <;> cases isBuy <;> cases read <;> simp [side,setSide,same]

@[simp] theorem level_new (slot : Slot) : OrderbookManager.new.level slot = none := by
  cases isBuy : slot.isBuy <;> simp [level,side,new,isBuy]

theorem level_setSide (book : OrderbookManager) (isBuy : Bool) (marketId : Nat) (levels : PriceLevels)
    (slot : Slot) :
    (book.setSide isBuy marketId levels).level slot =
      if slot.isBuy = isBuy ∧ slot.marketId = marketId then levels[slot.price]? else book.level slot := by
  rw [level,side_setSide]
  split <;> rfl

theorem level_addOrder (book : OrderbookManager) (orderId : Nat) (order : Order) (slot : Slot) :
    (book.addOrder orderId order).level slot =
      if slot = order.slot then
        some (((book.level order.slot).getD .new).addOrder orderId order.remainingSize)
      else book.level slot := by
  unfold addOrder
  rw [level_setSide]
  by_cases sameSide : slot.isBuy = order.isBuy ∧ slot.marketId = order.marketId
  · by_cases same : slot.price = order.price
    · have equal : slot = order.slot := by cases slot; simp_all [Order.slot]
      subst equal
      rw [if_pos sameSide,if_pos rfl]
      exact Std.TreeMap.getElem?_insert_self
    · have other : slot ≠ order.slot := fun equal => same (by rw [equal]; rfl)
      have apart : ¬order.price = slot.price := Ne.symm same
      simp [sameSide,other,Std.TreeMap.getElem?_insert,apart,level,side]
  · have other : slot ≠ order.slot := fun equal => sameSide (by rw [equal]; exact ⟨rfl,rfl⟩)
    rw [if_neg sameSide,if_neg other]
    rfl

theorem level_removeOrder (book : OrderbookManager) (orderId : Nat) (order : Order) (slot : Slot) :
    (book.removeOrder orderId order).level slot =
      if slot = order.slot then
        (book.level order.slot).bind fun level => (level.removeOrder orderId order.remainingSize).kept
      else book.level slot := by
  unfold removeOrder
  dsimp only
  split
  · rename_i absent
    have missing : book.level order.slot = none := absent
    by_cases same : slot = order.slot
    · subst same; rw [if_pos rfl,missing]; exact absent
    · rw [if_neg same]; rfl
  · rename_i found present
    have at_slot : book.level order.slot = some found := present
    rw [level_setSide]
    by_cases sameSide : slot.isBuy = order.isBuy ∧ slot.marketId = order.marketId
    · rw [if_pos sameSide]
      by_cases same : slot.price = order.price
      · have equal : slot = order.slot := by cases slot; simp_all [Order.slot]
        subst equal
        rw [if_pos rfl,at_slot,Option.bind_some,PriceLevel.kept]
        split <;> simp [Order.slot]
      · have other : slot ≠ order.slot := fun equal => same (by rw [equal]; rfl)
        have apart : ¬order.price = slot.price := Ne.symm same
        rw [if_neg other,level,sameSide.1,sameSide.2]
        split <;> simp [Std.TreeMap.getElem?_insert,Std.TreeMap.getElem?_erase,apart,side]
    · have other : slot ≠ order.slot := fun equal => sameSide (by rw [equal]; exact ⟨rfl,rfl⟩)
      rw [if_neg sameSide,if_neg other]
      rfl

end OrderbookManager

-- The part of the engine that orders live on: their tables in state, the levels of
-- the book, and whether an unchecked subtraction has gone below zero.
structure Desk where
  state : StateManager
  level : Slot → Option PriceLevel
  borrowed : Bool

def Engine.desk (e : Engine) : Desk := ⟨e.state,e.orderbook.level,e.borrowed⟩

inductive Ending where
  | filled
  | cancelled
deriving DecidableEq

def Order.ended (order : Order) : Ending → Order
  | .filled => {order with remainingSize:=0,status:=.filled}
  | .cancelled => {order with status:=.cancelled}

def Order.reduced (order : Order) (size : Nat) : Order := {order with remainingSize:=order.remainingSize - size}

namespace Desk

def queue (d : Desk) (slot : Slot) : List Nat := (d.level slot).elim [] PriceLevel.orders

def handOut (d : Desk) : Desk := {d with state:=d.state.set .nextOrderId (d.state.orderCounter + 1)}

def reduce (d : Desk) (maker : Order) (size : Nat) : Desk where
  state := d.state.setOrder maker.id (maker.reduced size)
  level := Function.update d.level maker.slot
    ((d.level maker.slot).map fun level => {level with totalSize:=subWrap 64 level.totalSize size})
  borrowed := d.borrowed || (d.level maker.slot).any fun level => borrows level.totalSize size

def remove (d : Desk) (order : Order) (ending : Ending) : Desk where
  state := (d.state.setOrder order.id (order.ended ending)).removeActiveOrder order.marketId order.id
  level := Function.update d.level order.slot
    ((d.level order.slot).bind fun level => (level.removeOrder order.id order.remainingSize).kept)
  borrowed := d.borrowed

def store (d : Desk) (order : Order) : Desk := {d with state:=d.state.setOrder order.id order}

def rest (d : Desk) (order : Order) : Desk where
  state := (d.state.setOrder order.id order).addActiveOrder order.marketId order.id
  level := Function.update d.level order.slot
    (some (((d.level order.slot).getD .new).addOrder order.id order.remainingSize))
  borrowed := d.borrowed

section Queues
variable {d : Desk} {order maker : Order}

theorem queue_reduce (d : Desk) (maker : Order) (size : Nat) (slot : Slot) : (d.reduce maker size).queue slot = d.queue slot := by
  by_cases same : slot = maker.slot
  · subst same
    cases found : d.level maker.slot <;> simp [queue,reduce,found]
  · simp [queue,reduce,same]

theorem queue_rest (d : Desk) (order : Order) (slot : Slot) :
    (d.rest order).queue slot = if slot = order.slot then d.queue slot ++ [order.id] else d.queue slot := by
  split
  · rename_i same
    subst same
    cases found : d.level order.slot <;> simp [queue,rest,found,PriceLevel.addOrder,PriceLevel.new]
  · rename_i other
    simp [queue,rest,other]

theorem queue_remove (d : Desk) (order : Order) (ending : Ending) (slot : Slot) :
    (d.remove order ending).queue slot = if slot = order.slot then (d.queue slot).erase order.id else d.queue slot := by
  split
  · rename_i same
    subst same
    cases found : d.level order.slot with
    | none => simp [queue,remove,found]
    | some level =>
      simp only [queue,remove,Function.update_self,found,Option.bind_some,PriceLevel.removeOrder,PriceLevel.kept,
        PriceLevel.isEmpty,List.isEmpty_iff,Option.elim_some]
      by_cases inside : order.id ∈ level.orders
      · rw [if_pos inside]
        split
        · rename_i empty
          exact empty.symm
        · rfl
      · rw [if_neg inside,List.erase_of_not_mem inside]
        split
        · rename_i empty
          rw [empty]
          rfl
        · rfl
  · rename_i other
    simp [queue,remove,other]

variable (peopled : ∀ slot level, d.level slot = some level → level.orders ≠ [])
include peopled

theorem peopled_reduce (slot : Slot) (level : PriceLevel) (found : (d.reduce maker size).level slot = some level) :
    level.orders ≠ [] := by
  by_cases same : slot = maker.slot
  · subst same
    simp only [reduce,Function.update_self,Option.map_eq_some_iff] at found
    obtain ⟨before,present,rfl⟩ := found
    exact peopled _ before present
  · simp only [reduce,Function.update_of_ne same] at found
    exact peopled slot level found

theorem peopled_remove (ending : Ending) (slot : Slot) (level : PriceLevel)
    (found : (d.remove order ending).level slot = some level) : level.orders ≠ [] := by
  by_cases same : slot = order.slot
  · subst same
    simp only [remove,Function.update_self,Option.bind_eq_some_iff] at found
    obtain ⟨before,_,kept⟩ := found
    obtain ⟨rfl,filled⟩ := PriceLevel.kept_eq_some.mp kept
    exact filled
  · simp only [remove,Function.update_of_ne same] at found
    exact peopled slot level found

theorem peopled_rest (slot : Slot) (level : PriceLevel) (found : (d.rest order).level slot = some level) :
    level.orders ≠ [] := by
  by_cases same : slot = order.slot
  · subst same
    simp only [rest,Function.update_self] at found
    cases found
    simp [PriceLevel.addOrder]
  · simp only [rest,Function.update_of_ne same] at found
    exact peopled slot level found

end Queues

end Desk

def Desk.resting (d : Desk) (slot : Slot) : List Order := (d.queue slot).filterMap d.state.getOrder

def Desk.levelSum (d : Desk) (slot : Slot) : Nat := ((d.resting slot).map Order.remainingSize).sum

-- The queues of the book hold exactly the active orders, each once.
structure Queued (d : Desk) : Prop where
  keyed : ∀ orderId order, d.state.getOrder orderId = some order → order.id = orderId
  queues : ∀ slot orderId, orderId ∈ d.queue slot ↔
    ∃ order, d.state.getOrder orderId = some order ∧ order.slot = slot ∧ order.status = .active
  once : ∀ slot, (d.queue slot).Nodup
  peopled : ∀ slot level, d.level slot = some level → level.orders ≠ []

structure Consistent (d : Desk) : Prop extends Queued d where
  totals : ∀ slot level, d.level slot = some level → level.totalSize = d.levelSum slot
  lists : ∀ marketId orderId, orderId ∈ d.state.getActiveOrdersByMarket marketId ↔
    ∃ order, d.state.getOrder orderId = some order ∧ order.marketId = marketId ∧ order.status = .active
  listedOnce : ∀ marketId, (d.state.getActiveOrdersByMarket marketId).Nodup

namespace Queued
variable {d : Desk}

theorem resting_ids (queued : Queued d) (slot : Slot) : (d.resting slot).map Order.id = d.queue slot := by
  unfold Desk.resting
  have stored := fun orderId => (queued.queues slot orderId).mp
  generalize d.queue slot = ids at stored
  induction ids with
  | nil => rfl
  | cons orderId ids ih =>
    obtain ⟨order,found,_,_⟩ := stored orderId List.mem_cons_self
    rw [List.filterMap_cons_some found,List.map_cons,queued.keyed orderId order found,
      ih fun other inside => stored other (List.mem_cons_of_mem _ inside)]

theorem mem_resting (queued : Queued d) {slot : Slot} {order : Order} :
    order ∈ d.resting slot ↔
      d.state.getOrder order.id = some order ∧ order.slot = slot ∧ order.status = .active := by
  rw [Desk.resting,List.mem_filterMap]
  constructor
  · rintro ⟨orderId,inside,found⟩
    obtain ⟨same,present,placed,active⟩ := (queued.queues slot orderId).mp inside
    rw [present] at found
    cases found
    rw [queued.keyed orderId order present]
    exact ⟨present,placed,active⟩
  · rintro ⟨found,placed,active⟩
    exact ⟨order.id,(queued.queues slot order.id).mpr ⟨order,found,placed,active⟩,found⟩

theorem of_reads (queued : Queued d) {after : Desk} (level : after.level = d.level)
    (orders : ∀ orderId, after.state.getOrder orderId = d.state.getOrder orderId) : Queued after := by
  have queue : ∀ slot, after.queue slot = d.queue slot := fun slot => by rw [Desk.queue,level,Desk.queue]
  refine ⟨?_,?_,?_,?_⟩
  · intro orderId order found; exact queued.keyed orderId order ((orders orderId).symm.trans found)
  · intro slot orderId; rw [queue,orders]; exact queued.queues slot orderId
  · intro slot; rw [queue]; exact queued.once slot
  · rw [level]; exact queued.peopled

end Queued

-- The active orders in the order they came to rest: what the four tables keep in
-- parts.
abbrev Ledger := List Order

namespace Ledger
open KeyedList

def reduce (ledger : Ledger) (orderId size : Nat) : Ledger :=
  alter Order.id orderId (fun order => some (order.reduced size)) ledger

def remove (ledger : Ledger) (orderId : Nat) : Ledger := alter Order.id orderId (fun _ => none) ledger

def queue (ledger : Ledger) (slot : Slot) : List Nat := (ledger.filter (·.slot = slot)).map Order.id

def total (ledger : Ledger) (slot : Slot) : Nat :=
  ((ledger.filter (·.slot = slot)).map Order.remainingSize).sum

theorem ids_reduce {p : Order → Bool} (stable : ∀ order, p (order.reduced size) = p order) (ledger : Ledger) :
    ((ledger.reduce orderId size).filter p).map Order.id = (ledger.filter p).map Order.id := by
  unfold reduce
  rw [filter_alter (by rintro a b ⟨⟩; exact stable a),
    alter_keys_of_some (by rintro a b ⟨⟩; rfl) (fun _ _ _ => rfl)]

theorem ids_remove (p : Order → Bool) (ledger : Ledger) :
    ((ledger.remove orderId).filter p).map Order.id = ((ledger.filter p).map Order.id).filter (· ≠ orderId) := by
  unfold remove
  rw [filter_alter (by rintro a b ⟨⟩),alter_keys_of_none (fun _ _ _ => rfl)]

end Ledger

structure Represents (d : Desk) (ledger : Ledger) : Prop where
  distinct : (ledger.map Order.id).Nodup
  stored : ∀ order ∈ ledger, d.state.getOrder order.id = some order
  live : ∀ order ∈ ledger, order.status = .active ∧ 0 < order.remainingSize
  complete : ∀ orderId order, d.state.getOrder orderId = some order →
    order.id = orderId ∧ orderId < d.state.orderCounter ∧ (order.status = .active → order ∈ ledger)
  listed : ∀ marketId,
    d.state.getActiveOrdersByMarket marketId = (ledger.filter (·.marketId = marketId)).map Order.id
  queued : ∀ slot, d.queue slot = ledger.queue slot
  peopled : ∀ slot level, d.level slot = some level → level.orders ≠ []

namespace Represents
open KeyedList
variable {d : Desk} {ledger : Ledger} {maker order : Order}

theorem same_of_id (shown : Represents d ledger) (left : order ∈ ledger) (right : maker ∈ ledger)
    (same : order.id = maker.id) : order = maker := by
  have first := shown.stored order left
  rw [same,shown.stored maker right] at first
  exact (Option.some.inj first).symm

theorem level_of_mem (shown : Represents d ledger) (member : order ∈ ledger) :
    ∃ level, d.level order.slot = some level ∧ level.orders = ledger.queue order.slot ∧
      order.id ∈ level.orders := by
  have inside : order.id ∈ ledger.queue order.slot :=
    List.mem_map_of_mem (List.mem_filter.mpr ⟨member,by simp⟩)
  have queued := shown.queued order.slot
  cases found : d.level order.slot with
  | none => rw [Desk.queue,found] at queued; rw [← queued] at inside; cases inside
  | some level =>
    rw [Desk.queue,found] at queued
    exact ⟨level,rfl,queued,by rw [← queued] at inside; exact inside⟩

theorem queue_nodup (shown : Represents d ledger) (slot : Slot) : (ledger.queue slot).Nodup :=
  shown.distinct.sublist (List.filter_sublist.map Order.id)

theorem reduce (shown : Represents d ledger) (member : maker ∈ ledger) (partly : size < maker.remainingSize) :
    Represents (d.reduce maker size) (ledger.reduce maker.id size) where
  distinct := alter_keys_nodup (by rintro a b ⟨⟩; rfl) shown.distinct
  stored := by
    intro order inside
    rcases mem_alter.mp inside with ⟨kept,other⟩ | ⟨before,kept,same,⟨⟩⟩
    · simp [Desk.reduce,other,shown.stored order kept]
    · obtain rfl := shown.same_of_id kept member same
      simp [Desk.reduce,Order.reduced]
  live := by
    intro order inside
    rcases mem_alter.mp inside with ⟨kept,_⟩ | ⟨before,kept,same,⟨⟩⟩
    · exact shown.live order kept
    · obtain rfl := shown.same_of_id kept member same
      exact ⟨(shown.live _ kept).1,Nat.sub_pos_of_lt partly⟩
  complete := by
    intro orderId order found
    simp only [Desk.reduce,StateManager.getOrder_setOrder,StateManager.orderCounter_setOrder] at found ⊢
    split at found
    · rename_i same
      cases found
      have before := shown.complete maker.id maker (shown.stored maker member)
      exact ⟨same.symm,same ▸ before.2.1,fun _ => mem_alter.mpr (.inr ⟨maker,member,rfl,rfl⟩)⟩
    · rename_i other
      obtain ⟨keyed,issued,active⟩ := shown.complete orderId order found
      exact ⟨keyed,issued,fun status => mem_alter.mpr (.inl ⟨active status,by rwa [keyed]⟩)⟩
  listed := by
    intro marketId
    rw [Ledger.ids_reduce fun _ => rfl]
    simp [Desk.reduce,shown.listed]
  queued := by
    intro slot
    rw [Ledger.queue,Ledger.ids_reduce fun _ => rfl,← Ledger.queue,← shown.queued,Desk.queue_reduce]
  peopled := Desk.peopled_reduce shown.peopled

theorem remove (shown : Represents d ledger) (member : order ∈ ledger) (ending : Ending) :
    Represents (d.remove order ending) (ledger.remove order.id) where
  distinct := alter_keys_nodup (by rintro a b ⟨⟩) shown.distinct
  stored := by
    intro kept inside
    rcases mem_alter.mp inside with ⟨kept,other⟩ | ⟨before,kept,same,⟨⟩⟩
    simp [Desk.remove,other,shown.stored _ kept]
  live := by
    intro kept inside
    rcases mem_alter.mp inside with ⟨kept,_⟩ | ⟨before,kept,same,⟨⟩⟩
    exact shown.live _ kept
  complete := by
    intro orderId kept found
    simp only [Desk.remove,StateManager.getOrder_removeActiveOrder,StateManager.getOrder_setOrder,
      StateManager.orderCounter_removeActiveOrder,StateManager.orderCounter_setOrder] at found ⊢
    split at found
    · rename_i same
      cases found
      have before := shown.complete order.id order (shown.stored order member)
      refine ⟨by cases ending <;> exact same.symm,same ▸ before.2.1,fun active => ?_⟩
      cases ending <;> cases active
    · rename_i other
      obtain ⟨keyed,issued,active⟩ := shown.complete orderId kept found
      exact ⟨keyed,issued,fun status => mem_alter.mpr (.inl ⟨active status,by rwa [keyed]⟩)⟩
  listed := by
    intro marketId
    rw [Ledger.ids_remove,← shown.listed]
    by_cases same : marketId = order.marketId
    · subst same; simp [Desk.remove]
    · have absent : order.id ∉ d.state.getActiveOrdersByMarket marketId := by
        rw [shown.listed]
        rintro inside
        obtain ⟨found,chosen,equal⟩ := List.mem_map.mp inside
        obtain ⟨inside,market⟩ := List.mem_filter.mp chosen
        obtain rfl := shown.same_of_id inside member equal
        exact same (of_decide_eq_true market).symm
      simp only [Desk.remove,StateManager.getActiveOrdersByMarket_removeActiveOrder,if_neg same,
        StateManager.getActiveOrdersByMarket_setOrder]
      exact (filter_ne_of_absent absent).symm
  queued := by
    intro slot
    rw [Ledger.queue,Ledger.ids_remove,← Ledger.queue,Desk.queue_remove,shown.queued]
    split
    · exact erase_eq_filter_ne (shown.queue_nodup slot) order.id
    · rename_i other
      have absent : order.id ∉ ledger.queue slot := by
        intro inside
        obtain ⟨found,chosen,equal⟩ := List.mem_map.mp inside
        obtain ⟨inside,placed⟩ := List.mem_filter.mp chosen
        obtain rfl := shown.same_of_id inside member equal
        exact other (of_decide_eq_true placed).symm
      exact (filter_ne_of_absent absent).symm
  peopled := Desk.peopled_remove shown.peopled ending

theorem fresh_of_absent (shown : Represents d ledger) (fresh : d.state.getOrder orderId = none) :
    orderId ∉ ledger.map Order.id := by
  intro inside
  obtain ⟨found,member,rfl⟩ := List.mem_map.mp inside
  rw [shown.stored found member] at fresh
  cases fresh

theorem store (shown : Represents d ledger) (fresh : d.state.getOrder order.id = none)
    (issued : order.id < d.state.orderCounter) (final : order.status ≠ .active) :
    Represents (d.store order) ledger where
  distinct := shown.distinct
  stored := by
    intro kept inside
    have other : kept.id ≠ order.id := fun same =>
      shown.fresh_of_absent fresh (same ▸ List.mem_map_of_mem inside)
    simp [Desk.store,other,shown.stored kept inside]
  live := shown.live
  complete := by
    intro orderId kept found
    simp only [Desk.store,StateManager.getOrder_setOrder,StateManager.orderCounter_setOrder] at found ⊢
    split at found
    · rename_i same
      cases found
      exact ⟨same.symm,same ▸ issued,fun active => absurd active final⟩
    · exact shown.complete orderId kept found
  listed := by intro marketId; simp [Desk.store,shown.listed]
  queued := shown.queued
  peopled := shown.peopled

theorem rest (shown : Represents d ledger) (fresh : d.state.getOrder order.id = none)
    (issued : order.id < d.state.orderCounter) (active : order.status = .active)
    (positive : 0 < order.remainingSize) : Represents (d.rest order) (ledger ++ [order]) where
  distinct := by
    rw [List.map_append,List.map_singleton]
    exact shown.distinct.append (List.nodup_singleton _)
      (List.disjoint_singleton.mpr (shown.fresh_of_absent fresh))
  stored := by
    intro kept inside
    rcases List.mem_append.mp inside with inside | inside
    · have other : kept.id ≠ order.id := fun same =>
        shown.fresh_of_absent fresh (same ▸ List.mem_map_of_mem inside)
      simp [Desk.rest,other,shown.stored kept inside]
    · obtain rfl := List.mem_singleton.mp inside
      simp [Desk.rest]
  live := by
    intro kept inside
    rcases List.mem_append.mp inside with inside | inside
    · exact shown.live kept inside
    · obtain rfl := List.mem_singleton.mp inside
      exact ⟨active,positive⟩
  complete := by
    intro orderId kept found
    simp only [Desk.rest,StateManager.getOrder_addActiveOrder,StateManager.getOrder_setOrder,
      StateManager.orderCounter_addActiveOrder,StateManager.orderCounter_setOrder] at found ⊢
    split at found
    · rename_i same
      cases found
      exact ⟨same.symm,same ▸ issued,fun _ => List.mem_append_right _ (List.mem_singleton_self _)⟩
    · obtain ⟨keyed,issued,inside⟩ := shown.complete orderId kept found
      exact ⟨keyed,issued,fun status => List.mem_append_left _ (inside status)⟩
  listed := by
    intro marketId
    have unlisted : order.id ∉ (d.state.setOrder order.id order).getActiveOrdersByMarket order.marketId := by
      rw [StateManager.getActiveOrdersByMarket_setOrder,shown.listed]
      exact fun inside => shown.fresh_of_absent fresh ((List.filter_sublist.map Order.id).subset inside)
    simp only [Desk.rest]
    rw [StateManager.getActiveOrdersByMarket_addActiveOrder unlisted,List.filter_append,List.map_append]
    by_cases same : marketId = order.marketId
    · subst same; simp [shown.listed]
    · simp [shown.listed,same,Ne.symm same]
  queued := by
    intro slot
    rw [Ledger.queue,List.filter_append,List.map_append,← Ledger.queue,← shown.queued,Desk.queue_rest]
    by_cases same : slot = order.slot
    · simp [same]
    · simp [same,Ne.symm same]
  peopled := Desk.peopled_rest shown.peopled

theorem mem_iff (shown : Represents d ledger) :
    order ∈ ledger ↔ d.state.getOrder order.id = some order ∧ order.status = .active :=
  ⟨fun member => ⟨shown.stored order member,(shown.live order member).1⟩,
    fun ⟨found,active⟩ => (shown.complete order.id order found).2.2 active⟩

theorem toQueued (shown : Represents d ledger) : Queued d where
  keyed orderId order found := (shown.complete orderId order found).1
  queues := by
    intro slot orderId
    rw [shown.queued,Ledger.queue,List.mem_map]
    constructor
    · rintro ⟨order,chosen,rfl⟩
      obtain ⟨member,placed⟩ := List.mem_filter.mp chosen
      exact ⟨order,shown.stored order member,of_decide_eq_true placed,(shown.live order member).1⟩
    · rintro ⟨order,found,placed,active⟩
      obtain ⟨keyed,_,inside⟩ := shown.complete orderId order found
      exact ⟨order,List.mem_filter.mpr ⟨inside active,decide_eq_true placed⟩,keyed⟩
  once slot := by rw [shown.queued]; exact shown.queue_nodup slot
  peopled := shown.peopled

theorem resting_eq (shown : Represents d ledger) (slot : Slot) :
    d.resting slot = ledger.filter (·.slot = slot) := by
  rw [Desk.resting,shown.queued,Ledger.queue,List.filterMap_map]
  have stored : ∀ order ∈ ledger.filter (·.slot = slot), (d.state.getOrder ∘ Order.id) order = some order :=
    fun order chosen => shown.stored order (List.mem_filter.mp chosen).1
  rw [List.filterMap_congr stored,List.filterMap_some]

theorem levelSum_eq (shown : Represents d ledger) (slot : Slot) : d.levelSum slot = ledger.total slot := by
  rw [Desk.levelSum,shown.resting_eq,Ledger.total]

theorem of_reads {state : StateManager} (shown : Represents d ledger)
    (orders : ∀ orderId, state.getOrder orderId = d.state.getOrder orderId)
    (active : ∀ marketId, state.getActiveOrdersByMarket marketId = d.state.getActiveOrdersByMarket marketId)
    (counter : d.state.orderCounter ≤ state.orderCounter) : Represents {d with state:=state} ledger where
  distinct := shown.distinct
  stored order member := (orders order.id).trans (shown.stored order member)
  live := shown.live
  complete orderId order found := by
    obtain ⟨keyed,issued,active⟩ := shown.complete orderId order ((orders orderId).symm.trans found)
    exact ⟨keyed,Nat.lt_of_lt_of_le issued counter,active⟩
  listed marketId := (active marketId).trans (shown.listed marketId)
  queued := shown.queued
  peopled := shown.peopled

end Represents

namespace Ledger
open KeyedList
variable {ledger : Ledger} {order : Order}

theorem filter_ids_nodup (distinct : (ledger.map Order.id).Nodup) (p : Order → Bool) :
    ((ledger.filter p).map Order.id).Nodup := distinct.sublist (List.filter_sublist.map Order.id)

theorem total_alter {f : Order → Option Order} (distinct : (ledger.map Order.id).Nodup)
    (placed : ∀ before after, f before = some after → after.slot = before.slot) (member : order ∈ ledger)
    (slot : Slot) :
    Ledger.total (alter Order.id order.id f ledger) slot + (if slot = order.slot then order.remainingSize else 0) =
      ledger.total slot + (if slot = order.slot then ((f order).map Order.remainingSize).getD 0 else 0) := by
  unfold total
  rw [filter_alter fun before after result => by rw [placed before after result]]
  split
  · rename_i same
    subst same
    exact sum_alter _ (filter_ids_nodup distinct _) (List.mem_filter.mpr ⟨member,by simp⟩) rfl
  · rename_i other
    rw [alter_of_absent]
    intro inside
    obtain ⟨found,chosen,equal⟩ := List.mem_map.mp inside
    obtain ⟨inside,sits⟩ := List.mem_filter.mp chosen
    have same : found = order := List.inj_on_of_nodup_map distinct inside member equal
    exact other (by rw [← same]; exact (of_decide_eq_true sits).symm)

theorem total_remove (distinct : (ledger.map Order.id).Nodup) (member : order ∈ ledger) (slot : Slot) :
    (ledger.remove order.id).total slot + (if slot = order.slot then order.remainingSize else 0) =
      ledger.total slot := by
  have sums := total_alter (f:=fun _ => none) distinct (by rintro _ _ ⟨⟩) member slot
  simpa [remove] using sums

theorem remainingSize_le_total (distinct : (ledger.map Order.id).Nodup) (member : order ∈ ledger) :
    order.remainingSize ≤ ledger.total order.slot := by
  have sums := total_remove distinct member order.slot
  rw [if_pos rfl] at sums
  omega

theorem total_reduce (distinct : (ledger.map Order.id).Nodup) (member : order ∈ ledger)
    (covered : size ≤ order.remainingSize) (slot : Slot) :
    (ledger.reduce order.id size).total slot + (if slot = order.slot then size else 0) = ledger.total slot := by
  have sums := total_alter (f:=fun order => some (order.reduced size)) distinct
    (by rintro _ _ ⟨⟩; rfl) member slot
  have most := remainingSize_le_total distinct member
  unfold reduce
  by_cases same : slot = order.slot
  · subst same
    simp only [if_true,Option.map_some,Option.getD_some,Order.reduced] at sums ⊢
    omega
  · simpa [same] using sums

theorem total_append (ledger : Ledger) (order : Order) (slot : Slot) :
    Ledger.total (ledger ++ [order]) slot =
      ledger.total slot + (if slot = order.slot then order.remainingSize else 0) := by
  unfold total
  by_cases same : order.slot = slot
  · simp [same]
  · simp [same,Ne.symm same]

end Ledger

-- The levels carry the exact sums, and no subtraction has gone below zero.
structure Totals (d : Desk) (ledger : Ledger) : Prop where
  sums : ∀ slot level, d.level slot = some level → level.totalSize = ledger.total slot
  sound : d.borrowed = false

namespace Totals
variable {d : Desk} {ledger : Ledger} {maker order : Order}

theorem reduce (shown : Represents d ledger) (exact_ : Totals d ledger) (member : maker ∈ ledger)
    (covered : size ≤ maker.remainingSize) : Totals (d.reduce maker size) (ledger.reduce maker.id size) := by
  have most := Ledger.remainingSize_le_total shown.distinct member
  obtain ⟨before,present,_,_⟩ := shown.level_of_mem member
  have total := exact_.sums _ before present
  constructor
  · intro slot level found
    have after := Ledger.total_reduce shown.distinct member covered slot
    by_cases same : slot = maker.slot
    · subst same
      simp only [Desk.reduce,Function.update_self,present,Option.map_some,Option.some.injEq] at found
      subst found
      rw [if_pos rfl] at after
      simp only [subWrap_of_le (show size ≤ before.totalSize by omega)]
      omega
    · simp only [Desk.reduce,Function.update_of_ne same] at found
      rw [exact_.sums slot level found]
      simpa [same] using after.symm
  · have covered : borrows before.totalSize size = false := borrows_eq_false.mpr (by omega)
    simp [Desk.reduce,present,exact_.sound,covered]

theorem remove (shown : Represents d ledger) (exact_ : Totals d ledger) (member : order ∈ ledger)
    (ending : Ending) : Totals (d.remove order ending) (ledger.remove order.id) := by
  obtain ⟨before,present,_,inside⟩ := shown.level_of_mem member
  have total := exact_.sums _ before present
  refine ⟨fun slot level found => ?_,exact_.sound⟩
  have after := Ledger.total_remove shown.distinct member slot
  by_cases same : slot = order.slot
  · subst same
    simp only [Desk.remove,Function.update_self,present,Option.bind_some,PriceLevel.removeOrder,
      if_pos inside] at found
    obtain ⟨rfl,_⟩ := PriceLevel.kept_eq_some.mp found
    rw [if_pos rfl] at after
    simp only [total]
    omega
  · simp only [Desk.remove,Function.update_of_ne same] at found
    rw [exact_.sums slot level found]
    simpa [same] using after.symm

-- Only here can a total leave its word.
theorem rest (shown : Represents d ledger) (exact_ : Totals d ledger)
    (fits : Ledger.total (ledger ++ [order]) order.slot < 2 ^ 64) :
    Totals (d.rest order) (ledger ++ [order]) := by
  refine ⟨fun slot level found => ?_,exact_.sound⟩
  rw [Ledger.total_append]
  by_cases same : slot = order.slot
  · subst same
    simp only [Desk.rest,Function.update_self,Option.some.injEq] at found
    subst found
    rw [Ledger.total_append,if_pos rfl] at fits
    rw [if_pos rfl,PriceLevel.addOrder]
    have before : ((d.level order.slot).getD .new).totalSize = ledger.total order.slot := by
      cases present : d.level order.slot with
      | some level => exact exact_.sums _ level present
      | none =>
        have queued := shown.queued order.slot
        rw [Desk.queue,present] at queued
        have nobody : ledger.filter (·.slot = order.slot) = [] := List.map_eq_nil_iff.mp queued.symm
        simp [PriceLevel.new,Ledger.total,nobody]
    rw [before]
    exact addWrap_of_lt fits
  · simp only [Desk.rest,Function.update_of_ne same] at found
    rw [exact_.sums slot level found,if_neg same,Nat.add_zero]

end Totals

theorem Represents.toConsistent {d : Desk} {ledger : Ledger} (shown : Represents d ledger)
    (exact_ : Totals d ledger) : Consistent d where
  toQueued := shown.toQueued
  totals slot level found := (exact_.sums slot level found).trans (shown.levelSum_eq slot).symm
  lists := by
    intro marketId orderId
    rw [shown.listed,List.mem_map]
    constructor
    · rintro ⟨order,chosen,rfl⟩
      obtain ⟨member,market⟩ := List.mem_filter.mp chosen
      exact ⟨order,shown.stored order member,of_decide_eq_true market,(shown.live order member).1⟩
    · rintro ⟨order,found,market,active⟩
      obtain ⟨keyed,_,inside⟩ := shown.complete orderId order found
      exact ⟨order,List.mem_filter.mpr ⟨inside active,decide_eq_true market⟩,keyed⟩
  listedOnce marketId := by
    rw [shown.listed]
    exact Ledger.filter_ids_nodup shown.distinct _

end Pranklin
