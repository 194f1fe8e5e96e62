import Mathlib.Data.Finset.Sort
import Pranklin.Fronts
import Pranklin.PostOnly

namespace Pranklin
open OrderbookManager

structure IdOrder where
  arrange : Finset Nat → List Nat
  lists : ∀ ids, (arrange ids).Nodup ∧ ∀ orderId, orderId ∈ arrange ids ↔ orderId ∈ ids

def OrderbookManager.getOrdersForMarket (ids : IdOrder) (book : OrderbookManager) (marketId : Nat) : List Nat :=
  ids.arrange (book.ordersByMarket marketId)

inductive BookCall where
  | addOrder (order : Order)
  | removeOrder (order : Order)
  | matchOrder (order : Order)

structure BookAndState where
  book : OrderbookManager
  state : StateManager

namespace BookAndState

def desk (s : BookAndState) : Desk := s.book.desk s.state

def apply (s : BookAndState) : BookCall → BookAndState
  | .addOrder order => ⟨s.book.addOrder order.id order,
      (s.state.setOrder order.id order).addActiveOrder order.marketId order.id⟩
  | .removeOrder order => ⟨s.book.removeOrder order.id order,
      (s.state.setOrder order.id (order.ended .cancelled)).removeActiveOrder order.marketId order.id⟩
  | .matchOrder order =>
    match s.book.matchOrder s.state order with
    | .ok m => ⟨m.book,m.state⟩
    | .error _ => s

def run (s : BookAndState) (calls : List BookCall) : BookAndState := calls.foldl apply s

-- An order that is added is new and active; one that is removed is removed as the state has it.
def Legal (s : BookAndState) : BookCall → Prop
  | .addOrder order => s.state.getOrder order.id = none ∧ order.status = .active
  | .removeOrder order => s.state.getOrder order.id = some order
  | .matchOrder _ => True

structure Mirrors (ids : IdOrder) (s : BookAndState) : Prop where
  held : ∀ orderId, (s.book.orders orderId).isSome ↔ ∃ slot, orderId ∈ s.desk.queue slot
  listed : ∀ marketId, (s.book.getOrdersForMarket ids marketId).Nodup ∧
    ∀ orderId, orderId ∈ s.book.getOrdersForMarket ids marketId ↔
      ∃ slot, slot.marketId = marketId ∧ orderId ∈ s.desk.queue slot
  sized : ∀ orderId kept, s.book.orders orderId = some kept →
    ∃ order, s.state.getOrder orderId = some order ∧ kept.remainingSize = order.remainingSize

def Meets (state : StateManager) (order : Order) : Prop :=
  order.postOnly = false ∧ 0 < order.remainingSize ∧
    ∃ maker, state.getOrder maker.id = some maker ∧ maker.status = .active ∧ maker.marketId = order.marketId ∧
      maker.isBuy = (!order.isBuy) ∧ maker.owner ≠ order.owner ∧ crosses order maker.price = true

def Untaken (s : BookAndState) : BookCall → Prop
  | .matchOrder order => ¬Meets s.state order
  | _ => True

end BookAndState

namespace OrderLookup
open BookAndState
variable {d : Desk} {s : BookAndState} {order : Order} {ids : IdOrder}

section Queues

theorem queue_take_sublist (d : Desk) (take : Take) (slot : Slot) : ((d.take take).queue slot).Sublist (d.queue slot) := by
  unfold Desk.take
  split
  · rw [Desk.queue_reduce]
  · rw [Desk.queue_remove]
    split
    · exact List.erase_sublist
    · exact .refl _

theorem queue_takeAll_sublist (takes : List Take) (d : Desk) (slot : Slot) :
    ((d.takeAll takes).queue slot).Sublist (d.queue slot) := by
  induction takes generalizing d with
  | nil => exact .refl _
  | cons take takes ih => exact (ih (d.take take)).trans (queue_take_sublist d take slot)

theorem gone_of_taken {takes : List Take} {take : Take} (member : take ∈ takes)
    (whole : ¬take.size < take.maker.remainingSize) (d : Desk) (once : (d.queue take.maker.slot).Nodup)
    (own : ∀ slot, slot ≠ take.maker.slot → take.maker.id ∉ d.queue slot) (slot : Slot) :
    take.maker.id ∉ (d.takeAll takes).queue slot := by
  induction takes generalizing d with
  | nil => cases member
  | cons first takes ih =>
    rw [Desk.takeAll_cons]
    rcases List.mem_cons.mp member with rfl | member
    · intro inside
      have inside := (queue_takeAll_sublist takes _ slot).subset inside
      rw [Desk.take,if_neg whole,Desk.queue_remove] at inside
      split at inside
      · rename_i same
        subst same
        exact once.not_mem_erase inside
      · rename_i other
        exact own slot other inside
    · refine ih member _ (once.sublist (queue_take_sublist d first _)) fun other apart inside => ?_
      exact own other apart ((queue_take_sublist d first other).subset inside)

end Queues

section Kept

theorem desk_addOrder (s : BookAndState) (order : Order) : (s.apply (.addOrder order)).desk = s.desk.rest order := by
  simp only [BookAndState.desk,OrderbookManager.desk,BookAndState.apply,Desk.rest,Desk.mk.injEq,true_and,and_true]
  funext slot
  rw [level_addOrder,Function.update_apply]

theorem desk_removeOrder (s : BookAndState) (order : Order) :
    (s.apply (.removeOrder order)).desk = s.desk.remove order .cancelled := by
  simp only [BookAndState.desk,OrderbookManager.desk,BookAndState.apply,Desk.remove,Desk.mk.injEq,true_and,and_true]
  funext slot
  rw [level_removeOrder,Function.update_apply]

end Kept

section Queued

theorem queued_rest (queued : Queued d) (fresh : d.state.getOrder order.id = none) (active : order.status = .active) :
    Queued (d.rest order) := by
  have reads : ∀ orderId, (d.rest order).state.getOrder orderId =
      if orderId = order.id then some order else d.state.getOrder orderId := by
    intro orderId
    simp [Desk.rest]
  have absent : ∀ slot, order.id ∉ d.queue slot := by
    intro slot inside
    obtain ⟨_,found,_⟩ := (queued.queues slot order.id).mp inside
    rw [fresh] at found
    cases found
  refine ⟨?_,?_,?_,?_⟩
  · intro orderId stored found
    rw [reads] at found
    split at found
    · rename_i own
      cases found
      exact own.symm
    · exact queued.keyed orderId stored found
  · intro slot orderId
    rw [Desk.queue_rest,reads]
    by_cases own : orderId = order.id
    · subst own
      rw [if_pos rfl]
      constructor
      · intro inside
        split at inside
        · rename_i same
          exact ⟨order,rfl,same.symm,active⟩
        · exact absurd inside (absent slot)
      · rintro ⟨_,same,sits,_⟩
        cases same
        rw [if_pos sits.symm]
        exact List.mem_append_right _ (List.mem_singleton_self _)
    · rw [if_neg own,← queued.queues]
      split
      · rw [List.mem_append,List.mem_singleton,or_iff_left own]
      · exact Iff.rfl
  · intro slot
    rw [Desk.queue_rest]
    split
    · exact (queued.once slot).append (List.nodup_singleton _) (List.disjoint_singleton.mpr (absent slot))
    · exact queued.once slot
  · exact Desk.peopled_rest queued.peopled

theorem queued_remove (queued : Queued d) (found : d.state.getOrder order.id = some order) :
    Queued (d.remove order .cancelled) := by
  have reads : ∀ orderId, (d.remove order .cancelled).state.getOrder orderId =
      if orderId = order.id then some (order.ended .cancelled) else d.state.getOrder orderId := by
    intro orderId
    simp [Desk.remove]
  have own : ∀ slot, order.id ∈ d.queue slot → slot = order.slot := by
    intro slot inside
    obtain ⟨stored,present,sits,_⟩ := (queued.queues slot order.id).mp inside
    rw [found] at present
    cases present
    exact sits.symm
  refine ⟨?_,?_,?_,?_⟩
  · intro orderId stored present
    rw [reads] at present
    split at present
    · rename_i same
      cases present
      exact same.symm
    · exact queued.keyed orderId stored present
  · intro slot orderId
    rw [Desk.queue_remove,reads]
    by_cases same : orderId = order.id
    · subst same
      rw [if_pos rfl]
      constructor
      · intro inside
        split at inside
        · exact absurd inside (queued.once slot).not_mem_erase
        · rename_i other
          exact absurd (own slot inside) other
      · rintro ⟨_,same,_,active⟩
        cases same
        cases active
    · rw [if_neg same,← queued.queues]
      split
      · exact List.mem_erase_of_ne same
      · exact Iff.rfl
  · intro slot
    rw [Desk.queue_remove]
    split
    · exact (queued.once slot).erase _
    · exact queued.once slot
  · exact Desk.peopled_remove queued.peopled .cancelled

end Queued

section Maps

theorem maps_setSide (book : OrderbookManager) (isBuy : Bool) (marketId : Nat) (levels : PriceLevels) :
    (book.setSide isBuy marketId levels).orders = book.orders ∧
      (book.setSide isBuy marketId levels).ordersByMarket = book.ordersByMarket := by
  cases isBuy <;> exact ⟨rfl,rfl⟩

theorem maps_addOrder (book : OrderbookManager) (order : Order) :
    (book.addOrder order.id order).orders = Function.update book.orders order.id (some order) ∧
      (book.addOrder order.id order).ordersByMarket = Function.update book.ordersByMarket order.marketId
        (insert order.id (book.ordersByMarket order.marketId)) := maps_setSide ..

theorem maps_removeOrder (book : OrderbookManager) (order : Order) :
    (book.removeOrder order.id order).orders = Function.update book.orders order.id none ∧
      (book.removeOrder order.id order).ordersByMarket = Function.update book.ordersByMarket order.marketId
        ((book.ordersByMarket order.marketId).erase order.id) := by
  unfold OrderbookManager.removeOrder
  dsimp only
  split
  · exact ⟨rfl,rfl⟩
  · exact maps_setSide ..

-- A match leaves both maps alone, whatever it does to the levels.
theorem maps_matchOrder {m : MatchResult} {state : StateManager} {book : OrderbookManager}
    (matched : book.matchOrder state order = .ok m) :
    m.book.orders = book.orders ∧ m.book.ordersByMarket = book.ordersByMarket := by
  unfold OrderbookManager.matchOrder at matched
  split at matched
  · cases matched
  · cases matched
    exact maps_setSide ..

end Maps

structure Tracks (s : BookAndState) : Prop where
  kept : ∀ orderId, (s.book.orders orderId).map Order.remainingSize =
    ((s.state.getOrder orderId).filter (·.status = .active)).map Order.remainingSize
  markets : ∀ marketId orderId, orderId ∈ s.book.ordersByMarket marketId ↔
    ∃ order, s.state.getOrder orderId = some order ∧ order.marketId = marketId ∧ order.status = .active

section Tracking

theorem filter_active (active : order.status = .active) : (some order).filter (·.status = .active) = some order := by
  simp [Option.filter,active]

theorem Tracks.isSome (tracks : Tracks s) (orderId : Nat) : (s.book.orders orderId).isSome ↔
    ∃ order, s.state.getOrder orderId = some order ∧ order.status = .active := by
  have kept := congrArg Option.isSome (tracks.kept orderId)
  rw [Option.isSome_map,Option.isSome_map] at kept
  rw [kept]
  cases found : s.state.getOrder orderId with
  | none => simp
  | some order => simp [Option.filter]

theorem queued_somewhere (queued : Queued d) (orderId : Nat) : (∃ slot, orderId ∈ d.queue slot) ↔
    ∃ order, d.state.getOrder orderId = some order ∧ order.status = .active := by
  constructor
  · rintro ⟨slot,inside⟩
    obtain ⟨order,found,_,active⟩ := (queued.queues slot orderId).mp inside
    exact ⟨order,found,active⟩
  · rintro ⟨order,found,active⟩
    exact ⟨order.slot,(queued.queues _ _).mpr ⟨order,found,rfl,active⟩⟩

theorem queued_in_market (queued : Queued d) (marketId orderId : Nat) :
    (∃ slot, slot.marketId = marketId ∧ orderId ∈ d.queue slot) ↔
      ∃ order, d.state.getOrder orderId = some order ∧ order.marketId = marketId ∧ order.status = .active := by
  constructor
  · rintro ⟨slot,market,inside⟩
    obtain ⟨order,found,rfl,active⟩ := (queued.queues slot orderId).mp inside
    exact ⟨order,found,market,active⟩
  · rintro ⟨order,found,market,active⟩
    exact ⟨order.slot,market,(queued.queues _ _).mpr ⟨order,found,rfl,active⟩⟩

theorem mirrors_iff_tracks (queued : Queued s.desk) : Mirrors ids s ↔ Tracks s := by
  constructor
  · rintro ⟨held,listed,sized⟩
    refine ⟨fun orderId => ?_,fun marketId orderId => ?_⟩
    · have held : (s.book.orders orderId).isSome ↔ ∃ order, s.state.getOrder orderId = some order ∧ order.status = .active :=
        (held orderId).trans (queued_somewhere queued orderId)
      cases present : s.book.orders orderId with
      | none =>
        rw [present] at held
        have inactive : (s.state.getOrder orderId).filter (·.status = .active) = none := by
          rw [Option.filter_eq_none_iff]
          intro order found active
          exact absurd (held.mpr ⟨order,found,of_decide_eq_true active⟩) (by simp)
        rw [inactive,Option.map_none]
      | some kept =>
        rw [present] at held
        obtain ⟨order,found,active⟩ := held.mp rfl
        obtain ⟨_,same,size⟩ := sized orderId kept present
        rw [found] at same
        cases same
        rw [found,filter_active active,Option.map_some,Option.map_some,size]
    · refine Iff.trans ?_ (queued_in_market queued marketId orderId)
      rw [← (listed marketId).2 orderId]
      exact ((ids.lists _).2 orderId).symm
  · intro tracks
    refine ⟨fun orderId => (tracks.isSome orderId).trans (queued_somewhere queued orderId).symm,fun marketId => ?_,?_⟩
    · refine ⟨(ids.lists _).1,fun orderId => ?_⟩
      refine Iff.trans ?_ ((tracks.markets marketId orderId).trans (queued_in_market queued marketId orderId).symm)
      exact (ids.lists _).2 orderId
    · intro orderId kept present
      have size := tracks.kept orderId
      obtain ⟨order,found,active⟩ := (tracks.isSome orderId).mp (by rw [present]; rfl)
      rw [present,found,filter_active active,Option.map_some,Option.map_some] at size
      exact ⟨order,found,Option.some.inj size⟩

theorem tracks_addOrder (tracks : Tracks s) (fresh : s.state.getOrder order.id = none) (active : order.status = .active) :
    Tracks (s.apply (.addOrder order)) := by
  obtain ⟨orders,markets⟩ := maps_addOrder s.book order
  have reads : ∀ orderId, (s.apply (.addOrder order)).state.getOrder orderId =
      if orderId = order.id then some order else s.state.getOrder orderId := by
    intro orderId
    simp [BookAndState.apply]
  refine ⟨fun orderId => ?_,fun marketId orderId => ?_⟩
  · rw [reads]
    change ((s.book.addOrder order.id order).orders orderId).map _ = _
    rw [orders]
    by_cases own : orderId = order.id
    · subst own
      rw [Function.update_self,if_pos rfl,filter_active active]
    · rw [Function.update_of_ne own,if_neg own,tracks.kept]
  · rw [reads]
    change orderId ∈ (s.book.addOrder order.id order).ordersByMarket marketId ↔ _
    rw [markets]
    by_cases own : orderId = order.id
    · subst own
      rw [if_pos rfl]
      by_cases market : marketId = order.marketId
      · subst market
        rw [Function.update_self]
        exact iff_of_true (Finset.mem_insert_self _ _) ⟨order,rfl,rfl,active⟩
      · rw [Function.update_of_ne market,tracks.markets,fresh]
        constructor
        · rintro ⟨_,⟨⟩,_⟩
        · rintro ⟨_,⟨⟩,same,_⟩
          exact absurd same.symm market
    · rw [if_neg own,← tracks.markets]
      by_cases market : marketId = order.marketId
      · subst market
        rw [Function.update_self,Finset.mem_insert,or_iff_right own]
      · rw [Function.update_of_ne market]

theorem tracks_removeOrder (tracks : Tracks s) (found : s.state.getOrder order.id = some order) :
    Tracks (s.apply (.removeOrder order)) := by
  obtain ⟨orders,markets⟩ := maps_removeOrder s.book order
  have reads : ∀ orderId, (s.apply (.removeOrder order)).state.getOrder orderId =
      if orderId = order.id then some (order.ended .cancelled) else s.state.getOrder orderId := by
    intro orderId
    simp [BookAndState.apply]
  refine ⟨fun orderId => ?_,fun marketId orderId => ?_⟩
  · rw [reads]
    change ((s.book.removeOrder order.id order).orders orderId).map _ = _
    rw [orders]
    by_cases own : orderId = order.id
    · subst own
      rw [Function.update_self,if_pos rfl]
      rfl
    · rw [Function.update_of_ne own,if_neg own,tracks.kept]
  · rw [reads]
    change orderId ∈ (s.book.removeOrder order.id order).ordersByMarket marketId ↔ _
    rw [markets]
    by_cases own : orderId = order.id
    · subst own
      rw [if_pos rfl]
      have ended : ¬∃ stored, some (order.ended .cancelled) = some stored ∧ stored.marketId = marketId ∧
          stored.status = .active := by
        rintro ⟨_,⟨⟩,_,⟨⟩⟩
      refine iff_of_false ?_ ended
      by_cases market : marketId = order.marketId
      · subst market
        rw [Function.update_self]
        exact Finset.notMem_erase _ _
      · rw [Function.update_of_ne market,tracks.markets,found]
        rintro ⟨_,⟨⟩,same,_⟩
        exact market same.symm
    · rw [if_neg own,← tracks.markets]
      by_cases market : marketId = order.marketId
      · subst market
        rw [Function.update_self,Finset.mem_erase,and_iff_right own]
      · rw [Function.update_of_ne market]

end Tracking

section Matching

theorem takes_of_meets (queued : Queued s.desk) (meets : Meets s.state order) : s.book.takesOf s.state order ≠ [] := by
  obtain ⟨_,sized,maker,found,active,market,side,stranger,crossing⟩ := meets
  rw [takesOf,Ne,walk_eq_nil_iff,not_or]
  refine ⟨List.ne_nil_of_mem (List.mem_filter.mpr ⟨(mem_priorityLine queued).mpr ⟨found,active,market,side⟩,?_⟩),
    Nat.ne_of_gt sized⟩
  exact Bool.and_eq_true_iff.mpr ⟨decide_eq_true stranger,crossing⟩

theorem no_takes (queued : Queued s.desk) (alone : ¬Meets s.state order) (passes : s.book.passesPostOnly order = true) :
    s.book.takesOf s.state order = [] := by
  by_contra some_
  obtain ⟨take,member⟩ := List.exists_mem_of_ne_nil _ some_
  obtain ⟨inside,eligible,_⟩ := mem_takesOf member
  obtain ⟨found,active,market,side⟩ := (mem_priorityLine queued).mp inside
  obtain ⟨stranger,crossing⟩ := Bool.and_eq_true_iff.mp eligible
  have sized : order.remainingSize ≠ 0 := fun spent => some_ (by rw [takesOf,spent,walk_zero])
  have flagless : order.postOnly = false := by
    have crossed := PostOnly.wouldMatch_of_crossing queued inside crossing
    simpa [passesPostOnly,crossed] using passes
  exact alone ⟨flagless,Nat.pos_of_ne_zero sized,take.maker,found,active,market,side,of_decide_eq_true stranger,crossing⟩

theorem match_refused (stopped : s.book.passesPostOnly order = false) : s.apply (.matchOrder order) = s := by
  have refused : s.book.matchOrder s.state order = .error .postOnlyWouldTake := by
    rw [OrderbookManager.matchOrder,if_pos (by simpa [passesPostOnly] using stopped)]
  rw [BookAndState.apply,refused]

theorem match_passed (queued : Queued s.desk) (passes : s.book.passesPostOnly order = true) :
    (s.apply (.matchOrder order)).book.orders = s.book.orders ∧
      (s.apply (.matchOrder order)).book.ordersByMarket = s.book.ordersByMarket ∧
      (s.apply (.matchOrder order)).state = (s.desk.takeAll (s.book.takesOf s.state order)).state ∧
      (s.apply (.matchOrder order)).book.level = (s.desk.takeAll (s.book.takesOf s.state order)).level := by
  obtain ⟨m,matched,_,desk⟩ := matchOrder_desk queued passes
  obtain ⟨orders,markets⟩ := maps_matchOrder matched
  rw [BookAndState.apply,matched]
  exact ⟨orders,markets,congrArg Desk.state desk,congrArg Desk.level desk⟩

theorem match_alone (queued : Queued s.desk) (tracks : Tracks s) (alone : ¬Meets s.state order) :
    Queued (s.apply (.matchOrder order)).desk ∧ Tracks (s.apply (.matchOrder order)) := by
  cases passes : s.book.passesPostOnly order with
  | false =>
    rw [match_refused passes]
    exact ⟨queued,tracks⟩
  | true =>
    obtain ⟨orders,markets,state,level⟩ := match_passed queued passes
    rw [no_takes queued alone passes,Desk.takeAll_nil] at state level
    refine ⟨queued.of_reads level fun orderId => congrArg (·.getOrder orderId) state,?_,?_⟩
    · intro orderId
      rw [orders,state]
      exact tracks.kept orderId
    · intro marketId orderId
      rw [markets,state]
      exact tracks.markets marketId orderId

-- A maker that the order takes something of still stands in the maps as it stood before: with the
-- size it had, if any is left of it, and at all, if not.
theorem not_mirrors_of_meets (queued : Queued s.desk) (tracks : Tracks s) (meets : Meets s.state order) :
    ¬Mirrors ids (s.apply (.matchOrder order)) := by
  have passes : s.book.passesPostOnly order = true := by simp [passesPostOnly,meets.1]
  obtain ⟨orders,_,state,level⟩ := match_passed queued passes
  obtain ⟨take,member⟩ := List.exists_mem_of_ne_nil _ (takes_of_meets queued meets)
  obtain ⟨inside,_,covered⟩ := mem_takesOf member
  obtain ⟨found,active,_,_⟩ := (mem_priorityLine queued).mp inside
  obtain ⟨kept,standing⟩ := Option.isSome_iff_exists.mp ((tracks.isSome take.maker.id).mpr ⟨_,found,active⟩)
  have before := tracks.kept take.maker.id
  rw [standing,found,filter_active active] at before
  have same : kept.remainingSize = take.maker.remainingSize := Option.some.inj before
  intro mirrors
  have after : (s.apply (.matchOrder order)).state.getOrder take.maker.id = some take.taken := by
    rw [state]
    exact Desk.getOrder_takeAll_of_mem (takesOf_makers_nodup queued) member _
  obtain ⟨stored,present,size⟩ := mirrors.sized take.maker.id kept (by rw [orders,standing])
  rw [after] at present
  cases present
  rw [same,Take.taken_eq covered active] at size
  by_cases whole : take.size < take.maker.remainingSize
  · have positive := walk_size_pos _ _ take member (by omega)
    dsimp only at size
    omega
  · obtain ⟨slot,rests⟩ := (mirrors.held take.maker.id).mp (by rw [orders,standing]; rfl)
    rw [BookAndState.desk,OrderbookManager.desk,Desk.queue] at rests
    dsimp only at rests
    rw [level] at rests
    have own : ∀ slot, slot ≠ take.maker.slot → take.maker.id ∉ s.desk.queue slot := by
      intro other apart inside
      obtain ⟨_,present,sits,_⟩ := (queued.queues other _).mp inside
      rw [BookAndState.desk,OrderbookManager.desk] at present
      rw [found] at present
      cases present
      exact apart sits.symm
    exact gone_of_taken member whole s.desk (queued.once _) own slot rests

end Matching

section Runs
variable {start : BookAndState} {calls : List BookCall}

theorem run_concat (start : BookAndState) (front : List BookCall) (call : BookCall) :
    start.run (front ++ [call]) = (start.run front).apply call := List.foldl_concat ..

theorem mirrors_iff (ids : IdOrder) (queued : Queued start.desk) (mirrors : Mirrors ids start)
    (legal : ∀ front call, front ++ [call] <+: calls → (start.run front).Legal call) :
    (∀ front, front <+: calls → Mirrors ids (start.run front)) ↔
      ∀ front call, front ++ [call] <+: calls → (start.run front).Untaken call := by
  apply @Fronts.every_front_iff _ _ _ fun front => Queued (start.run front).desk ∧ Tracks (start.run front)
  · exact ⟨queued,(mirrors_iff_tracks queued).mp mirrors⟩
  · rintro front _ ⟨queued,tracks⟩
    exact (mirrors_iff_tracks queued).mpr tracks
  · rintro front call part ⟨queued,tracks⟩ untaken
    have allowed := legal front call part
    rw [run_concat]
    cases call with
    | addOrder order =>
      rw [desk_addOrder]
      exact ⟨queued_rest queued allowed.1 allowed.2,tracks_addOrder tracks allowed.1 allowed.2⟩
    | removeOrder order =>
      rw [desk_removeOrder]
      exact ⟨queued_remove queued allowed,tracks_removeOrder tracks allowed⟩
    | matchOrder order => exact match_alone queued tracks untaken
  · rintro front call _ ⟨queued,tracks⟩ shown
    rw [run_concat] at shown
    cases call with
    | addOrder order | removeOrder order => trivial
    | matchOrder order => exact fun meets => not_mirrors_of_meets queued tracks meets shown

theorem queued_new {state : StateManager} (none_ : state.NoOrders) : Queued (BookAndState.mk .new state).desk where
  keyed orderId order found := absurd found (none_.absent orderId order)
  queues slot orderId := by
    have empty : (BookAndState.mk .new state).desk.queue slot = [] := by
      simp [Desk.queue,BookAndState.desk,OrderbookManager.desk]
    rw [empty]
    refine iff_of_false List.not_mem_nil ?_
    rintro ⟨order,found,_⟩
    exact absurd found (none_.absent orderId order)
  once slot := by simp [Desk.queue,BookAndState.desk,OrderbookManager.desk]
  peopled slot level found := by simp [BookAndState.desk,OrderbookManager.desk] at found

theorem tracks_new {state : StateManager} (none_ : state.NoOrders) : Tracks ⟨.new,state⟩ := by
  refine ⟨fun orderId => ?_,fun marketId orderId => ?_⟩
  · rw [none_.orders]
    rfl
  · rw [none_.orders]
    exact iff_of_false (Finset.notMem_empty _) (by rintro ⟨_,⟨⟩,_⟩)

def sorted : IdOrder := ⟨fun ids => ids.sort (· ≤ ·),fun ids => ⟨ids.sort_nodup _,fun _ => ids.mem_sort _⟩⟩

def opening : BookAndState := ⟨.new,Bench.state⟩

def restingAsk : Order := ⟨0,0,Bench.alice,false,100,5,5,.active,0,false,false⟩

def crossingBid : Order := ⟨1,0,Bench.bob,true,100,2,2,.active,0,false,false⟩

-- A match takes two of the five that rest: the state has three, the map still five.
theorem map_left_behind :
    opening.Legal (.addOrder restingAsk) ∧ (opening.apply (.addOrder restingAsk)).Legal (.matchOrder crossingBid) ∧
      Mirrors sorted opening ∧ ¬Mirrors sorted (opening.run [.addOrder restingAsk,.matchOrder crossingBid]) := by
  have fresh := Bench.noOrders.orders 0
  have queued := queued_new Bench.noOrders
  refine ⟨⟨fresh,rfl⟩,trivial,(mirrors_iff_tracks queued).mpr (tracks_new Bench.noOrders),fun mirrors => ?_⟩
  have facts : ((opening.run [.addOrder restingAsk,.matchOrder crossingBid]).book.orders 0).map Order.remainingSize = some 5 ∧
      ((opening.run [.addOrder restingAsk,.matchOrder crossingBid]).state.getOrder 0).map Order.remainingSize = some 3 := by
    decide +kernel
  obtain ⟨kept,present,five⟩ := Option.map_eq_some_iff.mp facts.1
  obtain ⟨order,found,size⟩ := mirrors.sized 0 kept present
  rw [found] at facts
  have three : order.remainingSize = 3 := Option.some.inj facts.2
  omega

theorem mirrors_iff_on_bench :
    (∀ front, front <+: [BookCall.addOrder restingAsk,.matchOrder crossingBid] → Mirrors sorted (opening.run front)) ↔
      ∀ front call, front ++ [call] <+: [BookCall.addOrder restingAsk,.matchOrder crossingBid] →
        (opening.run front).Untaken call :=
  mirrors_iff sorted (queued_new Bench.noOrders)
    ((mirrors_iff_tracks (queued_new Bench.noOrders)).mpr (tracks_new Bench.noOrders))
    ((Fronts.forall_step_cons _ _).mpr ⟨⟨Bench.noOrders.orders 0,rfl⟩,
      (Fronts.forall_step_cons _ _).mpr ⟨trivial,Fronts.forall_step_nil⟩⟩)

end Runs

end OrderLookup
end Pranklin
