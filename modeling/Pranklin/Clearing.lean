import Pranklin.Consistency

namespace Pranklin
open Words Effect

structure Withdrawn (d : Desk) (gone : List Nat) (after : Desk) : Prop where
  orders : ∀ orderId, after.state.getOrder orderId =
    if orderId ∈ gone then (d.state.getOrder orderId).map (Order.ended · .cancelled) else d.state.getOrder orderId
  queues : ∀ slot, after.queue slot = (d.queue slot).filter (· ∉ gone)
  lists : ∀ marketId, after.state.getActiveOrdersByMarket marketId =
    (d.state.getActiveOrdersByMarket marketId).filter (· ∉ gone)

namespace Withdrawn
variable {d middle after : Desk} {gone others : List Nat}

theorem refl (d : Desk) : Withdrawn d [] d := ⟨fun _ => by simp,fun _ => by simp,fun _ => by simp⟩

theorem trans (one : Withdrawn d gone middle) (two : Withdrawn middle others after) :
    Withdrawn d (gone ++ others) after := by
  refine ⟨fun orderId => ?_,fun slot => ?_,fun marketId => ?_⟩
  · rw [two.orders,one.orders]
    by_cases first : orderId ∈ gone
    · by_cases second : orderId ∈ others
      · simp only [first,second,if_true,List.mem_append,true_or,Option.map_map]
        rfl
      · simp [first,second]
    · simp [first]
  · rw [two.queues,one.queues,List.filter_filter]
    apply List.filter_congr
    intro orderId _
    simp [Bool.and_comm]
  · rw [two.lists,one.lists,List.filter_filter]
    apply List.filter_congr
    intro orderId _
    simp [Bool.and_comm]

theorem getOrder_kept (withdrawn : Withdrawn d gone after) (kept : orderId ∉ gone) :
    after.state.getOrder orderId = d.state.getOrder orderId := by
  rw [withdrawn.orders,if_neg kept]

theorem active_iff (withdrawn : Withdrawn d gone after) (kind : Order → Prop) :
    (∃ order, after.state.getOrder orderId = some order ∧ kind order ∧ order.status = .active) ↔
      (∃ order, d.state.getOrder orderId = some order ∧ kind order ∧ order.status = .active) ∧ decide (orderId ∉ gone) := by
  rw [withdrawn.orders]
  by_cases left : orderId ∈ gone
  · simp only [left,not_true_eq_false,decide_false,Bool.false_eq_true,and_false,if_true,iff_false]
    rintro ⟨order,found,_,active⟩
    obtain ⟨before,_,rfl⟩ := Option.map_eq_some_iff.mp found
    cases active
  · simp [left]

theorem resting (queued : Queued d) (withdrawn : Withdrawn d gone after) (slot : Slot) :
    after.resting slot = (d.resting slot).filter (·.id ∉ gone) := by
  have keyed : ∀ orderId order, d.state.getOrder orderId = some order → order.id = orderId := queued.keyed
  unfold Desk.resting
  rw [withdrawn.queues]
  generalize d.queue slot = ids
  induction ids with
  | nil => rfl
  | cons orderId ids ih =>
    by_cases left : orderId ∈ gone
    · rw [List.filter_cons_of_neg (by simpa using left),ih]
      cases found : d.state.getOrder orderId with
      | none => rw [List.filterMap_cons_none found]
      | some order =>
        rw [List.filterMap_cons_some found,List.filter_cons_of_neg (by simpa [keyed _ _ found] using left)]
    · have kept := withdrawn.getOrder_kept left
      rw [List.filter_cons_of_pos (by simpa using left)]
      cases found : d.state.getOrder orderId with
      | none =>
        rw [List.filterMap_cons_none found,List.filterMap_cons_none (kept.trans found),ih]
      | some order =>
        rw [List.filterMap_cons_some found,List.filterMap_cons_some (kept.trans found),ih,
          List.filter_cons_of_pos (by simpa [keyed _ _ found] using left)]

theorem levelSum (queued : Queued d) (withdrawn : Withdrawn d gone after) (slot : Slot) :
    after.levelSum slot + (((d.resting slot).filter (·.id ∈ gone)).map Order.remainingSize).sum = d.levelSum slot := by
  unfold Desk.levelSum
  rw [withdrawn.resting queued]
  induction d.resting slot with
  | nil => rfl
  | cons order rest ih =>
    by_cases left : order.id ∈ gone
    · rw [List.filter_cons_of_neg (by simpa using left),List.filter_cons_of_pos (by simpa using left),List.map_cons,
        List.map_cons,List.sum_cons,List.sum_cons]
      omega
    · rw [List.filter_cons_of_pos (by simpa using left),List.filter_cons_of_neg (by simpa using left),List.map_cons,
        List.map_cons,List.sum_cons,List.sum_cons]
      omega

theorem queued (queued : Queued d) (withdrawn : Withdrawn d gone after)
    (peopled : ∀ slot level, after.level slot = some level → level.orders ≠ []) : Queued after where
  keyed orderId order found := by
    rw [withdrawn.orders] at found
    split at found
    · obtain ⟨before,present,rfl⟩ := Option.map_eq_some_iff.mp found
      exact queued.keyed orderId before present
    · exact queued.keyed orderId order found
  queues slot orderId := by rw [withdrawn.queues,List.mem_filter,queued.queues,withdrawn.active_iff (·.slot = slot)]
  once slot := by
    rw [withdrawn.queues]
    exact (queued.once slot).filter _
  peopled := peopled

theorem consistent (consistent : Consistent d) (withdrawn : Withdrawn d gone after)
    (peopled : ∀ slot level, after.level slot = some level → level.orders ≠ [])
    (totals : ∀ slot level, after.level slot = some level → level.totalSize = after.levelSum slot) :
    Consistent after where
  toQueued := withdrawn.queued consistent.toQueued peopled
  totals := totals
  lists marketId orderId := by
    rw [withdrawn.lists,List.mem_filter,consistent.lists,withdrawn.active_iff (·.marketId = marketId)]
  listedOnce marketId := by
    rw [withdrawn.lists]
    exact (consistent.listedOnce marketId).filter _

end Withdrawn

namespace Consistent
variable {d : Desk} {order : Order}

theorem mem_queue (consistent : Consistent d) (found : d.state.getOrder order.id = some order)
    (active : order.status = .active) (slot : Slot) : order.id ∈ d.queue slot ↔ slot = order.slot := by
  rw [consistent.queues]
  constructor
  · rintro ⟨_,present,sits,_⟩
    rw [found] at present
    cases present
    exact sits.symm
  · rintro rfl
    exact ⟨order,found,rfl,active⟩

theorem withdrawn_remove (consistent : Consistent d) (found : d.state.getOrder order.id = some order)
    (active : order.status = .active) : Withdrawn d [order.id] (d.remove order .cancelled) := by
  refine ⟨fun orderId => ?_,fun slot => ?_,fun marketId => ?_⟩
  · simp only [Desk.remove,StateManager.getOrder_removeActiveOrder,StateManager.getOrder_setOrder,List.mem_singleton]
    split
    · rename_i same
      rw [same,found]
      rfl
    · rfl
  · rw [Desk.queue_remove]
    simp only [List.mem_singleton]
    split
    · exact KeyedList.erase_eq_filter_ne (consistent.once slot) order.id
    · rename_i other
      have absent : order.id ∉ d.queue slot := fun inside => other ((consistent.mem_queue found active slot).mp inside)
      exact (KeyedList.filter_ne_of_absent absent).symm
  · simp only [Desk.remove,StateManager.getActiveOrdersByMarket_removeActiveOrder,
      StateManager.getActiveOrdersByMarket_setOrder,List.mem_singleton]
    split
    · rename_i same
      rw [same]
    · rename_i other
      have absent : order.id ∉ d.state.getActiveOrdersByMarket marketId := by
        rw [consistent.lists]
        rintro ⟨_,present,market,_⟩
        rw [found] at present
        cases present
        exact other market.symm
      exact (KeyedList.filter_ne_of_absent absent).symm

theorem resting_own (consistent : Consistent d) (found : d.state.getOrder order.id = some order)
    (active : order.status = .active) : (d.resting order.slot).filter (·.id ∈ [order.id]) = [order] := by
  have inside : order ∈ d.resting order.slot := consistent.mem_resting.mpr ⟨found,rfl,active⟩
  have once : (d.resting order.slot).Nodup := by
    have ids := consistent.once order.slot
    rw [← consistent.resting_ids] at ids
    exact ids.of_map _
  have own : ∀ other ∈ d.resting order.slot, decide (other.id ∈ [order.id]) = (other == order) := by
    intro other member
    rw [Bool.eq_iff_iff,decide_eq_true_eq,List.mem_singleton,beq_iff_eq]
    constructor
    · intro same
      have present := (consistent.mem_resting.mp member).1
      rw [same,found] at present
      exact (Option.some.inj present).symm
    · intro same
      rw [same]
  rw [List.filter_congr own,List.filter_beq,List.count_eq_one_of_mem once inside]
  rfl

theorem remove (consistent : Consistent d) (found : d.state.getOrder order.id = some order)
    (active : order.status = .active) : Consistent (d.remove order .cancelled) := by
  have withdrawn := consistent.withdrawn_remove found active
  have sum := withdrawn.levelSum consistent.toQueued
  refine withdrawn.consistent consistent (Desk.peopled_remove consistent.peopled .cancelled) fun slot level present => ?_
  have after := sum slot
  by_cases same : slot = order.slot
  · subst same
    rw [consistent.resting_own found active] at after
    have inside := (consistent.mem_queue found active order.slot).mpr rfl
    simp only [Desk.remove,Function.update_self,Option.bind_eq_some_iff] at present
    obtain ⟨before,present,kept⟩ := present
    have queue : d.queue order.slot = before.orders := by rw [Desk.queue,present]; rfl
    rw [queue] at inside
    obtain ⟨rfl,_⟩ := PriceLevel.kept_eq_some.mp kept
    rw [PriceLevel.removeOrder,if_pos inside]
    have total := consistent.totals order.slot before present
    simp only [List.map_cons,List.map_nil,List.sum_cons,List.sum_nil] at after
    dsimp only
    omega
  · have nobody : (d.resting slot).filter (·.id ∈ [order.id]) = [] := by
      rw [List.filter_eq_nil_iff]
      intro other member own
      have sits := consistent.mem_resting.mp member
      rw [List.mem_singleton.mp (of_decide_eq_true own),found] at sits
      cases sits.1
      exact same sits.2.1.symm
    rw [nobody] at after
    simp only [Desk.remove,Function.update_of_ne same] at present
    exact (consistent.totals slot level present).trans after.symm

end Consistent

def Doomed (trader : Address) (marketId : Nat) (order : Order) : Prop :=
  order.owner = trader ∧ order.marketId = marketId ∧ order.status = .active

instance (trader : Address) (marketId : Nat) (order : Order) : Decidable (Doomed trader marketId order) :=
  inferInstanceAs (Decidable (_ ∧ _))

def Desk.total (d : Desk) (slot : Slot) : Nat := (d.level slot).elim 0 PriceLevel.totalSize

-- The doomed orders are gone from every table, and nothing else has moved.
structure OrdersCancelled (d : Desk) (trader : Address) (marketId : Nat) (after : Desk) : Prop where
  orders : ∀ orderId, after.state.getOrder orderId = (d.state.getOrder orderId).map fun order =>
    if Doomed trader marketId order then {order with status:=.cancelled} else order
  queues : ∀ slot, after.queue slot =
    (d.queue slot).filter fun orderId => !(d.state.getOrder orderId).any (Doomed trader marketId ·)
  lists : ∀ read, after.state.getActiveOrdersByMarket read = (d.state.getActiveOrdersByMarket read).filter
    fun orderId => !(d.state.getOrder orderId).any (Doomed trader marketId ·)
  totals : ∀ slot, after.total slot +
    (((d.resting slot).filter (Doomed trader marketId ·)).map Order.remainingSize).sum = d.total slot
  nowhere : ∀ orderId order, after.state.getOrder orderId = some order → order.owner = trader →
    order.marketId = marketId → order.status ≠ .active ∧ (∀ slot, orderId ∉ after.queue slot) ∧
      ∀ read, orderId ∉ after.state.getActiveOrdersByMarket read

theorem Consistent.total_eq {d : Desk} (consistent : Consistent d) (slot : Slot) : d.total slot = d.levelSum slot := by
  unfold Desk.total
  cases present : d.level slot with
  | none => rw [Desk.levelSum,Desk.resting,Desk.queue,present]; rfl
  | some level => exact consistent.totals slot level present

namespace Withdrawn
variable {d after : Desk} {gone : List Nat} (withdrawn : Withdrawn d gone after)
  (members : ∀ orderId, orderId ∈ gone ↔ ∃ order, d.state.getOrder orderId = some order ∧ Doomed trader marketId order)
include members

theorem spared_iff (orderId : Nat) :
    (decide (orderId ∉ gone)) = !(d.state.getOrder orderId).any (Doomed trader marketId ·) := by
  rw [decide_not,Bool.not_inj_iff,Bool.eq_iff_iff,decide_eq_true_eq,members,Option.any_eq_true]
  simp only [decide_eq_true_eq]

include withdrawn

theorem getOrder_doomed (orderId : Nat) : after.state.getOrder orderId = (d.state.getOrder orderId).map fun order =>
    if Doomed trader marketId order then {order with status:=.cancelled} else order := by
  rw [withdrawn.orders]
  split
  · rename_i inside
    obtain ⟨order,found,doomed⟩ := (members orderId).mp inside
    rw [found,Option.map_some,Option.map_some,if_pos doomed]
    rfl
  · rename_i outside
    cases found : d.state.getOrder orderId with
    | none => rfl
    | some order => rw [Option.map_some,if_neg fun doomed => outside ((members orderId).mpr ⟨order,found,doomed⟩)]

theorem inactive {orderId : Nat} {order : Order} (found : after.state.getOrder orderId = some order)
    (owner : order.owner = trader) (market : order.marketId = marketId) : order.status ≠ .active := by
  intro active
  rw [withdrawn.getOrder_doomed members] at found
  obtain ⟨before,_,rfl⟩ := Option.map_eq_some_iff.mp found
  split at active
  · cases active
  · rename_i spared
    rw [if_neg spared] at owner market
    exact spared ⟨owner,market,active⟩

theorem cancelled (consistent : Consistent d) (still : Consistent after) : OrdersCancelled d trader marketId after := by
  refine ⟨withdrawn.getOrder_doomed members,fun slot => ?_,fun read => ?_,fun slot => ?_,
    fun orderId order found owner market => ?_⟩
  · rw [withdrawn.queues]
    exact List.filter_congr fun orderId _ => spared_iff members orderId
  · rw [withdrawn.lists]
    exact List.filter_congr fun orderId _ => spared_iff members orderId
  · rw [still.total_eq,consistent.total_eq,← withdrawn.levelSum consistent.toQueued]
    have same : (d.resting slot).filter (Doomed trader marketId ·) = (d.resting slot).filter (·.id ∈ gone) := by
      apply List.filter_congr
      intro order member
      have found := (consistent.mem_resting.mp member).1
      rw [Bool.eq_iff_iff,decide_eq_true_eq,decide_eq_true_eq,members,found]
      simp
    rw [same]
  · have inactive := withdrawn.inactive members found owner market
    refine ⟨inactive,fun slot inside => ?_,fun read inside => ?_⟩
    · obtain ⟨_,present,_,active⟩ := (still.queues slot orderId).mp inside
      rw [found] at present
      cases present
      exact inactive active
    · obtain ⟨_,present,_,active⟩ := (still.lists read orderId).mp inside
      rw [found] at present
      cases present
      exact inactive active

end Withdrawn

namespace LiquidationEngine
variable {e after : Engine} {trader liquidator : Address} {marketId markPrice : Nat}

theorem mem_cons_spared (spared : ∀ order, e.state.getOrder first = some order → ¬Doomed trader marketId order)
    (rest : List Nat) (orderId : Nat) :
    (orderId ∈ first :: rest ∧ ∃ order, e.state.getOrder orderId = some order ∧ Doomed trader marketId order) ↔
      orderId ∈ rest ∧ ∃ order, e.state.getOrder orderId = some order ∧ Doomed trader marketId order := by
  constructor
  · rintro ⟨inside,order,found,doomed⟩
    rcases List.mem_cons.mp inside with rfl | inside
    · exact absurd doomed (spared order found)
    · exact ⟨inside,order,found,doomed⟩
  · exact fun both => ⟨List.mem_cons_of_mem _ both.1,both.2⟩

theorem cancelListedOrders_withdrawn (trader : Address) (consistent : Consistent e.desk)
    (listed : OfMarket e.desk marketId orderIds) :
    ∃ gone, Withdrawn e.desk gone (exec (cancelListedOrders trader marketId orderIds) e).2.desk ∧
      Consistent (exec (cancelListedOrders trader marketId orderIds) e).2.desk ∧
      ∀ orderId, orderId ∈ gone ↔
        orderId ∈ orderIds ∧ ∃ order, e.state.getOrder orderId = some order ∧ Doomed trader marketId order := by
  induction orderIds generalizing e with
  | nil => exact ⟨[],.refl _,consistent,fun _ => by simp⟩
  | cons first rest ih =>
    have listedRest : OfMarket e.desk marketId rest := fun other inside =>
      listed other (List.mem_cons_of_mem _ inside)
    rw [cancelListedOrders,exec_reads_bind]
    cases found : e.state.getOrder first with
    | none =>
      obtain ⟨gone,withdrawn,kept,members⟩ := ih consistent listedRest
      refine ⟨gone,withdrawn,kept,fun orderId => (members orderId).trans (mem_cons_spared ?_ rest orderId).symm⟩
      intro order present
      rw [found] at present
      cases present
    | some order =>
      have keyed := consistent.keyed first order found
      have market := listed first List.mem_cons_self order found
      dsimp only
      split
      · rename_i due
        subst keyed
        subst market
        rw [exec_writes_bind,exec_writes_bind,exec_bind_pure_state]
        have desk := OrderService.desk_cancel e (rfl : order.id = order.id) e.context
        have one := consistent.withdrawn_remove found due.2
        have still := consistent.remove found due.2
        have listed' : OfMarket (e.desk.remove order .cancelled) order.marketId rest := by
          intro other inside read present
          rw [one.orders] at present
          split at present
          · obtain ⟨before,stored,rfl⟩ := Option.map_eq_some_iff.mp present
            exact listedRest other inside before stored
          · exact listedRest other inside read present
        rw [← desk] at one still listed'
        obtain ⟨gone,two,kept,members⟩ := ih still listed'
        refine ⟨[order.id] ++ gone,one.trans two,kept,fun orderId => ?_⟩
        rw [List.singleton_append,List.mem_cons,List.mem_cons,members]
        have reads := one.orders orderId
        by_cases own : orderId = order.id
        · rw [own]
          exact iff_of_true (.inl rfl) ⟨.inl rfl,order,found,due.1,rfl,due.2⟩
        · rw [if_neg (by simpa using own)] at reads
          simp only [Engine.desk] at reads
          rw [reads]
          simp [own]
      · rename_i spared
        obtain ⟨gone,withdrawn,kept,members⟩ := ih consistent listedRest
        refine ⟨gone,withdrawn,kept,fun orderId => (members orderId).trans (mem_cons_spared ?_ rest orderId).symm⟩
        intro other present doomed
        rw [found] at present
        cases present
        exact spared ⟨doomed.1,doomed.2.2⟩

theorem withdrawn_cancels (trader : Address) (marketId : Nat) (consistent : Consistent e.desk) :
    OrdersCancelled e.desk trader marketId (withdrawn e trader marketId).desk := by
  have listed : OfMarket e.desk marketId (e.state.getActiveOrdersByMarket marketId) := by
    intro orderId inside order found
    obtain ⟨_,present,market,_⟩ := (consistent.lists marketId orderId).mp inside
    rw [found] at present
    cases present
    exact market
  obtain ⟨gone,withdrawn,still,members⟩ := cancelListedOrders_withdrawn trader consistent listed
  refine withdrawn.cancelled (fun orderId => (members orderId).trans (and_iff_right_of_imp ?_)) consistent still
  rintro ⟨order,found,_,market,active⟩
  exact (consistent.lists marketId orderId).mpr ⟨order,found,market,active⟩

theorem ordersCancelled_of_quiet {middle : Engine} (quiet : Quiet StateKey.ofOrders middle after)
    (cancelled : OrdersCancelled e.desk trader marketId middle.desk) :
    OrdersCancelled e.desk trader marketId after.desk := by
  have level : after.desk.level = middle.desk.level := by
    change after.orderbook.level = middle.orderbook.level
    rw [quiet.orderbook]
  have orders : ∀ orderId, after.desk.state.getOrder orderId = middle.desk.state.getOrder orderId :=
    fun orderId => quiet.reads.getOrder rfl
  have lists : ∀ read, after.desk.state.getActiveOrdersByMarket read = middle.desk.state.getActiveOrdersByMarket read :=
    fun read => quiet.reads.getActiveOrdersByMarket rfl
  have queue : ∀ slot, after.desk.queue slot = middle.desk.queue slot := fun slot => by
    rw [Desk.queue,level,Desk.queue]
  have total : ∀ slot, after.desk.total slot = middle.desk.total slot := fun slot => by
    rw [Desk.total,level,Desk.total]
  constructor
  · intro orderId
    rw [orders]
    exact cancelled.orders orderId
  · intro slot
    rw [queue]
    exact cancelled.queues slot
  · intro read
    rw [lists]
    exact cancelled.lists read
  · intro slot
    rw [total]
    exact cancelled.totals slot
  · intro orderId order
    rw [orders]
    simp only [queue,lists]
    exact cancelled.nowhere orderId order

-- A liquidation cancels the orders of the trader in the market and no others; without one nothing happens.
theorem cancels_exactly {answer : Option LiquidationResult} (consistent : Consistent e.desk)
    (ran : exec (liquidateWithIncentive trader marketId markPrice liquidator) e = (.ok answer,after)) :
    (answer = none → after = e) ∧ ∀ result, answer = some result → OrdersCancelled e.desk trader marketId after.desk := by
  have course := liquidateWithIncentive_liquidation ran
  generalize outcome : (Except.ok answer : Except EngineError (Option LiquidationResult)) = result at course
  cases course with
  | refused error => cases outcome
  | spared registered safe =>
    cases outcome
    exact ⟨fun _ => rfl,fun _ nothing => nomatch nothing⟩
  | due priced registered risky settled =>
    rename_i market result
    cases result with
    | error error => cases outcome
    | ok result =>
      cases outcome
      refine ⟨fun nothing => ?_,fun _ _ => ?_⟩
      · cases nothing
      have quiet := quiets_settleLiquidation StateKey.ofOrders_unbalanced StateKey.ofOrders_spared trader marketId
        (market.normalizePrice markPrice) liquidator market (withdrawn e trader marketId)
      rw [settled] at quiet
      exact ordersCancelled_of_quiet quiet (withdrawn_cancels trader marketId consistent)

def bidding : List Call :=
  [.placeOrder Bench.alice (Bench.limit true 50 2 .gtc),.placeOrder Bench.bob (Bench.limit true 50 3 .gtc)]

def cornered : StateManager := Bench.state.setPosition Bench.alice 0 ⟨10000,100,true,100000,0⟩

theorem cornered_noOrders : cornered.NoOrders := by
  have spared := StateManager.setPosition_agree Bench.state Bench.alice 0 ⟨10000,100,true,100000,0⟩
  refine ⟨fun orderId => ?_,fun marketId => ?_⟩
  · exact (spared.getOrder rfl).trans (Bench.noOrders.orders orderId)
  · exact (spared.getActiveOrdersByMarket rfl).trans (Bench.noOrders.active marketId)

theorem cancels_exactly_on_bench :
    ∃ after, OrdersCancelled ((Engine.new cornered).run bidding).desk Bench.alice 0 after ∧
      after.queue ⟨0,true,50⟩ = [1] ∧ after.total ⟨0,true,50⟩ = 3 := by
  have fits : Consistency.Fits (Engine.new cornered) bidding :=
    Consistency.fits_of_outstanding cornered_noOrders (by decide +kernel)
  obtain ⟨_,shown,exact_⟩ := Consistency.run_totals cornered_noOrders fits
  have answered : (exec (liquidateWithIncentive Bench.alice 0 94 Bench.bob) ((Engine.new cornered).run bidding)).1 =
      .ok (some ⟨Bench.alice,0,1000,94,940,39060,some Bench.bob,470,470,0⟩) := by decide +kernel
  have exactly := cancels_exactly (shown.toConsistent exact_) (exec_of_result answered)
  exact ⟨_,exactly.2 _ rfl,by decide +kernel,by decide +kernel⟩

end LiquidationEngine
end Pranklin
