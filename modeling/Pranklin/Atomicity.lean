import Pranklin.Consistency

namespace Pranklin
open Effect OrderService
open OrderbookManager (crosses)

-- The engines that calls can lead to from one without orders. Everything else that the
-- program does (deposits, transfers, agents, markets, commits) writes no key of the orders
-- and leaves the book alone.
inductive Reachable : Engine → Prop where
  | start (empty : state.NoOrders) : Reachable (Engine.new state)
  | call (reached : Reachable e) (call : Call) : Reachable (e.after call)
  | elsewhere (reached : Reachable e) (spared : Spares StateKey.ofOrders e after) : Reachable after

namespace Atomicity
variable {e after : Engine} {ledger : Ledger} {trader : Address} {request : PlaceOrderTx}

-- Ids are given out one after another, so that the ledger, which is in the order of placement, ascends.
theorem reachable_ascending (reached : Reachable e) :
    ∃ ledger, Represents e.desk ledger ∧ (ledger.map Order.id).Pairwise (· < ·) := by
  induction reached with
  | start empty => exact ⟨[],Consistency.represents_new empty,.nil⟩
  | call _ call ih =>
    obtain ⟨ledger,shown,ascending⟩ := ih
    obtain ⟨trades,ledger',conduct⟩ := Engine.after_conducts shown call
    exact ⟨ledger',Consistency.conducts_represents conduct shown,Consistency.conducts_ascending conduct shown ascending⟩
  | elsewhere _ spared ih =>
    obtain ⟨ledger,shown,ascending⟩ := ih
    exact ⟨ledger,spared.step.represents shown,ascending⟩

theorem reachable_represents (reached : Reachable e) : ∃ ledger, Represents e.desk ledger := by
  obtain ⟨ledger,shown,_⟩ := reachable_ascending reached
  exact ⟨ledger,shown⟩

theorem reachable_run (reached : Reachable e) (calls : List Call) : Reachable (e.run calls) := by
  induction calls generalizing e with
  | nil => exact reached
  | cons call calls ih => exact ih (reached.call call)

structure Untouched (e after : Engine) : Prop where
  orders : ∀ orderId, after.state.getOrder orderId = e.state.getOrder orderId
  positions : ∀ address marketId, after.state.getPosition address marketId = e.state.getPosition address marketId
  balances : ∀ address assetId, after.state.getBalance address assetId = e.state.getBalance address assetId
  active : ∀ marketId, after.state.getActiveOrdersByMarket marketId = e.state.getActiveOrdersByMarket marketId
  levels : ∀ slot, after.orderbook.level slot = e.orderbook.level slot

structure Trades (e : Engine) (trader : Address) (request : PlaceOrderTx) : Prop where
  valid : ∃ market, validateOrder e.state trader request = .ok market
  counter : e.state.orderCounter + 1 < 2 ^ 64
  passes : e.orderbook.passesPostOnly (incoming e trader request)
  sized : 0 < request.size
  counterparty : ∃ orderId maker, e.state.getOrder orderId = some maker ∧ maker.status = .active ∧
    maker.marketId = request.marketId ∧ maker.isBuy = !request.isBuy ∧ maker.owner ≠ trader ∧
    crosses (incoming e trader request) maker.price

theorem untouched_issued (e : Engine) : Untouched e (issued e) where
  orders _ := StateManager.get_set_ne _ _ (by simp)
  positions _ _ := StateManager.get_set_ne _ _ (by simp)
  balances _ _ := congrArg (Option.getD · 0) (StateManager.get_set_ne _ _ (by simp))
  active _ := congrArg (Option.getD · []) (StateManager.get_set_ne _ _ (by simp))
  levels _ := rfl

theorem takesOf_eq_nil_iff (shown : Represents e.desk ledger) (matched : Matched e trader request market middle) :
    takesOf e trader request = [] ↔ ¬Trades e trader request := by
  have queued := queued_issued shown.toQueued
  have reads : ∀ orderId, (issued e).state.getOrder orderId = e.state.getOrder orderId := (untouched_issued e).orders
  constructor
  · rintro nothing ⟨_,_,_,sized,orderId,maker,found,active,market,side,stranger,crossing⟩
    obtain rfl := (shown.complete orderId maker found).1
    have listed : maker ∈ (e.orderbook.priorityLine (issued e).state (incoming e trader request)).filter
        (OrderbookManager.eligible (incoming e trader request)) := by
      refine List.mem_filter.mpr ⟨(OrderbookManager.mem_priorityLine queued).mpr ⟨(reads _).trans found,active,market,side⟩,?_⟩
      exact Bool.and_eq_true_iff.mpr ⟨decide_eq_true stranger,crossing⟩
    rw [takesOf,OrderbookManager.takesOf,walk_eq_nil_iff] at nothing
    rcases nothing with empty | spent
    · rw [empty] at listed; cases listed
    · exact absurd spent (Nat.pos_iff_ne_zero.mp sized)
  · intro idle
    rw [takesOf,OrderbookManager.takesOf,walk_eq_nil_iff]
    by_contra some_
    rw [not_or] at some_
    obtain ⟨maker,chosen⟩ := List.exists_mem_of_ne_nil _ some_.1
    obtain ⟨inside,eligible⟩ := List.mem_filter.mp chosen
    obtain ⟨found,active,market,side⟩ := (OrderbookManager.mem_priorityLine queued).mp inside
    obtain ⟨stranger,crossing⟩ := Bool.and_eq_true_iff.mp eligible
    exact idle ⟨⟨_,matched.validated⟩,matched.counter,matched.passes,Nat.pos_of_ne_zero some_.2,maker.id,maker,
      (reads _).symm.trans found,active,market,side,of_decide_eq_true stranger,crossing⟩

theorem takes_nil_of_same (shown : Represents e.desk ledger) (matched : Matched e trader request market middle)
    (ran : exec (processFills market (fillsOf e trader request)) middle = (result,after))
    (same : ∀ orderId, after.state.getOrder orderId = e.state.getOrder orderId) : takesOf e trader request = [] := by
  by_contra some_
  obtain ⟨ledger',path,_⟩ := matched.processed_steps ran shown
  have queued := queued_issued shown.toQueued
  obtain ⟨take,member⟩ := List.exists_mem_of_ne_nil _ some_
  obtain ⟨inside,_,_⟩ := OrderbookManager.mem_takesOf member
  obtain ⟨found,active,_,_⟩ := (OrderbookManager.mem_priorityLine queued).mp inside
  have present : e.state.getOrder take.maker.id = some take.maker := ((untouched_issued e).orders _).symm.trans found
  obtain ⟨later,read,traded⟩ := path.stored shown present
  have read : e.state.getOrder take.maker.id = some later := (same _).symm.trans read
  rw [present] at read
  cases read
  have live := (shown.live _ ((shown.complete _ _ present).2.2 active)).2
  have least : take.size ≤ tradedOf (tradesOf (takesOf e trader request)) take.maker.id :=
    le_tradedOf (List.mem_map.mpr ⟨take,member,rfl⟩ : (take.maker.id,take.size) ∈ _)
  have positive := walk_size_pos _ _ take member live
  have account := traded.account
  omega

theorem untouched_of_no_takes (matched : Matched e trader request market middle)
    (ran : exec (processFills market (fillsOf e trader request)) middle = (result,after))
    (nothing : takesOf e trader request = []) : result = .ok () ∧ Untouched e after := by
  rw [fillsOf,nothing] at ran
  have desk : middle.desk = (issued e).desk := by rw [matched.desk,nothing,Desk.takeAll_nil]
  cases ran
  have state : after.state = (issued e).state := congrArg Desk.state desk
  have before := untouched_issued e
  refine ⟨rfl,?_,?_,?_,?_,fun slot => congrFun (congrArg Desk.level desk) slot⟩
  · intro orderId; rw [state]; exact before.orders orderId
  · intro address marketId; rw [state]; exact before.positions address marketId
  · intro address assetId; rw [state]; exact before.balances address assetId
  · intro marketId; rw [state]; exact before.active marketId

-- A failed order leaves no trace exactly when nothing could be traded: the request was
-- turned down before the match, or it met nobody.
theorem failed_untouched_iff (reached : Reachable e)
    (failed : exec (placeOrder trader request) e = (.error error,after)) :
    Untouched e after ↔ ¬Trades e trader request := by
  obtain ⟨ledger,shown⟩ := reachable_represents reached
  cases placeOrder_placement shown.toQueued failed with
  | refused error reason =>
    refine ⟨fun _ trades => ?_,fun _ => ⟨fun _ => rfl,fun _ _ => rfl,fun _ _ => rfl,fun _ => rfl,fun _ => rfl⟩⟩
    rcases reason with invalid | full
    · obtain ⟨market,valid⟩ := trades.valid
      rw [valid] at invalid
      cases invalid
    · exact Nat.not_lt.mpr full trades.counter
  | turnedAway fails =>
    refine ⟨fun _ trades => ?_,fun _ => untouched_issued e⟩
    rw [trades.passes] at fails
    cases fails
  | broken matched ran =>
    rw [← takesOf_eq_nil_iff shown matched]
    refine ⟨fun untouched => takes_nil_of_same shown matched ran untouched.orders,fun nothing => ?_⟩
    cases (untouched_of_no_takes matched ran nothing).1
  | killed matched ran short kill =>
    rw [← takesOf_eq_nil_iff shown matched]
    refine ⟨fun untouched => takes_nil_of_same shown matched ran untouched.orders,fun nothing => ?_⟩
    obtain ⟨_,orders,positions,balances,active,levels⟩ := untouched_of_no_takes matched ran nothing
    exact ⟨orders,positions,balances,active,levels⟩

theorem failed_untouched_iff_empty_book :
    let e := Engine.new Bench.state
    (exec (placeOrder Bench.bob (Bench.limit true 100 10 .fok)) e).1 = .error .orderNotFilled ∧
      (Untouched e (exec (placeOrder Bench.bob (Bench.limit true 100 10 .fok)) e).2 ↔
        ¬Trades e Bench.bob (Bench.limit true 100 10 .fok)) := by
  intro e
  have failed : (exec (placeOrder Bench.bob (Bench.limit true 100 10 .fok)) e).1 = .error .orderNotFilled := by
    decide +kernel
  have ran : exec (placeOrder Bench.bob (Bench.limit true 100 10 .fok)) e =
      (.error .orderNotFilled,(exec (placeOrder Bench.bob (Bench.limit true 100 10 .fok)) e).2) := by
    rw [← failed]
  exact ⟨failed,failed_untouched_iff (.start Bench.noOrders) ran⟩

-- A fill-or-kill order for ten against five on offer fails and takes the five.
theorem failed_fill_or_kill_fills_maker :
    let e := (Engine.new Bench.state).run [.placeOrder Bench.alice (Bench.limit false 100 5 .gtc)]
    let after := (exec (placeOrder Bench.bob (Bench.limit true 100 10 .fok)) e).2
    (exec (placeOrder Bench.bob (Bench.limit true 100 10 .fok)) e).1 = .error .orderNotFilled ∧
      e.state.getOrder 0 ≠ after.state.getOrder 0 ∧
      (e.state.getPosition Bench.bob 0,after.state.getPosition Bench.bob 0) =
        (none,some ⟨5,100,true,50,0⟩) ∧
      ¬Untouched e after := by
  intro e after
  have failed : (exec (placeOrder Bench.bob (Bench.limit true 100 10 .fok)) e).1 = .error .orderNotFilled := by
    decide +kernel
  have changed : e.state.getOrder 0 ≠ after.state.getOrder 0 := by decide +kernel
  exact ⟨failed,changed,by decide +kernel,fun untouched => changed (untouched.orders 0).symm⟩

end Atomicity
end Pranklin
