import Pranklin.Atomicity

namespace Pranklin.OrderbookManager
variable {book : OrderbookManager} {order : Order}

-- Price-time priority. The line is the opposing active orders, each once, best price
-- first and in queue order within a price; the fills are those of the greedy walk down
-- the eligible part of it, and so are the orders stored afterwards.
theorem matchOrder_price_time_priority {state : StateManager} (consistent : Consistent (book.desk state))
    (passes : book.passesPostOnly order) :
    let line := book.priorityLine state order
    let takes := walk order.remainingSize (line.filter (eligible order))
    ((∀ maker, maker ∈ line ↔ state.getOrder maker.id = some maker ∧ maker.status = .active ∧
        maker.marketId = order.marketId ∧ maker.isBuy = !order.isBuy) ∧
      (line.map Order.id).Nodup ∧
      line.Pairwise (fun maker later =>
        ahead (!order.isBuy) maker.price later.price ∨ maker.price = later.price) ∧
      ∀ price, (line.filter (·.price = price)).map Order.id =
        ((book.side (!order.isBuy) order.marketId)[price]?).elim [] PriceLevel.orders) ∧
    ∃ m, book.matchOrder state order = .ok m ∧ m.fills = takes.map (Take.fill order) ∧
      (∀ take ∈ takes, m.state.getOrder take.maker.id = some {take.maker with
        remainingSize:=take.maker.remainingSize - take.size,
        status:=if take.maker.remainingSize - take.size = 0 then .filled else .active}) ∧
      ∀ orderId, orderId ∉ takes.map (·.maker.id) → m.state.getOrder orderId = state.getOrder orderId := by
  have queued := consistent.toQueued
  refine ⟨⟨fun maker => mem_priorityLine queued,priorityLine_ids_nodup queued,priorityLine_sorted queued,
    priorityLine_at queued⟩,?_⟩
  obtain ⟨m,matched,fills,desk⟩ := matchOrder_desk queued passes
  have reads : m.state = ((book.desk state).takeAll (book.takesOf state order)).state := congrArg Desk.state desk
  refine ⟨m,matched,fills,fun take member => ?_,fun orderId absent => ?_⟩
  · obtain ⟨inside,_,covered⟩ := mem_takesOf member
    have active := ((mem_priorityLine queued).mp inside).2.1
    rw [reads,Desk.getOrder_takeAll_of_mem (takesOf_makers_nodup queued) member,
      Take.taken_eq covered active]
  · rw [reads]
    exact Desk.getOrder_takeAll_of_absent absent _

-- A queue lists the orders of its price by the time they were placed.
theorem queue_ascending {e : Engine} (reached : Reachable e) (slot : Slot) : (e.desk.queue slot).Pairwise (· < ·) := by
  obtain ⟨ledger,shown,ascending⟩ := Atomicity.reachable_ascending reached
  rw [shown.queued]
  exact ascending.sublist (List.filter_sublist.map _)

theorem priorityLine_first_placed {e : Engine} (reached : Reachable e) (order : Order) :
    (e.orderbook.priorityLine e.state order).Pairwise fun maker later =>
      ahead (!order.isBuy) maker.price later.price ∨ maker.price = later.price ∧ maker.id < later.id := by
  obtain ⟨ledger,shown⟩ := Atomicity.reachable_represents reached
  have queued : Queued (e.orderbook.desk e.state) := shown.toQueued.of_reads rfl fun _ => rfl
  rw [List.pairwise_iff_forall_sublist]
  intro maker later among
  rcases List.pairwise_iff_forall_sublist.mp (priorityLine_sorted queued) among with better | same
  · exact .inl better
  refine .inr ⟨same,?_⟩
  have level : [maker.id,later.id].Sublist ((e.orderbook.desk e.state).queue (facing order maker.price)) := by
    have part := (among.filter (·.price = maker.price)).map Order.id
    rw [priorityLine_at queued] at part
    simpa [same] using part
  exact List.pairwise_iff_forall_sublist.mp (queue_ascending reached _) level

def sellers : List Call := [.placeOrder Bench.alice Bench.ask,.placeOrder Bench.bob Bench.ask,
  .placeOrder Bench.alice (Bench.limit false 99 5 .gtc)]

def sold : Engine := (Engine.new Bench.state).run sellers

theorem sold_consistent : Consistent (sold.orderbook.desk sold.state) := by
  have fits : Consistency.Fits (Engine.new Bench.state) sellers :=
    Consistency.fits_of_outstanding Bench.noOrders (by decide +kernel)
  obtain ⟨ledger,shown,exact_⟩ := Consistency.run_totals Bench.noOrders fits
  have sound : sold.borrowed = false := exact_.sound
  have same : sold.orderbook.desk sold.state = sold.desk := by rw [Engine.desk,sound]; rfl
  rw [same]
  exact shown.toConsistent exact_

theorem matchOrder_price_time_priority_three_makers :
    let order := OrderService.newOrder Bench.carol (Bench.limit true 100 7 .gtc) 3 0
    ((sold.orderbook.takesOf sold.state order).map fun take => (take.maker.id,take.size)) = [(2,5),(0,2)] ∧
      ∃ m, sold.orderbook.matchOrder sold.state order = .ok m ∧
        m.fills = (sold.orderbook.takesOf sold.state order).map (Take.fill order) := by
  intro order
  have passes : sold.orderbook.passesPostOnly order := by decide +kernel
  obtain ⟨_,m,matched,fills,_⟩ := matchOrder_price_time_priority sold_consistent passes
  exact ⟨by decide +kernel,m,matched,fills⟩

end Pranklin.OrderbookManager
