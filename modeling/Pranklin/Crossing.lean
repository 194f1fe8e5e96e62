import Pranklin.Atomicity

namespace Pranklin
open Words Effect OrderService OrderbookManager

theorem walk_exhausts {remaining : Nat} {line : List Order} (left : takenSize (walk remaining line) < remaining) :
    ∀ maker ∈ line, (⟨maker,maker.remainingSize⟩ : Take) ∈ walk remaining line := by
  induction line generalizing remaining with
  | nil => simp
  | cons first line ih =>
    have open_ : remaining ≠ 0 := by omega
    simp only [walk,open_,if_false,takenSize_cons] at left ⊢
    have whole : min remaining first.remainingSize = first.remainingSize := by omega
    rw [whole] at left ⊢
    intro maker inside
    rcases List.mem_cons.mp inside with rfl | inside
    · exact List.mem_cons_self
    · exact List.mem_cons_of_mem _ (ih (by omega) maker inside)

structure Stored (e : Engine) (trader : Address) (request : PlaceOrderTx) (after : Engine) (order : Order) : Prop where
  validated : ∃ market, validateOrder e.state trader request = .ok market
  identity : ∃ status, order = {remainder e trader request with status:=status}
  resting : order.status = .active → (remainder e trader request).remainingSize ≠ 0
  makers : ∀ take ∈ takesOf e trader request, after.state.getOrder take.maker.id = some take.taken

section Origin
variable {e after : Engine} {ledger : Ledger} {trader : Address} {request : PlaceOrderTx} {order : Order}

theorem settleOrder_status (ran : exec (settleOrder order timeInForce) e = (.ok (),after))
    (found : after.state.getOrder order.id = some final) (active : final.status = .active) : order.remainingSize ≠ 0 := by
  intro nothing
  unfold settleOrder at ran
  rw [if_pos nothing] at ran
  cases ran
  have stored : final = {order with status:=.filled} := by simpa using found.symm
  rw [stored] at active
  cases active

theorem processed_makers (shown : Represents e.desk ledger) (matched : Matched e trader request market middle)
    (ran : exec (processFills market (fillsOf e trader request)) middle = (result,after)) (orderId : Nat) :
    (∀ take ∈ takesOf e trader request, take.maker.id = orderId → after.state.getOrder orderId = some take.taken) ∧
      (orderId ∉ (takesOf e trader request).map (·.maker.id) → after.state.getOrder orderId = e.state.getOrder orderId) := by
  have queued := queued_issued shown.toQueued
  have spared : after.state.getOrder orderId = middle.state.getOrder orderId := (processFills_spares ran).reads _ rfl
  have reads : middle.state = ((issued e).desk.takeAll (takesOf e trader request)).state := congrArg Desk.state matched.desk
  rw [spared,reads]
  constructor
  · rintro take member rfl
    exact Desk.getOrder_takeAll_of_mem (OrderbookManager.takesOf_makers_nodup queued) member _
  · intro absent
    rw [Desk.getOrder_takeAll_of_absent absent]
    exact (Atomicity.untouched_issued e).orders orderId

theorem maker_ne_counter (shown : Represents e.desk ledger) {take : Take} (member : take ∈ takesOf e trader request) :
    take.maker.id ≠ e.state.orderCounter := by
  intro same
  have queued := queued_issued shown.toQueued
  have found := ((mem_priorityLine queued).mp (mem_takesOf member).1).1
  rw [(Atomicity.untouched_issued e).orders,same,getOrder_counter shown] at found
  cases found

theorem after_origin (shown : Represents e.desk ledger) {call : Call}
    (found : (e.after call).state.getOrder orderId = some order) :
    (∃ before, e.state.getOrder orderId = some before ∧ before.Evolves order) ∨
      ∃ trader request, call.placing e = some (trader,request) ∧ orderId = e.state.orderCounter ∧
        Stored e trader request (e.after call) order := by
  have earlier : ∀ {middle : Engine} {trades ledger'}, Steps e.desk ledger trades middle.desk ledger' →
      middle.state.getOrder orderId = some order →
      ∃ before, e.state.getOrder orderId = some before ∧ before.Evolves order := by
    intro middle trades ledger' path found
    obtain ⟨before,present,traded⟩ := path.origin shown found
    exact ⟨before,present,traded.toEvolves⟩
  cases call.outcome shown with
  | places trader request result placing placement fails returns =>
    generalize e.after call = after at found placement ⊢
    cases placement with
    | refused error reason => exact .inl ⟨order,found,.refl order⟩
    | turnedAway fails => exact .inl (earlier (issued_step e).steps found)
    | broken matched ran => exact .inl (earlier (matched.processed_steps ran shown).choose_spec.1 found)
    | killed matched ran short kill =>
      exact .inl (earlier (matched.processed_steps ran shown).choose_spec.1 found)
    | settled matched ran ended =>
      obtain ⟨_,_,status,reads⟩ := settleOrder_stores ended
      have own : (remainder e trader request).id = e.state.orderCounter := rfl
      by_cases fresh : orderId = e.state.orderCounter
      · subst fresh
        refine .inr ⟨trader,request,placing,rfl,⟨_,matched.validated⟩,⟨status,?_⟩,settleOrder_status ended found,?_⟩
        · rw [reads,own,if_pos rfl] at found
          exact (Option.some_inj.mp found).symm
        · intro take member
          rw [reads,own,if_neg (maker_ne_counter shown member)]
          exact (processed_makers shown matched ran take.maker.id).1 take member rfl
      · rw [reads,own,if_neg fresh] at found
        exact .inl (earlier (matched.processed_steps ran shown).choose_spec.1 found)
  | idles placing same fails => rw [same] at found; exact .inl ⟨order,found,.refl order⟩
  | cancels trader cancel result placing cancellation returns =>
    exact .inl (earlier (cancellation.steps shown).choose_spec found)
  | liquidates ledger' liquidation placing path context returns => exact .inl (earlier path found)

end Origin

def Engine.Uncrossed (e : Engine) : Prop :=
  ∀ bidId bid askId ask, e.state.getOrder bidId = some bid → e.state.getOrder askId = some ask →
    bid.status = .active → ask.status = .active → bid.isBuy = true → ask.isBuy = false →
    bid.marketId = ask.marketId → ask.price ≤ bid.price → bid.owner = ask.owner

namespace Crossing
variable {e after : Engine} {ledger : Ledger} {trader : Address} {request : PlaceOrderTx} {order other : Order}

theorem active_before {before : Order} (evolves : before.Evolves order) (active : order.status = .active) :
    before.status = .active := by
  rcases evolves.status with same | ⟨active,_⟩
  · rw [← same]; exact active
  · exact active

-- Beside an order that has come to rest no foreign order is left that it could have met.
theorem met_by_own (shown : Represents e.desk ledger) (stored : Stored e trader request after order)
    (resting : order.status = .active) {before : Order} (found : e.state.getOrder orderId = some before)
    (kept : after.state.getOrder orderId = some other) (evolves : before.Evolves other) (active : other.status = .active)
    (market : before.marketId = request.marketId) (side : before.isBuy = !request.isBuy)
    (crossing : crosses (incoming e trader request) before.price) : before.owner = trader := by
  by_contra foreign
  have queued := queued_issued shown.toQueued
  have keyed : before.id = orderId := shown.toQueued.keyed orderId before found
  have inLine : before ∈ (e.orderbook.priorityLine (issued e).state (incoming e trader request)).filter
      (eligible (incoming e trader request)) := by
    have read : (issued e).state.getOrder before.id = some before := by
      rw [(Atomicity.untouched_issued e).orders,keyed]
      exact found
    refine List.mem_filter.mpr ⟨(mem_priorityLine queued).mpr ⟨read,active_before evolves active,market,side⟩,?_⟩
    exact Bool.and_eq_true_iff.mpr ⟨decide_eq_true foreign,crossing⟩
  have left : takenSize (walk request.size ((e.orderbook.priorityLine (issued e).state (incoming e trader request)).filter
      (eligible (incoming e trader request)))) < request.size := Nat.lt_of_sub_ne_zero (stored.resting resting)
  have taken := stored.makers _ (walk_exhausts left before inLine)
  have final : other = before.ended .filled := by
    rw [keyed,kept] at taken
    simpa [Take.taken] using taken
  rw [final] at active
  cases active

theorem after_uncrossed (shown : Represents e.desk ledger) (uncrossed : e.Uncrossed) (call : Call) :
    (e.after call).Uncrossed := by
  intro bidId bid askId ask bidFound askFound bidActive askActive buys sells market crossing
  rcases after_origin shown bidFound with ⟨oldBid,bidBefore,bidEvolves⟩ | ⟨trader,request,placing,bidNew,bidStored⟩
  · obtain ⟨_,bidOwner,bidMarket,bidSide,bidPrice,_⟩ := bidEvolves.identity
    rcases after_origin shown askFound with ⟨oldAsk,askBefore,askEvolves⟩ | ⟨trader,request,placing,askNew,askStored⟩
    · obtain ⟨_,askOwner,askMarket,askSide,askPrice,_⟩ := askEvolves.identity
      rw [bidOwner,askOwner]
      exact uncrossed bidId oldBid askId oldAsk bidBefore askBefore (active_before bidEvolves bidActive)
        (active_before askEvolves askActive) (bidSide ▸ buys) (askSide ▸ sells) (by rw [← bidMarket,← askMarket,market])
        (by rw [← bidPrice,← askPrice]; exact crossing)
    · -- The ask is new: it has met every foreign bid at or above its price.
      obtain ⟨status,rfl⟩ := askStored.identity
      have sells : request.isBuy = false := sells
      have price : request.price ≤ oldBid.price := by rw [← bidPrice]; exact crossing
      have own := met_by_own shown askStored askActive bidBefore bidFound bidEvolves bidActive
        (by rw [← bidMarket,market]; rfl) (by rw [← bidSide,buys,sells]; rfl)
        (by simp [crosses,incoming,newOrder,sells,price])
      rw [bidOwner,own]
      rfl
  · obtain ⟨status,rfl⟩ := bidStored.identity
    have buys : request.isBuy = true := buys
    rcases after_origin shown askFound with ⟨oldAsk,askBefore,askEvolves⟩ | ⟨_,_,_,askNew,_⟩
    · obtain ⟨_,askOwner,askMarket,askSide,askPrice,_⟩ := askEvolves.identity
      have price : oldAsk.price ≤ request.price := by rw [← askPrice]; exact crossing
      have own := met_by_own shown bidStored bidActive askBefore askFound askEvolves askActive
        (by rw [← askMarket,← market]; rfl) (by rw [← askSide,sells,buys]; rfl)
        (by simp [crosses,incoming,newOrder,buys,price])
      rw [askOwner,own]
      rfl
    · rw [bidNew,← askNew,askFound] at bidFound
      obtain rfl := Option.some_inj.mp bidFound
      have sells : request.isBuy = false := sells
      exact absurd (sells.symm.trans buys) Bool.false_ne_true

theorem reachable_uncrossed (reached : Reachable e) : e.Uncrossed := by
  induction reached with
  | @start state empty =>
    intro bidId bid askId ask bidFound
    exact absurd bidFound (empty.absent bidId bid)
  | call reached call ih =>
    obtain ⟨ledger,shown⟩ := Atomicity.reachable_represents reached
    exact after_uncrossed shown ih call
  | elsewhere reached spared ih =>
    intro bidId bid askId ask bidFound askFound
    have bidBefore := (spared.reads (.order bidId) rfl).symm.trans bidFound
    have askBefore := (spared.reads (.order askId) rfl).symm.trans askFound
    exact ih bidId bid askId ask bidBefore askBefore

-- In every engine that calls can lead to, a bid and an ask that rest in the book of a market
-- and cross are orders of one owner.
theorem crossing_orders_share_owner (reached : Reachable e) (marketId bidPrice askPrice bidId askId : Nat)
    (bids : bidId ∈ e.desk.queue ⟨marketId,true,bidPrice⟩) (asks : askId ∈ e.desk.queue ⟨marketId,false,askPrice⟩)
    (cross : askPrice ≤ bidPrice) :
    ∃ bid ask, e.state.getOrder bidId = some bid ∧ e.state.getOrder askId = some ask ∧
      bid.price = bidPrice ∧ ask.price = askPrice ∧ bid.owner = ask.owner := by
  obtain ⟨ledger,shown⟩ := Atomicity.reachable_represents reached
  obtain ⟨bid,bidFound,bidSlot,bidActive⟩ := (shown.toQueued.queues _ bidId).mp bids
  obtain ⟨ask,askFound,askSlot,askActive⟩ := (shown.toQueued.queues _ askId).mp asks
  obtain ⟨rfl,buys,rfl⟩ := Slot.mk.inj bidSlot
  obtain ⟨market,sells,rfl⟩ := Slot.mk.inj askSlot
  exact ⟨bid,ask,bidFound,askFound,rfl,rfl,reachable_uncrossed reached bidId bid askId ask bidFound askFound bidActive askActive
    buys sells market.symm cross⟩

-- A trader whose sell at no price rests under his own bid.
theorem crossing_orders_share_owner_own_bid :
    let e := (Engine.new Bench.state).run [.placeOrder Bench.alice Bench.bid,
      .placeOrder Bench.bob (Bench.limit false 100 2 .gtc),.placeOrder Bench.alice (Bench.limit false 0 4 .gtc)]
    0 ∈ e.desk.queue ⟨0,true,100⟩ ∧ 2 ∈ e.desk.queue ⟨0,false,0⟩ ∧
      ∃ bid ask, e.state.getOrder 0 = some bid ∧ e.state.getOrder 2 = some ask ∧ bid.price = 100 ∧ ask.price = 0 ∧
        bid.owner = ask.owner := by
  intro e
  have bids : 0 ∈ e.desk.queue ⟨0,true,100⟩ := by decide +kernel
  have asks : 2 ∈ e.desk.queue ⟨0,false,0⟩ := by decide +kernel
  have reached : Reachable e := .call (.call (.call (.start Bench.noOrders) _) _) _
  exact ⟨bids,asks,crossing_orders_share_owner reached 0 100 0 0 2 bids asks (by decide)⟩

end Crossing
end Pranklin
