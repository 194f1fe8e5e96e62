import Pranklin.Conduct

namespace Pranklin
open Words Effect OrderService

def Conducts (d : Desk) (ledger : Ledger) (trades : List (Nat × Nat)) (after : Desk) (ledger' : Ledger) : Prop :=
  ∃ middle ledger₁, Steps d ledger trades middle ledger₁ ∧ Settles middle ledger₁ after ledger'

def tradesOf (takes : List Take) : List (Nat × Nat) := takes.map fun take => (take.maker.id,take.size)

section Desk
variable {d : Desk} {ledger : Ledger}

theorem Steps.conducts (path : Steps d ledger trades after ledger') : Conducts d ledger trades after ledger' :=
  ⟨after,ledger',path,.still⟩

theorem Desk.take_step {take : Take} (member : take.maker ∈ ledger) (covered : take.size ≤ take.maker.remainingSize) :
    ∃ ledger', Step d ledger [(take.maker.id,take.size)] (d.take take) ledger' ∧
      ∀ order ∈ ledger, order.id ≠ take.maker.id → order ∈ ledger' := by
  unfold Desk.take
  split
  · rename_i part
    exact ⟨_,.reduce take.maker take.size member part,fun order inside other =>
      KeyedList.mem_alter.mpr (.inl ⟨inside,other⟩)⟩
  · have whole : take.size = take.maker.remainingSize := by omega
    rw [whole]
    exact ⟨_,.fill take.maker member,fun order inside other =>
      KeyedList.mem_alter.mpr (.inl ⟨inside,other⟩)⟩

theorem Desk.takeAll_steps {takes : List Take} (distinct : (takes.map (·.maker.id)).Nodup)
    (members : ∀ take ∈ takes, take.maker ∈ ledger ∧ take.size ≤ take.maker.remainingSize) :
    ∃ ledger', Steps d ledger (tradesOf takes) (d.takeAll takes) ledger' := by
  induction takes generalizing d ledger with
  | nil => exact ⟨ledger,.refl⟩
  | cons take takes ih =>
    obtain ⟨fresh,distinct⟩ := List.nodup_cons.mp distinct
    obtain ⟨member,covered⟩ := members take List.mem_cons_self
    obtain ⟨ledger₁,step,keeps⟩ := Desk.take_step (d:=d) member covered
    have others : ∀ other ∈ takes, other.maker ∈ ledger₁ ∧ other.size ≤ other.maker.remainingSize := by
      intro other inside
      obtain ⟨member,covered⟩ := members other (List.mem_cons_of_mem _ inside)
      refine ⟨keeps _ member fun same => fresh ?_,covered⟩
      exact List.mem_map.mpr ⟨other,inside,same⟩
    obtain ⟨ledger',path⟩ := ih (d:=d.take take) distinct others
    exact ⟨ledger',step.steps.trans path⟩

end Desk

namespace OrderService
variable {e : Engine} {trader : Address} {request : PlaceOrderTx} {ledger : Ledger}

theorem desk_rest (e : Engine) (order : Order) :
    Engine.desk {e with
      state:=(e.state.setOrder order.id order).addActiveOrder order.marketId order.id,
      orderbook:=e.orderbook.addOrder order.id order} = e.desk.rest order := by
  simp only [Engine.desk,Desk.rest,Desk.mk.injEq,true_and,and_true]
  funext slot
  rw [OrderbookManager.level_addOrder,Function.update_apply]

theorem desk_cancel {orderId : Nat} (e : Engine) (keyed : order.id = orderId) (context : List Event) :
    Engine.desk {e with
      state:=(e.state.setOrder orderId {order with status:=.cancelled}).removeActiveOrder order.marketId orderId,
      orderbook:=e.orderbook.removeOrder orderId order,
      context:=context} = e.desk.remove order .cancelled := by
  subst keyed
  simp only [Engine.desk,Desk.remove,Desk.mk.injEq,and_true]
  refine ⟨rfl,?_⟩
  funext slot
  rw [OrderbookManager.level_removeOrder,Function.update_apply]

-- The id of the incoming order is new to the tables and the last that the counter gave out.
structure Fresh (d : Desk) (orderId : Nat) : Prop where
  absent : d.state.getOrder orderId = none
  issued : orderId + 1 = d.state.orderCounter

theorem settleOrder_settles {order : Order} (ledger : Ledger) (fresh : Fresh e.desk order.id)
    (ran : exec (settleOrder order timeInForce) e = (.ok (),after)) :
    ∃ ledger', Settles e.desk ledger after.desk ledger' := by
  unfold settleOrder at ran
  split at ran
  · rename_i nothing
    cases ran
    exact ⟨ledger,.store {order with status:=.filled} fresh.absent fresh.issued (by simp) (by simp [nothing])⟩
  · rename_i left
    have positive : 0 < order.remainingSize := Nat.pos_of_ne_zero left
    cases timeInForce with
    | gtc | postOnly =>
      cases ran
      rw [desk_rest e {order with status:=.active}]
      exact ⟨_,.rest {order with status:=.active} fresh.absent fresh.issued rfl positive⟩
    | ioc =>
      cases ran
      exact ⟨ledger,.store {order with status:=.cancelled} fresh.absent fresh.issued (by simp) (by simpa using left)⟩
    | fok => cases ran

theorem settleOrder_stores (ran : exec (settleOrder order timeInForce) e = (.ok (),after)) :
    after.context = e.context ∧ after.state.orderCounter = e.state.orderCounter ∧
      ∃ status, ∀ orderId, after.state.getOrder orderId =
        if orderId = order.id then some {order with status:=status} else e.state.getOrder orderId := by
  unfold settleOrder at ran
  split at ran
  · cases ran; exact ⟨rfl,by simp,_,fun orderId => by simp; rfl⟩
  · cases timeInForce with
    | gtc | postOnly => cases ran; exact ⟨rfl,by simp,_,fun orderId => by simp; rfl⟩
    | ioc => cases ran; exact ⟨rfl,by simp,_,fun orderId => by simp; rfl⟩
    | fok => cases ran

theorem issued_step (e : Engine) : Step e.desk ledger [] (issued e).desk ledger := .handOut

theorem getOrder_counter (shown : Represents e.desk ledger) : e.state.getOrder e.state.orderCounter = none := by
  cases found : e.state.getOrder e.state.orderCounter with
  | none => rfl
  | some order => exact absurd (shown.complete _ order found).2.1 (Nat.lt_irrefl _)

theorem Matched.steps (matched : Matched e trader request market middle) (shown : Represents e.desk ledger) :
    ∃ ledger', Steps e.desk ledger (tradesOf (takesOf e trader request)) middle.desk ledger' ∧
      Fresh middle.desk e.state.orderCounter := by
  have queued := queued_issued shown.toQueued
  have members : ∀ take ∈ takesOf e trader request,
      take.maker ∈ ledger ∧ take.size ≤ take.maker.remainingSize := by
    intro take member
    obtain ⟨inside,_,covered⟩ := OrderbookManager.mem_takesOf member
    obtain ⟨found,active,_,_⟩ := (OrderbookManager.mem_priorityLine queued).mp inside
    exact ⟨shown.mem_iff.mpr ⟨(StateManager.get_set_ne _ _ (by simp)).symm.trans found,active⟩,covered⟩
  obtain ⟨ledger',path⟩ := Desk.takeAll_steps (d:=(issued e).desk)
    (OrderbookManager.takesOf_makers_nodup queued) members
  rw [← takesOf,← matched.desk] at path
  have whole := (issued_step e).steps.trans path
  refine ⟨ledger',whole,whole.absent shown (getOrder_counter shown),?_⟩
  rw [matched.desk,Desk.orderCounter_takeAll]
  simp [issued,Engine.desk,StateManager.orderCounter,StateManager.get_set_self]

theorem processFills_spares {middle : Engine} (ran : exec (processFills market fills) middle = (result,after)) :
    Spares StateKey.ofOrders middle after := by
  have spared := spares_processFills StateKey.ofOrders_spared market fills middle
  rwa [ran] at spared

theorem Matched.processed_steps (matched : Matched e trader request market middle)
    (ran : exec (processFills market (fillsOf e trader request)) middle = (result,after))
    (shown : Represents e.desk ledger) :
    ∃ ledger', Steps e.desk ledger (tradesOf (takesOf e trader request)) after.desk ledger' ∧
      Fresh after.desk e.state.orderCounter := by
  obtain ⟨ledger',path,fresh⟩ := matched.steps shown
  have spared := processFills_spares ran
  have whole := path.tail spared.step
  rw [List.append_nil] at whole
  refine ⟨ledger',whole,whole.absent shown (getOrder_counter shown),?_⟩
  exact fresh.issued.trans (spared.reads.orderCounter rfl).symm

theorem Placement.conducts (placement : Placement e trader request result after)
    (shown : Represents e.desk ledger) : ∃ trades ledger', Conducts e.desk ledger trades after.desk ledger' := by
  cases placement with
  | refused error reason => exact ⟨[],ledger,Steps.conducts .refl⟩
  | turnedAway fails => exact ⟨[],ledger,(issued_step e).steps.conducts⟩
  | broken matched ran =>
    obtain ⟨ledger',path,_⟩ := matched.processed_steps ran shown
    exact ⟨_,ledger',path.conducts⟩
  | killed matched ran short kill =>
    obtain ⟨ledger',path,_⟩ := matched.processed_steps ran shown
    exact ⟨_,ledger',path.conducts⟩
  | settled matched ran ended =>
    obtain ⟨ledger₁,path,fresh⟩ := matched.processed_steps ran shown
    obtain ⟨ledger',ending⟩ := settleOrder_settles ledger₁ fresh ended
    exact ⟨_,ledger',_,_,path,ending⟩

theorem Cancellation.steps (cancellation : Cancellation e trader cancel result after)
    (shown : Represents e.desk ledger) : ∃ ledger', Steps e.desk ledger [] after.desk ledger' := by
  cases cancellation with
  | refused error reason => exact ⟨ledger,.refl⟩
  | cancelled order found active =>
    obtain ⟨keyed,_,member⟩ := shown.complete cancel.orderId order found
    rw [desk_cancel e keyed]
    exact ⟨_,(Step.cancel order (member active)).steps⟩

end OrderService

namespace LiquidationEngine
variable {e : Engine} {ledger : Ledger}

def OfMarket (d : Desk) (marketId : Nat) (orderIds : List Nat) : Prop :=
  ∀ orderId ∈ orderIds, ∀ order, d.state.getOrder orderId = some order → order.marketId = marketId

theorem cancelListedOrders_steps (trader : Address) (shown : Represents e.desk ledger)
    (listed : OfMarket e.desk marketId orderIds) :
    ∃ ledger', Steps e.desk ledger [] (exec (cancelListedOrders trader marketId orderIds) e).2.desk ledger' ∧
      (exec (cancelListedOrders trader marketId orderIds) e).2.context = e.context := by
  induction orderIds generalizing e ledger with
  | nil => exact ⟨ledger,.refl,rfl⟩
  | cons orderId rest ih =>
    have listedRest : OfMarket e.desk marketId rest := fun other inside =>
      listed other (List.mem_cons_of_mem _ inside)
    rw [cancelListedOrders,exec_reads_bind]
    cases found : e.state.getOrder orderId with
    | none => exact ih shown listedRest
    | some order =>
      dsimp only
      split
      · rename_i due
        obtain ⟨keyed,_,member⟩ := shown.complete orderId order found
        obtain rfl := listed orderId List.mem_cons_self order found
        have step : Step e.desk ledger [] (e.desk.remove order .cancelled) _ := .cancel order (member due.2)
        rw [exec_writes_bind]
        rw [exec_writes_bind]
        rw [exec_bind_pure_state]
        have desk := OrderService.desk_cancel e keyed e.context
        have shown' := step.represents shown
        rw [← desk] at step shown'
        have listed' : OfMarket (e.desk.remove order .cancelled) order.marketId rest := by
          intro other inside read present
          simp only [Desk.remove,StateManager.getOrder_removeActiveOrder,StateManager.getOrder_setOrder] at present
          split at present
          · cases present; rfl
          · exact listedRest other inside read present
        rw [← desk] at listed'
        obtain ⟨ledger',path,context⟩ := ih shown' listed'
        exact ⟨ledger',step.steps.trans path,context⟩
      · exact ih shown listedRest

theorem cancelTraderOrders_steps (trader : Address) (marketId : Nat) (shown : Represents e.desk ledger) :
    ∃ ledger', Steps e.desk ledger [] (exec (cancelTraderOrders trader marketId) e).2.desk ledger' ∧
      (exec (cancelTraderOrders trader marketId) e).2.context = e.context := by
  refine cancelListedOrders_steps trader shown fun orderId inside order found => ?_
  have inside : orderId ∈ e.desk.state.getActiveOrdersByMarket marketId := inside
  rw [shown.listed] at inside
  obtain ⟨member,chosen,same⟩ := List.mem_map.mp inside
  obtain ⟨stored,market⟩ := List.mem_filter.mp chosen
  have present := shown.stored member stored
  rw [same,found] at present
  cases present
  exact of_decide_eq_true market

theorem liquidateWithIncentive_steps (trader : Address) (marketId markPrice : Nat) (liquidator : Address)
    (shown : Represents e.desk ledger) :
    ∃ ledger', Steps e.desk ledger []
      (exec (liquidateWithIncentive trader marketId markPrice liquidator) e).2.desk ledger' ∧
      (exec (liquidateWithIncentive trader marketId markPrice liquidator) e).2.context = e.context := by
  cases ran : exec (liquidateWithIncentive trader marketId markPrice liquidator) e with
  | mk result after =>
  cases liquidateWithIncentive_liquidation ran with
  | refused error undue => exact ⟨ledger,.refl,rfl⟩
  | spared registered safe => exact ⟨ledger,.refl,rfl⟩
  | @due market result _ priced registered risky settled =>
    obtain ⟨ledger',path,context⟩ := cancelTraderOrders_steps trader marketId shown
    have quiet := quiets_settleLiquidation StateKey.ofOrders_unbalanced StateKey.ofOrders_spared trader marketId
      (market.normalizePrice markPrice) liquidator market (withdrawn e trader marketId)
    rw [settled] at quiet
    exact ⟨ledger',path.tail quiet.step,quiet.context.trans context⟩

end LiquidationEngine

namespace PositionService
variable {e : Engine} {trader : Address} {close : ClosePositionTx}

theorem closePosition_none (absent : e.state.getPosition trader close.marketId = none) :
    exec (closePosition trader close) e = (.error .positionNotFound,e) := by
  rw [closePosition,exec_reads_bind]
  rw [absent]
  rfl

theorem closePosition_some (found : e.state.getPosition trader close.marketId = some position) :
    exec (closePosition trader close) e =
      exec (OrderService.placeOrder trader (closeOrder position close) >>= fun _ => pure ()) e := by
  rw [closePosition,exec_reads_bind]
  rw [found]
  rfl

end PositionService

inductive Call where
  | placeOrder (trader : Address) (request : PlaceOrderTx)
  | cancelOrder (trader : Address) (cancel : CancelOrderTx)
  | closePosition (trader : Address) (close : ClosePositionTx)
  | liquidateWithIncentive (trader : Address) (marketId markPrice : Nat) (liquidator : Address)
deriving DecidableEq

def Call.perform : Call → EngineM (Option Nat)
  | .placeOrder trader request => do return some (← OrderService.placeOrder trader request)
  | .cancelOrder trader cancel => do OrderService.cancelOrder trader cancel; return none
  | .closePosition trader close => do PositionService.closePosition trader close; return none
  | .liquidateWithIncentive trader marketId markPrice liquidator => do
    let _ ← LiquidationEngine.liquidateWithIncentive trader marketId markPrice liquidator
    return none

namespace Engine

def result (e : Engine) (call : Call) : Except EngineError (Option Nat) := (exec call.perform e).1

def after (e : Engine) (call : Call) : Engine := (exec call.perform e).2

-- The engine after each call, whatever its outcome.
def run (e : Engine) (calls : List Call) : Engine := calls.foldl Engine.after e

def results (e : Engine) : List Call → List (Except EngineError (Option Nat))
  | [] => []
  | call :: calls => e.result call :: (e.after call).results calls

theorem run_append (e : Engine) (calls : List Call) (call : Call) :
    e.run (calls ++ [call]) = (e.run calls).after call := by simp [run]

theorem results_append (e : Engine) (calls : List Call) (call : Call) :
    e.results (calls ++ [call]) = e.results calls ++ [(e.run calls).result call] := by
  induction calls generalizing e with
  | nil => rfl
  | cons first calls ih => exact congrArg (e.result first :: ·) (ih (e.after first))

def InWord (e : Engine) (calls : List Call) : Prop := ∀ result ∈ e.results calls, result ≠ .error .overflow

instance (e : Engine) (calls : List Call) : Decidable (e.InWord calls) :=
  inferInstanceAs (Decidable (∀ result ∈ e.results calls, result ≠ .error .overflow))

theorem inWord_append {e : Engine} {calls : List Call} {call : Call} :
    e.InWord (calls ++ [call]) ↔ e.InWord calls ∧ (e.run calls).result call ≠ .error .overflow := by
  simp only [InWord,results_append,List.mem_append,List.mem_singleton]
  constructor
  · exact fun inWord => ⟨fun result inside => inWord result (.inl inside),inWord _ (.inr rfl)⟩
  · rintro ⟨earlier,last⟩ result (inside | rfl)
    · exact earlier result inside
    · exact last

end Engine

def Call.placing (e : Engine) : Call → Option (Address × PlaceOrderTx)
  | .placeOrder trader request => some (trader,request)
  | .closePosition trader close =>
    (e.state.getPosition trader close.marketId).map fun position =>
      (trader,PositionService.closeOrder position close)
  | .cancelOrder _ _ | .liquidateWithIncentive _ _ _ _ => none

def Call.liquidates : Call → Bool
  | .liquidateWithIncentive _ _ _ _ => true
  | _ => false

inductive Outcome (e : Engine) (ledger : Ledger) (call : Call) : Prop where
  | places (trader : Address) (request : PlaceOrderTx) (result : Except EngineError Nat)
      (placing : call.placing e = some (trader,request))
      (placement : Placement e trader request result (e.after call))
      (fails : ∀ error, result = .error error → e.result call = .error error)
      (returns : ∀ orderId, e.result call = .ok (some orderId) → result = .ok orderId)
  | idles (placing : call.placing e = none) (same : e.after call = e) (fails : ∃ error, e.result call = .error error)
  | cancels (trader : Address) (cancel : CancelOrderTx) (result : Except EngineError Unit)
      (placing : call.placing e = none) (cancellation : Cancellation e trader cancel result (e.after call))
      (returns : ∀ orderId, e.result call ≠ .ok (some orderId))
  | liquidates (ledger' : Ledger) (liquidation : call.liquidates) (placing : call.placing e = none)
      (path : Steps e.desk ledger [] (e.after call).desk ledger')
      (context : (e.after call).context = e.context)
      (returns : ∀ orderId, e.result call ≠ .ok (some orderId))

theorem Call.outcome {e : Engine} (shown : Represents e.desk ledger) (call : Call) : Outcome e ledger call := by
  cases call with
  | placeOrder trader request =>
    refine .places trader request (exec (OrderService.placeOrder trader request) e).1 rfl ?_ ?_ ?_
    · rw [Engine.after,Call.perform,exec_bind_pure_state]
      exact placeOrder_placement shown.toQueued Prod.mk.eta.symm
    all_goals
      rw [Engine.result,Call.perform,exec_bind_pure_result]
      cases (exec (OrderService.placeOrder trader request) e).1 <;> simp [Except.map]
  | closePosition trader close =>
    cases found : e.state.getPosition trader close.marketId with
    | none =>
      have ran := PositionService.closePosition_none found
      refine .idles (by simp [Call.placing,found]) ?_ ⟨.positionNotFound,?_⟩
      · rw [Engine.after,Call.perform,exec_bind_pure_state,ran]
      · rw [Engine.result,Call.perform,exec_bind_pure_result,ran]
        rfl
    | some position =>
      have ran := PositionService.closePosition_some found
      refine .places trader (PositionService.closeOrder position close)
        (exec (OrderService.placeOrder trader (PositionService.closeOrder position close)) e).1
        (by simp [Call.placing,found]) ?_ ?_ ?_
      · rw [Engine.after,Call.perform,exec_bind_pure_state,ran,exec_bind_pure_state]
        exact placeOrder_placement shown.toQueued Prod.mk.eta.symm
      all_goals
        rw [Engine.result,Call.perform,exec_bind_pure_result,ran,exec_bind_pure_result]
        cases (exec (OrderService.placeOrder trader (PositionService.closeOrder position close)) e).1 <;>
          simp [Except.map]
  | cancelOrder trader cancel =>
    refine .cancels trader cancel (exec (OrderService.cancelOrder trader cancel) e).1 rfl ?_ ?_
    · rw [Engine.after,Call.perform,exec_bind_pure_state]
      exact cancelOrder_cancellation Prod.mk.eta.symm
    · rw [Engine.result,Call.perform,exec_bind_pure_result]
      cases (exec (OrderService.cancelOrder trader cancel) e).1 <;> simp [Except.map]
  | liquidateWithIncentive trader marketId markPrice liquidator =>
    obtain ⟨ledger',path,context⟩ :=
      LiquidationEngine.liquidateWithIncentive_steps trader marketId markPrice liquidator shown
    refine .liquidates ledger' rfl rfl ?_ ?_ ?_
    · rw [Engine.after,Call.perform,exec_bind_pure_state]; exact path
    · rw [Engine.after,Call.perform,exec_bind_pure_state]; exact context
    · rw [Engine.result,Call.perform,exec_bind_pure_result]
      cases (exec (LiquidationEngine.liquidateWithIncentive trader marketId markPrice liquidator) e).1 <;>
        simp [Except.map]

theorem Engine.after_conducts {e : Engine} (shown : Represents e.desk ledger) (call : Call) :
    ∃ trades ledger', Conducts e.desk ledger trades (e.after call).desk ledger' := by
  cases call.outcome shown with
  | places trader request result placing placement fails returns => exact placement.conducts shown
  | idles placing same fails => rw [same]; exact ⟨[],ledger,Steps.conducts .refl⟩
  | cancels trader cancel result placing cancellation returns =>
    obtain ⟨ledger',path⟩ := cancellation.steps shown
    exact ⟨[],ledger',path.conducts⟩
  | liquidates ledger' liquidation placing path context returns => exact ⟨[],ledger',path.conducts⟩

structure StateManager.NoOrders (s : StateManager) : Prop where
  orders : ∀ orderId, s.getOrder orderId = none
  active : ∀ marketId, s.getActiveOrdersByMarket marketId = []

theorem StateManager.NoOrders.absent {s : StateManager} (empty : s.NoOrders) (orderId : Nat) (order : Order) :
    s.getOrder orderId ≠ some order := by
  rw [empty.orders orderId]
  exact Option.some_ne_none order ∘ Eq.symm

namespace Bench

def alice : Address := .ofNat 1
def bob : Address := .ofNat 2
def carol : Address := .ofNat 3

def market : Market where
  id := 0
  symbol := "BTC-PERP"
  baseAssetId := 1
  quoteAssetId := 0
  tickSize := 1
  priceDecimals := 0
  sizeDecimals := 0
  minOrderSize := 1
  maxOrderSize := 2 ^ 64 - 1
  maxLeverage := 100
  maintenanceMarginBps := 500
  initialMarginBps := 1000
  liquidationFeeBps := 100
  fundingInterval := 3600
  maxFundingRateBps := 100

def fresh : StateManager := .new (.new .empty {}) .keep

def state : StateManager :=
  (((fresh.setMarket 0 market).setBalance alice 0 (2 ^ 100)).setBalance bob 0 (2 ^ 100)).setBalance carol 0 (2 ^ 100)

def limit (isBuy : Bool) (price size : Nat) (timeInForce : TimeInForce)
    (words64 : price < 2 ^ 64 ∧ size < 2 ^ 64 := by decide) : PlaceOrderTx where
  marketId := 0
  isBuy := isBuy
  orderType := .limit
  price := price
  size := size
  timeInForce := timeInForce
  reduceOnly := false
  postOnly := false
  words64 := words64

def ask : PlaceOrderTx := limit false 100 5 .gtc

def bid : PlaceOrderTx := limit true 100 5 .gtc

theorem reads_none (key : StateKey) (chosen : key.ofOrders || key.ofPositions) : state.get key = none := by
  have spared : StateManager.Agree (fun key => key.ofOrders || key.ofPositions) fresh state :=
    ((((StateManager.Agree.refl _ fresh).setMarket rfl rfl).set rfl).set rfl).set rfl
  exact (spared key chosen).trans (Storage.Db.getValueOption_empty 0 key)

theorem noOrders : state.NoOrders where
  orders _ := reads_none _ rfl
  active marketId := by
    rw [StateManager.getActiveOrdersByMarket,reads_none (.activeOrderList marketId) rfl]
    rfl

theorem noPositions (address : Address) (marketId : Nat) : state.getPosition address marketId = none :=
  reads_none _ rfl

end Bench
end Pranklin
