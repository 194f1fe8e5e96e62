import Pranklin.Calls

namespace Pranklin
open Words Effect OrderService OrderbookManager StateManager

-- The keys that calls write. Markets, assets, nonces, operators and funding rates are not
-- among them.
def StateKey.ofTrading (key : StateKey) : Bool := key.ofOrders || key.ofPositions || key.ofBalances

abbrev StateManager.Spared (s t : StateManager) : Prop := Agree (!StateKey.ofTrading ·) s t

namespace Frame
variable {s t : StateManager} {keys : StateKey → Bool}

def Clear (keys : StateKey → Bool) : Prop := ∀ key : StateKey, key.ofOrders || key.ofPositions → keys key = false

theorem clear_trading : Clear (!StateKey.ofTrading ·) := by
  intro key chosen
  simp [StateKey.ofTrading,chosen]

theorem Clear.no_positions (clear : Clear keys) (key : StateKey) (chosen : keys key) : !key.ofPositions := by
  cases held : key.ofPositions with
  | false => rfl
  | true => rw [clear key (by simp [held])] at chosen; cases chosen

theorem no_balances (key : StateKey) (chosen : !key.ofTrading) : !key.ofBalances := by
  cases key <;> first | rfl | cases chosen

section Orders
variable (clear : Clear keys)
include clear

theorem removeActiveOrder_spared (left : Agree keys s t) (marketId orderId : Nat) :
    Agree keys s (t.removeActiveOrder marketId orderId) := (left.delete (clear _ rfl)).set (clear _ rfl)

theorem addActiveOrder_spared (left : Agree keys s t) (marketId orderId : Nat) :
    Agree keys s (t.addActiveOrder marketId orderId) := by
  unfold addActiveOrder
  dsimp only
  split
  · exact left.set (clear _ rfl)
  · exact (left.set (clear _ rfl)).set (clear _ rfl)

section Match
variable (order : Order)

theorem matchMaker_spared (price : Nat) {m : LevelMatch} (left : Agree keys s m.state) (makerOrderId : Nat) :
    Agree keys s (matchMaker order price m makerOrderId).state := by
  unfold matchMaker
  split
  · exact left
  · split
    · exact left
    · dsimp only
      split
      · exact removeActiveOrder_spared clear (left.set (clear _ rfl)) _ _
      · exact left.set (clear _ rfl)

theorem matchLevel_spared (price : Nat) {m : LevelMatch} (left : Agree keys s m.state) (orderIds : List Nat) :
    Agree keys s (matchLevel order price m orderIds).state := by
  induction orderIds generalizing m with
  | nil => exact left
  | cons orderId orderIds ih =>
    unfold matchLevel
    split
    · exact left
    · exact ih (matchMaker_spared clear order price left orderId)

theorem matchPrice_spared {m : BookMatch} (left : Agree keys s m.state) (price : Nat) :
    Agree keys s (matchPrice order m price).state := by
  unfold matchPrice
  split
  · exact left
  · exact matchLevel_spared clear order price left _

theorem matchPrices_spared {m : BookMatch} (left : Agree keys s m.state) (prices : List Nat) :
    Agree keys s (matchPrices order m prices).state := by
  induction prices generalizing m with
  | nil => exact left
  | cons price prices ih =>
    have next := matchPrice_spared clear order left price
    unfold matchPrices
    dsimp only
    split
    · exact left
    · split
      · exact next
      · exact ih next

end Match

end Orders

abbrev Sparing (keys : StateKey → Bool) (m : EngineM α) : Prop :=
  Guarantees (fun e after : Engine => Agree keys e.state after.state) m

theorem spared_refl (e : Engine) : Agree keys e.state e.state := .refl _ _

theorem sparing_bind {m : EngineM α} {next : α → EngineM β} (first : Sparing keys m)
    (rest : ∀ value, Sparing keys (next value)) : Sparing keys (m >>= next) := .bind (fun _ _ _ => Agree.trans) first rest

theorem sparing_quiet {m : EngineM α} (quiet : Quiets keys m) : Sparing keys m := quiet.mono fun _ _ kept => kept.reads

section Calls
variable (clear : Clear keys)
include clear

theorem sparing_matchIncoming (order : Order) : Sparing keys (matchIncoming order) := by
  refine .attempts spared_refl fun e fills after ran => ?_
  unfold OrderbookManager.matchOrder at ran
  dsimp only at ran
  by_cases away : (order.postOnly && e.orderbook.wouldMatch order) = true
  · rw [if_pos away] at ran
    cases ran
  · rw [if_neg away] at ran
    cases ran
    exact matchPrices_spared clear order (.refl _ _) _

theorem sparing_takeOrderId : Sparing keys takeOrderId := by
  refine .attempts spared_refl fun e orderId after ran => ?_
  cases taken : e.state.nextOrderId with
  | error error => rw [taken] at ran; cases ran
  | ok pair =>
    obtain ⟨_,state,_⟩ := nextOrderId_cases taken
    rw [taken] at ran
    cases ran
    dsimp only
    rw [state]
    exact (Agree.refl _ _).set (clear _ rfl)

theorem sparing_settleOrder (order : Order) (timeInForce : TimeInForce) : Sparing keys (settleOrder order timeInForce) := by
  have stores : ∀ order, Sparing keys (storeOrder order) := fun order _ => (Agree.refl _ _).set (clear _ rfl)
  unfold settleOrder
  split
  · exact stores _
  · cases timeInForce with
    | gtc | postOnly => exact fun _ => addActiveOrder_spared clear ((Agree.refl _ _).set (clear _ rfl)) _ _
    | ioc => exact stores _
    | fok => exact .throw spared_refl _

theorem sparing_placeOrder (trader : Address) (request : PlaceOrderTx) : Sparing keys (placeOrder trader request) := by
  refine sparing_bind (.tries spared_refl _) fun market => sparing_bind (sparing_takeOrderId clear) fun orderId => ?_
  refine sparing_bind (.reads spared_refl _) fun createdAt => sparing_bind (sparing_matchIncoming clear _) fun fills => ?_
  refine sparing_bind ((spares_processFills clear.no_positions market fills).mono fun _ _ kept => kept.reads) fun _ => ?_
  refine sparing_bind (fun _ => .refl _ _) fun _ => ?_
  exact sparing_bind (sparing_settleOrder clear _ _) fun _ => .pure spared_refl _

theorem sparing_cancel (orderId marketId : Nat) (order : Order) {rest : EngineM α} (after : Sparing keys rest) :
    Sparing keys (do
      writes fun e => {e with orderbook:=e.orderbook.removeOrder orderId order}
      writes fun e => {e with
        state:=(e.state.setOrder orderId {order with status:=.cancelled}).removeActiveOrder marketId orderId}
      rest : EngineM α) := by
  refine sparing_bind (fun _ => .refl _ _) fun _ => sparing_bind (fun e => ?_) fun _ => after
  exact removeActiveOrder_spared clear ((Agree.refl _ _).set (clear _ rfl)) _ _

theorem sparing_cancelOrder (trader : Address) (cancel : CancelOrderTx) :
    Sparing keys (OrderService.cancelOrder trader cancel) := by
  refine sparing_bind (.reads spared_refl _) fun found => sparing_bind (.orThrow spared_refl _ _) fun order => ?_
  split
  · exact .throw spared_refl _
  · split
    · exact .throw spared_refl _
    · exact sparing_cancel clear _ _ _ fun _ => .refl _ _

theorem sparing_closePosition (trader : Address) (close : ClosePositionTx) :
    Sparing keys (PositionService.closePosition trader close) := by
  refine sparing_bind (.reads spared_refl _) fun found => sparing_bind (.orThrow spared_refl _ _) fun position => ?_
  exact sparing_bind (sparing_placeOrder clear _ _) fun _ => .pure spared_refl _

section Liquidations
open LiquidationEngine

theorem sparing_cancelTraderOrders (trader : Address) (marketId : Nat) :
    Sparing keys (cancelTraderOrders trader marketId) := by
  refine @cancelTraderOrders_guarantees (fun e after => Agree keys e.state after.state) marketId spared_refl
    (fun _ _ _ => Agree.trans) (fun e orderId order => ?_) trader
  exact removeActiveOrder_spared clear ((Agree.refl _ e.state).set (clear _ rfl)) marketId orderId

theorem sparing_liquidateWithIncentive (balances : ∀ key, keys key → !key.ofBalances) (trader : Address)
    (marketId markPrice : Nat) (liquidator : Address) :
    Sparing keys (liquidateWithIncentive trader marketId markPrice liquidator) := by
  unfold liquidateWithIncentive
  split
  · exact .throw spared_refl _
  · refine sparing_bind (.reads spared_refl _) fun found => sparing_bind (.orThrow spared_refl _ _) fun market => ?_
    refine sparing_bind (.tries spared_refl _) fun due => ?_
    have settles := sparing_quiet (quiets_settleLiquidation balances clear.no_positions trader marketId
      (market.normalizePrice markPrice) liquidator market)
    split
    · refine sparing_bind (sparing_cancelTraderOrders clear trader marketId) fun _ => ?_
      exact sparing_bind settles fun _ => .pure spared_refl _
    · exact .pure spared_refl _

end Liquidations
end Calls

-- A call leaves every key outside the trading tables as it was.
theorem after_spared (e : Engine) (call : Call) : Spared e.state (e.after call).state := by
  cases call with
  | placeOrder trader request =>
    exact sparing_bind (sparing_placeOrder clear_trading trader request) (fun _ => .pure spared_refl _) e
  | cancelOrder trader cancel =>
    exact sparing_bind (sparing_cancelOrder clear_trading trader cancel) (fun _ => .pure spared_refl _) e
  | closePosition trader close =>
    exact sparing_bind (sparing_closePosition clear_trading trader close) (fun _ => .pure spared_refl _) e
  | liquidateWithIncentive trader marketId markPrice liquidator =>
    exact sparing_bind (sparing_liquidateWithIncentive clear_trading no_balances trader marketId markPrice liquidator)
      (fun _ => .pure spared_refl _) e

theorem run_spared (e : Engine) (calls : List Call) : Spared e.state (e.run calls).state := by
  induction calls generalizing e with
  | nil => exact .refl _ _
  | cons call calls ih => exact (after_spared e call).trans (ih (e.after call))

end Frame
end Pranklin
