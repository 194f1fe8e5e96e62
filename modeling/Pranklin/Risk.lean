import Pranklin.State
import Pranklin.Position

namespace Pranklin.RiskEngine
open Words

-- The part of a position's margin that an order of this side and size leaves locked.
def existingMargin (position : Option Position) (order : PlaceOrderTx) : Except EngineError Nat := do
  match position with
  | none => return 0
  | some position =>
    if order.isBuy = position.isLong then return position.margin
    else if position.size = 0 then return 0
    else
      let reductionSize := min order.size position.size
      let scaled ← orOverflow (checkedMul 128 reductionSize basisPoints)
      let freedMarginRatio := scaled / position.size
      let freed ← orOverflow (checkedMul 128 position.margin freedMarginRatio)
      return position.margin - freed / basisPoints

def checkLeverage (market : Market) (order : PlaceOrderTx) (orderValue requiredMargin : Nat) :
    Except EngineError Unit :=
  if !order.reduceOnly && decide (0 < order.price) then
    let leverage := if 0 < requiredMargin then orderValue / requiredMargin else 2 ^ 128 - 1
    if market.maxLeverage < leverage then throw .leverageTooHigh else return ()
  else return ()

def checkReduceOnly (position : Option Position) (order : PlaceOrderTx) : Except EngineError Unit :=
  if order.reduceOnly then
    match position with
    | some position =>
      if order.isBuy = position.isLong then throw .reduceOnlyWouldIncrease
      else if position.size < order.size then throw .reduceOnlyWouldIncrease
      else return ()
    | none => throw .reduceOnlyWouldIncrease
  else return ()

def checkOrderAllowed (state : StateManager) (trader : Address) (order : PlaceOrderTx) :
    Except EngineError Unit := do
  match state.getMarket order.marketId with
  | none => throw .marketNotFound
  | some market =>
    let orderValue ← orOverflow (checkedMul 128 order.size order.price)
    let scaled ← orOverflow (checkedMul 128 orderValue market.initialMarginBps)
    let requiredMargin := scaled / basisPoints
    let balance := state.getBalance trader market.quoteAssetId
    let position := state.getPosition trader order.marketId
    let locked ← existingMargin position order
    if balance - locked < requiredMargin then throw .insufficientMargin
    else
      checkLeverage market order orderValue requiredMargin
      checkReduceOnly position order

structure Allowed (state : StateManager) (trader : Address) (order : PlaceOrderTx) (market : Market) (locked : Nat) : Prop where
  reckoned : existingMargin (state.getPosition trader order.marketId) order = .ok locked
  funded : order.size * order.price * market.initialMarginBps / basisPoints ≤
    state.getBalance trader market.quoteAssetId - locked
  leverage : checkLeverage market order (order.size * order.price)
    (order.size * order.price * market.initialMarginBps / basisPoints) = .ok ()
  reduceOnly : checkReduceOnly (state.getPosition trader order.marketId) order = .ok ()

theorem checkOrderAllowed_ok {state : StateManager} (registered : state.getMarket order.marketId = some market)
    (allowed : checkOrderAllowed state trader order = .ok ()) : ∃ locked, Allowed state trader order market locked := by
  unfold checkOrderAllowed at allowed
  rw [registered] at allowed
  obtain ⟨_,allowed⟩ := checkedMul_bind_ok allowed
  obtain ⟨_,allowed⟩ := checkedMul_bind_ok allowed
  obtain ⟨locked,reckoned,allowed⟩ := bind_eq_ok allowed
  split at allowed
  · cases allowed
  · rename_i enough
    obtain ⟨_,leverage,reduceOnly⟩ := bind_eq_ok allowed
    exact ⟨locked,reckoned,Nat.le_of_not_lt enough,leverage,reduceOnly⟩

def calculateTotalLockedMargin (_state : StateManager) (_trader : Address) (_assetId : Nat) : Except EngineError Nat :=
  return 0

def checkWithdrawAllowed (state : StateManager) (trader : Address) (assetId amount : Nat) : Except EngineError Unit := do
  let balance := state.getBalance trader assetId
  if balance < amount then throw .insufficientBalance
  else
    let lockedMargin ← calculateTotalLockedMargin state trader assetId
    if balance - lockedMargin < amount then throw .insufficientMargin else return ()

-- At the mark price, by the margin the position must hold.
def checkLiquidation (state : StateManager) (trader : Address) (marketId markPrice : Nat) : Except EngineError Bool := do
  match state.getPosition trader marketId with
  | none => return false
  | some position =>
    if position.size = 0 then return false
    else
      match state.getMarket marketId with
      | none => throw .marketNotFound
      | some market =>
        let positionValue ← orOverflow (checkedMul 128 position.size markPrice)
        let scaled ← orOverflow (checkedMul 128 positionValue market.maintenanceMarginBps)
        let requiredMargin := scaled / basisPoints
        let (pnl,isProfit) ← PositionManager.calculatePnl position markPrice
        let equity ← if isProfit then orOverflow (checkedAdd 128 position.margin pnl) else pure (position.margin - pnl)
        return decide (equity < requiredMargin)

end Pranklin.RiskEngine
