import Pranklin.Engine

namespace Pranklin
open Words Effect

structure LiquidationResult where
  trader : Address
  marketId : Nat
  liquidatedSize : Nat
  liquidationPrice : Nat
  liquidationFee : Nat
  remainingEquity : Nat
  liquidator : Option Address
  liquidatorReward : Nat
  insuranceFundContribution : Nat
  insuranceFundUsage : Nat
deriving DecidableEq

namespace LiquidationEngine

def calculatePositionEquity (position : Position) (markPrice : Nat) : Except EngineError Nat := do
  let (pnl,isProfit) ← PositionManager.calculatePnl position markPrice
  if isProfit then orOverflow (checkedAdd 128 position.margin pnl) else return position.margin - pnl

def calculatePositionValue (position : Position) (markPrice : Nat) : Except EngineError Nat :=
  orOverflow (checkedMul 128 position.size markPrice)

-- In basis points, cut off at the top of a 32-bit word.
def calculateMarginRatio (position : Position) (markPrice : Nat) : Except EngineError Nat := do
  if position.size = 0 then return 2 ^ 32 - 1
  else
    let equity ← calculatePositionEquity position markPrice
    let positionValue ← calculatePositionValue position markPrice
    if positionValue = 0 then return 2 ^ 32 - 1
    else
      let scaled ← orOverflow (checkedMul 128 equity basisPoints)
      return min (scaled / positionValue) (2 ^ 32 - 1)

def shouldLiquidate (state : StateManager) (trader : Address) (marketId markPrice : Nat) (market : Market) :
    Except EngineError Bool := do
  match state.getPosition trader marketId with
  | none => return false
  | some position =>
    if position.size = 0 then return false
    else
      let marginRatio ← calculateMarginRatio position markPrice
      return decide (marginRatio < market.maintenanceMarginBps)

def marginBufferBps : Nat := 200

def minLiquidationPct : Nat := 10

-- The bounds put on the raw size: a tenth of the position or the minimum order, and
-- no remainder below the minimum order.
def boundLiquidationSize (position : Position) (market : Market) (raw : Nat) : Nat :=
  let minLiquidation := max (position.size / minLiquidationPct) market.minOrderSize
  let liquidationSize := min (max raw minLiquidation) position.size
  if liquidationSize < market.minOrderSize ∧ market.minOrderSize < position.size then
    min market.minOrderSize position.size
  else
    let remaining := position.size - liquidationSize
    if 0 < remaining ∧ remaining < market.minOrderSize then position.size else liquidationSize

def calculatePartialLiquidationSize (position : Position) (markPrice : Nat) (market : Market) :
    Except EngineError Nat := do
  if markPrice = 0 then return position.size
  else if position.size = 0 then return 0
  else
    let targetMarginRatio := addWrap 32 market.maintenanceMarginBps marginBufferBps
    let positionValue ← calculatePositionValue position markPrice
    if positionValue = 0 then return 0
    else
      let equity ← calculatePositionEquity position markPrice
      let scaled ← orOverflow (checkedMul 128 positionValue targetMarginRatio)
      let requiredEquity := scaled / basisPoints
      if requiredEquity ≤ equity then return 0
      else
        let deficit ← orOverflow (checkedMul 128 (requiredEquity - equity) basisPoints)
        -- The divisor is a product of two positive words and stays below 2^128.
        let raw := wrap 64 (deficit / (markPrice * (basisPoints + market.liquidationFeeBps)))
        return boundLiquidationSize position market raw

def cancelListedOrders (trader : Address) (marketId : Nat) : List Nat → EngineM (List Nat)
  | [] => pure []
  | orderId :: rest => do
    let found ← reads fun e => e.state.getOrder orderId
    match found with
    | none => cancelListedOrders trader marketId rest
    | some order =>
      if order.owner = trader ∧ order.status = .active then
        writes fun e => {e with orderbook:=e.orderbook.removeOrder orderId order}
        writes fun e => {e with
          state:=(e.state.setOrder orderId {order with status:=.cancelled}).removeActiveOrder marketId orderId}
        let cancelled ← cancelListedOrders trader marketId rest
        return orderId :: cancelled
      else cancelListedOrders trader marketId rest

def cancelTraderOrders (trader : Address) (marketId : Nat) : EngineM (List Nat) := do
  let activeOrderIds ← reads fun e => e.state.getActiveOrdersByMarket marketId
  cancelListedOrders trader marketId activeOrderIds

section Cancellations
variable {relation : Engine → Engine → Prop} {marketId : Nat}

theorem cancelListedOrders_guarantees (refl : ∀ e, relation e e)
    (trans : ∀ a b c, relation a b → relation b c → relation a c)
    (removed : ∀ (e : Engine) orderId order, relation e {e with
      orderbook:=e.orderbook.removeOrder orderId order
      state:=(e.state.setOrder orderId {order with status:=.cancelled}).removeActiveOrder marketId orderId})
    (trader : Address) (listed : List Nat) : Guarantees relation (cancelListedOrders trader marketId listed) := by
  induction listed with
  | nil => exact .pure refl _
  | cons orderId rest ih =>
    apply Guarantees.bind trans (.reads refl _)
    intro found
    cases found with
    | none => exact ih
    | some order =>
      dsimp only
      split
      · have others : Guarantees relation (do
            let cancelled ← cancelListedOrders trader marketId rest
            return orderId :: cancelled) := .bind trans ih fun _ => .pure refl _
        intro e
        rw [exec_writes_bind,exec_writes_bind]
        exact trans _ _ _ (removed e orderId order) (others _)
      · exact ih

theorem cancelTraderOrders_guarantees (refl : ∀ e, relation e e)
    (trans : ∀ a b c, relation a b → relation b c → relation a c)
    (removed : ∀ (e : Engine) orderId order, relation e {e with
      orderbook:=e.orderbook.removeOrder orderId order
      state:=(e.state.setOrder orderId {order with status:=.cancelled}).removeActiveOrder marketId orderId})
    (trader : Address) : Guarantees relation (cancelTraderOrders trader marketId) := by
  apply Guarantees.bind trans (.reads refl _)
  exact fun listed => cancelListedOrders_guarantees refl trans removed trader listed

end Cancellations

structure LiquidationAmounts where
  fee : Nat
  reward : Nat
  contribution : Nat
  equity : Nat

def liquidationAmounts (feeSplit : Nat × Nat) (position : Position) (market : Market) (price size : Nat) :
    Except EngineError LiquidationAmounts := do
  let value ← orOverflow (checkedMul 128 size price)
  let scaledFee ← orOverflow (checkedMul 128 value market.liquidationFeeBps)
  let fee := scaledFee / basisPoints
  let scaledReward ← orOverflow (checkedMul 128 fee feeSplit.1)
  let scaledContribution ← orOverflow (checkedMul 128 fee feeSplit.2)
  let equity ← calculatePositionEquity position price
  return ⟨fee,scaledReward / basisPoints,scaledContribution / basisPoints,equity⟩

-- What the fund pays towards a fee above the equity: the shortfall, or all it has.
def fundUsage (fund : InsuranceFund) (amounts : LiquidationAmounts) : Nat :=
  if amounts.equity < amounts.fee then min fund.balance (amounts.fee - amounts.equity) else 0

def InsuranceFund.pay (fund : InsuranceFund) (amount : Nat) : InsuranceFund :=
  {fund with balance:=fund.balance - amount,totalPayouts:=addWrap 128 fund.totalPayouts amount}

def setFund (marketId : Nat) (fund : InsuranceFund) : EngineM Unit :=
  writes fun e => {e with liquidation:={e.liquidation with
    insuranceFunds:=Function.update e.liquidation.insuranceFunds marketId fund}}

def executeLiquidation (trader : Address) (marketId : Nat) (position : Position) (size : Nat) : EngineM Unit := do
  if position.size ≤ size then
    writes fun e => {e with state:=e.state.deletePosition trader marketId}
  else if position.size = 0 then
    throw (.other "Cannot partially liquidate zero-sized position")
  else
    let scaled ← orThrow (checkedMul 128 position.margin size) .overflow
    writes fun e => {e with state:=e.state.setPosition trader marketId {position with
      size:=position.size - size,
      margin:=position.margin - scaled / position.size}}

def credit (address : Address) (assetId amount : Nat) : EngineM Unit := do
  let balance ← reads fun e => e.state.getBalance address assetId
  let credited ← orThrow (checkedAdd 128 balance amount) .overflow
  writes fun e => {e with state:=e.state.setBalance address assetId credited}

def contribute (marketId amount : Nat) : EngineM Unit := do
  let fund ← reads fun e => e.liquidation.insuranceFunds marketId
  let balance ← orThrow (checkedAdd 128 fund.balance amount) .overflow
  setFund marketId {fund with balance:=balance}
  let total ← orThrow (checkedAdd 128 fund.totalContributions amount) .overflow
  setFund marketId {fund with balance:=balance,totalContributions:=total}

def settleLiquidation (trader : Address) (marketId price : Nat) (liquidator : Address) (market : Market) :
    EngineM LiquidationResult := do
  let found ← reads fun e => e.state.getPosition trader marketId
  let position ← orThrow found .positionNotFound
  let size ← tries fun e =>
    if e.liquidation.enablePartialLiquidations then calculatePartialLiquidationSize position price market
    else .ok position.size
  let amounts ← tries fun e => liquidationAmounts e.liquidation.feeSplit position market price size
  let fund ← reads fun e => e.liquidation.insuranceFunds marketId
  let usage := fundUsage fund amounts
  let remainingEquity := amounts.equity - amounts.fee
  onlyIf (amounts.equity < amounts.fee) (setFund marketId (InsuranceFund.pay fund usage))
  executeLiquidation trader marketId position size
  credit liquidator market.quoteAssetId amounts.reward
  contribute marketId amounts.contribution
  onlyIf (0 < remainingEquity) (credit trader market.quoteAssetId remainingEquity)
  return ⟨trader,marketId,size,price,amounts.fee,remainingEquity,some liquidator,amounts.reward,
    amounts.contribution,usage⟩

def liquidateWithIncentive (trader : Address) (marketId markPrice : Nat) (liquidator : Address) :
    EngineM (Option LiquidationResult) := do
  if markPrice = 0 then throw (.other "Invalid mark price: cannot be zero")
  else
    let found ← reads fun e => e.state.getMarket marketId
    let market ← orThrow found .marketNotFound
    let price := market.normalizePrice markPrice
    let due ← tries fun e => shouldLiquidate e.state trader marketId price market
    if due then
      let _ ← cancelTraderOrders trader marketId
      return some (← settleLiquidation trader marketId price liquidator market)
    else return none

end LiquidationEngine

-- The predicate is asked at the price as it is given.
def Engine.shouldLiquidate (e : Engine) (trader : Address) (marketId markPrice : Nat) : Except EngineError Bool :=
  match e.state.getMarket marketId with
  | none => throw .marketNotFound
  | some market => LiquidationEngine.shouldLiquidate e.state trader marketId markPrice market

end Pranklin
