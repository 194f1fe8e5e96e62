import Mathlib.Data.Fintype.Card
import Pranklin.Words

namespace Pranklin
open Words

structure Address where
  value : Fin (2 ^ 160)
deriving DecidableEq

def Address.ofNat (number : Nat) : Address := ⟨Fin.ofNat _ number⟩

instance : Fintype Address :=
  Fintype.ofEquiv (Fin (2 ^ 160)) ⟨Address.mk,Address.value,fun _ => rfl,fun _ => rfl⟩

structure Position where
  size : Nat
  entryPrice : Nat
  isLong : Bool
  margin : Nat
  fundingIndex : Nat
deriving DecidableEq

inductive OrderStatus where
  | active
  | filled
  | cancelled
deriving DecidableEq

structure Order where
  id : Nat
  marketId : Nat
  owner : Address
  isBuy : Bool
  price : Nat
  originalSize : Nat
  remainingSize : Nat
  status : OrderStatus
  createdAt : Nat
  reduceOnly : Bool
  postOnly : Bool
deriving DecidableEq

-- The record carries the widths of its fields, so that no market can be built
-- that the code could not hold.
structure Market where
  id : Nat
  symbol : String
  baseAssetId : Nat
  quoteAssetId : Nat
  tickSize : Nat
  priceDecimals : Nat
  sizeDecimals : Nat
  minOrderSize : Nat
  maxOrderSize : Nat
  maxLeverage : Nat
  maintenanceMarginBps : Nat
  initialMarginBps : Nat
  liquidationFeeBps : Nat
  fundingInterval : Nat
  maxFundingRateBps : Nat
  words64 : tickSize < 2 ^ 64 ∧ minOrderSize < 2 ^ 64 ∧ maxOrderSize < 2 ^ 64 ∧ fundingInterval < 2 ^ 64 := by decide
  words32 : maxLeverage < 2 ^ 32 ∧ maintenanceMarginBps < 2 ^ 32 ∧ initialMarginBps < 2 ^ 32 ∧
    liquidationFeeBps < 2 ^ 32 ∧ maxFundingRateBps < 2 ^ 32 := by decide
deriving DecidableEq

def Market.normalizePrice (market : Market) (price : Nat) : Nat :=
  if market.tickSize = 0 then price
  else mulWrap 64 (addWrap 64 price (market.tickSize / 2) / market.tickSize) market.tickSize

def Market.validatePrice (market : Market) (price : Nat) : Bool :=
  if market.tickSize = 0 then true else isMultipleOf price market.tickSize

def Market.priceToTick (market : Market) (price : Nat) : Nat :=
  if market.tickSize = 0 then price else price / market.tickSize

-- A tick size of zero has no case of its own here.
def Market.tickToPrice (market : Market) (tick : Nat) : Nat := mulWrap 64 tick market.tickSize

structure FundingRate where
  rate : Int := 0
  lastUpdate : Nat := 0
  index : Int := 0
  markPrice : Nat := 0
  oraclePrice : Nat := 0
deriving DecidableEq

structure Asset where
  id : Nat
  symbol : String
  name : String
  decimals : Nat
  isCollateral : Bool
  collateralWeightBps : Nat
deriving DecidableEq

inductive OrderType where
  | market
  | limit
  | stopMarket
  | stopLimit
  | takeProfitMarket
  | takeProfitLimit
deriving DecidableEq

inductive TimeInForce where
  | gtc
  | ioc
  | fok
  | postOnly
deriving DecidableEq

structure PlaceOrderTx where
  marketId : Nat
  isBuy : Bool
  orderType : OrderType
  price : Nat
  size : Nat
  timeInForce : TimeInForce
  reduceOnly : Bool
  postOnly : Bool
  words64 : price < 2 ^ 64 ∧ size < 2 ^ 64 := by decide
deriving DecidableEq

structure CancelOrderTx where
  orderId : Nat
deriving DecidableEq

structure ClosePositionTx where
  marketId : Nat
  size : Nat
deriving DecidableEq

structure Fill where
  maker : Address
  taker : Address
  marketId : Nat
  price : Nat
  size : Nat
  takerIsBuy : Bool
  makerOrderId : Nat
  takerOrderId : Nat
deriving DecidableEq

inductive BalanceChangeReason where
  | deposit
  | withdraw
  | transfer
  | tradeFee
  | fundingPayment
  | fundingReceipt
  | liquidation
  | pnlSettlement
  | bridgeDeposit
  | bridgeWithdraw
deriving DecidableEq

inductive InsuranceFundChangeReason where
  | liquidationFee
  | liquidationCoverage
  | adminDeposit
  | adminWithdraw
deriving DecidableEq

-- What is emitted; the services of the engine emit balance, order, bridge and agent events.
inductive Event where
  | balanceChanged (address : Address) (assetId oldBalance newBalance : Nat) (reason : BalanceChangeReason)
  | transfer (sender recipient : Address) (assetId amount : Nat)
  | nonceUpdated (address : Address) (oldNonce newNonce : Nat)
  | orderPlaced (orderId : Nat) (owner : Address) (marketId : Nat) (isBuy : Bool) (price size : Nat)
      (orderType : OrderType)
  | orderCancelled (orderId : Nat) (owner : Address) (marketId remainingSize : Nat)
  | orderFilled (makerOrderId takerOrderId : Nat) (maker taker : Address) (marketId price size : Nat)
      (takerIsBuy : Bool) (makerFee takerFee : Nat)
  | positionOpened (trader : Address) (marketId : Nat) (isLong : Bool) (size entryPrice margin : Nat)
  | positionClosed (trader : Address) (marketId size exitPrice : Nat) (pnl : Int) (isProfit : Bool)
  | positionModified (trader : Address) (marketId oldMargin newMargin : Nat)
  | positionLiquidated (trader : Address) (marketId : Nat) (liquidator : Option Address)
      (liquidatedSize liquidationPrice liquidationFee insuranceFundContribution insuranceFundUsage : Nat)
  | fundingPaid (trader : Address) (marketId : Nat) (amount : Int) (isPayment : Bool) (fundingRate fundingIndex : Int)
  | fundingRateUpdated (marketId : Nat) (rate : Int) (markPrice oraclePrice : Nat) (index : Int)
  | bridgeDeposit (operator user : Address) (assetId amount : Nat) (externalTxHash : Nat)
  | bridgeWithdraw (operator user : Address) (assetId amount : Nat) (destination : Address) (externalTxHash : Nat)
  | agentSet (account agent : Address) (permissions : Nat)
  | agentRemoved (account agent : Address)
  | marketUpdated (marketId : Nat) (symbol : String)
  | insuranceFundUpdated (marketId oldBalance newBalance : Nat) (reason : InsuranceFundChangeReason)
deriving DecidableEq

inductive StateError where
  | storageError (message : String)
  | other (message : String)
deriving DecidableEq

inductive EngineError where
  | marketNotFound
  | orderNotFound
  | positionNotFound
  | insufficientBalance
  | insufficientMargin
  | unauthorized
  | orderNotFilled
  | postOnlyWouldTake
  | reduceOnlyWouldIncrease
  | leverageTooHigh
  | overflow
  | divisionByZero
  | stateError (error : StateError)
  | other (message : String)
deriving DecidableEq

end Pranklin
