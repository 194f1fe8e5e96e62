import Pranklin.Effect
import Pranklin.Orderbook
import Pranklin.Risk

namespace Pranklin
open Words Effect

structure InsuranceFund where
  balance : Nat := 0
  totalContributions : Nat := 0
  totalPayouts : Nat := 0
deriving DecidableEq

structure LiquidationEngine where
  insuranceFunds : Nat → InsuranceFund
  feeSplit : Nat × Nat
  enablePartialLiquidations : Bool

def LiquidationEngine.new : LiquidationEngine := ⟨fun _ => {},(5000,5000),true⟩

-- `context` holds the events in the order they were emitted. `borrowed` is set once
-- an unchecked subtraction of the matching loop has gone below zero.
structure Engine where
  state : StateManager
  orderbook : OrderbookManager
  liquidation : LiquidationEngine
  context : List Event
  borrowed : Bool

def Engine.new (state : StateManager) : Engine := ⟨state,.new,.new,[],false⟩

abbrev EngineM := Eff Engine EngineError

def emit (event : Event) : EngineM Unit := writes fun e => {e with context:=e.context ++ [event]}

namespace PositionManager

def updatePosition (trader : Address) (marketId size price : Nat) (isBuy : Bool) (initialMarginBps : Nat) :
    EngineM Unit := do
  let updated ← tries fun e => traded (e.state.getPosition trader marketId) size price isBuy initialMarginBps
  match updated with
  | some position => writes fun e => {e with state:=e.state.setPosition trader marketId position}
  | none => writes fun e => {e with state:=e.state.deletePosition trader marketId}

end PositionManager

namespace OrderService

def validatePrice (market : Market) (price : Nat) : Except EngineError Unit :=
  if decide (0 < price) && !market.validatePrice price then
    throw (.other ("Invalid price " ++ toString price ++ " does not align with tick boundary (tick size: " ++
      toString market.tickSize ++ ")"))
  else return ()

def validateSize (market : Market) (size : Nat) : Except EngineError Unit :=
  if size < market.minOrderSize then
    throw (.other ("Order size " ++ toString size ++ " is below minimum size of " ++ toString market.minOrderSize))
  else if market.maxOrderSize < size then
    throw (.other ("Order size " ++ toString size ++ " exceeds maximum size of " ++ toString market.maxOrderSize))
  else return ()

-- The checks that precede the first write of `place_order`.
def validateOrder (state : StateManager) (trader : Address) (request : PlaceOrderTx) :
    Except EngineError Market := do
  match state.getMarket request.marketId with
  | none => throw .marketNotFound
  | some market =>
    validatePrice market request.price
    validateSize market request.size
    RiskEngine.checkOrderAllowed state trader request
    return market

theorem validateOrder_ok {state : StateManager} (valid : validateOrder state trader request = .ok market) :
    state.getMarket request.marketId = some market ∧
      ∃ locked, RiskEngine.Allowed state trader request market locked := by
  unfold validateOrder at valid
  cases registered : state.getMarket request.marketId with
  | none => rw [registered] at valid; cases valid
  | some info =>
    rw [registered] at valid
    obtain ⟨_,_,valid⟩ := bind_eq_ok valid
    obtain ⟨_,_,valid⟩ := bind_eq_ok valid
    obtain ⟨_,allowed,returned⟩ := bind_eq_ok valid
    cases returned
    exact ⟨rfl,RiskEngine.checkOrderAllowed_ok registered allowed⟩

def takeOrderId : EngineM Nat :=
  attempts fun e =>
    match e.state.nextOrderId with
    | .error error => .error (.stateError error)
    | .ok (orderId,state) => .ok (orderId,{e with state:=state})

def newOrder (trader : Address) (request : PlaceOrderTx) (orderId createdAt : Nat) : Order where
  id := orderId
  marketId := request.marketId
  owner := trader
  isBuy := request.isBuy
  price := request.price
  originalSize := request.size
  remainingSize := request.size
  status := .active
  createdAt := createdAt
  reduceOnly := request.reduceOnly
  postOnly := request.postOnly

def matchIncoming (order : Order) : EngineM (List Fill) :=
  attempts fun e =>
    match e.orderbook.matchOrder e.state order with
    | .error error => .error error
    | .ok m => .ok (m.fills,{e with state:=m.state,orderbook:=m.book,borrowed:=e.borrowed || m.borrowed})

def fillEvent (fill : Fill) : Event :=
  .orderFilled fill.makerOrderId fill.takerOrderId fill.maker fill.taker fill.marketId fill.price fill.size
    fill.takerIsBuy 0 0

def processFill (market : Market) (fill : Fill) : EngineM Unit := do
  PositionManager.updatePosition fill.taker fill.marketId fill.size fill.price fill.takerIsBuy
    market.initialMarginBps
  PositionManager.updatePosition fill.maker fill.marketId fill.size fill.price (!fill.takerIsBuy)
    market.initialMarginBps
  emit (fillEvent fill)

def processFills (market : Market) : List Fill → EngineM Unit
  | [] => pure ()
  | fill :: rest => do
    processFill market fill
    processFills market rest

def restOrder (order : Order) : EngineM Unit :=
  writes fun e => {e with
    state:=(e.state.setOrder order.id order).addActiveOrder order.marketId order.id,
    orderbook:=e.orderbook.addOrder order.id order}

def storeOrder (order : Order) : EngineM Unit :=
  writes fun e => {e with state:=e.state.setOrder order.id order}

def settleOrder (order : Order) (timeInForce : TimeInForce) : EngineM Unit :=
  if order.remainingSize = 0 then storeOrder {order with status:=.filled}
  else
    match timeInForce with
    | .gtc | .postOnly => restOrder {order with status:=.active}
    | .ioc => storeOrder {order with status:=.cancelled}
    | .fok => throw .orderNotFilled

def placeOrder (trader : Address) (request : PlaceOrderTx) : EngineM Nat := do
  let market ← tries fun e => validateOrder e.state trader request
  let orderId ← takeOrderId
  let createdAt ← reads fun e => e.state.version
  let order := newOrder trader request orderId createdAt
  let fills ← matchIncoming order
  processFills market fills
  let totalFilled := sumWrap 64 (fills.map Fill.size)
  emit (.orderPlaced orderId trader request.marketId request.isBuy request.price request.size request.orderType)
  settleOrder {order with remainingSize:=order.remainingSize - totalFilled} request.timeInForce
  return orderId

def cancelOrder (trader : Address) (cancel : CancelOrderTx) : EngineM Unit := do
  let found ← reads fun e => e.state.getOrder cancel.orderId
  let order ← orThrow found .orderNotFound
  if order.owner ≠ trader then throw .unauthorized
  else if order.status ≠ .active then throw .orderNotFound
  else
    writes fun e => {e with orderbook:=e.orderbook.removeOrder cancel.orderId order}
    writes fun e => {e with
      state:=(e.state.setOrder cancel.orderId {order with status:=.cancelled}).removeActiveOrder order.marketId
        cancel.orderId}
    emit (.orderCancelled cancel.orderId trader order.marketId order.remainingSize)

end OrderService

namespace PositionService

-- The market order that closes a position; sizes are 64-bit words.
def closeOrder (position : Position) (close : ClosePositionTx) : PlaceOrderTx where
  marketId := close.marketId
  isBuy := !position.isLong
  orderType := .market
  price := 0
  size := wrap 64 (if close.size = 0 then position.size else min close.size position.size)
  timeInForce := .ioc
  reduceOnly := true
  postOnly := false
  words64 := ⟨by decide,Nat.mod_lt _ (by decide)⟩

def closePosition (trader : Address) (close : ClosePositionTx) : EngineM Unit := do
  let found ← reads fun e => e.state.getPosition trader close.marketId
  let position ← orThrow found .positionNotFound
  let _ ← OrderService.placeOrder trader (closeOrder position close)
  return ()

end PositionService
end Pranklin
