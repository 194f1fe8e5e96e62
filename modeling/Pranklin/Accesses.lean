import Pranklin.Executor
import Pranklin.Footprint

namespace Pranklin
open Words Effect Footprint

inductive AccessMode where
  | read
  | write
deriving DecidableEq

inductive StateAccess where
  | balance (address : Address) (assetId : Nat)
  | nonce (address : Address)
  | position (address : Address) (marketId : Nat)
  | order (orderId : Nat)
  | orderList (marketId : Nat)
  | market (marketId : Nat)
  | fundingRate (marketId : Nat)
  | assetInfo (assetId : Nat)
  | bridgeOperator (address : Address)
deriving DecidableEq

section Declaring

def balanceAccess (address : Address) (assetId : Nat) (mode : AccessMode) : StateAccess × AccessMode :=
  (.balance address assetId,mode)

def assetInfoAccess (assetId : Nat) : StateAccess × AccessMode := (.assetInfo assetId,.read)

def balanceWithAsset (accesses : List (StateAccess × AccessMode)) (address : Address) (assetId : Nat) :
    List (StateAccess × AccessMode) :=
  accesses ++ [balanceAccess address assetId .write,assetInfoAccess assetId]

def Transaction.declareAccesses (tx : Transaction) : List (StateAccess × AccessMode) :=
  let accesses : List (StateAccess × AccessMode) := [(.nonce tx.sender,.write)]
  match tx.payload with
  | .deposit deposit => balanceWithAsset accesses tx.sender deposit.assetId
  | .withdraw withdraw => balanceWithAsset accesses tx.sender withdraw.assetId
  | .placeOrder order => accesses ++ [balanceAccess tx.sender 0 .write] ++
    [(.position tx.sender order.marketId,.write),(.orderList order.marketId,.write),(.market order.marketId,.read),
      (.fundingRate order.marketId,.read)]
  -- The market is not known before the order is read.
  | .cancelOrder cancel => accesses ++ [(.order cancel.orderId,.write)]
  | .modifyOrder modify => accesses ++ [(.order modify.orderId,.write)]
  | .closePosition close => accesses ++
    [(.position tx.sender close.marketId,.write),(.orderList close.marketId,.write),(.market close.marketId,.read)]
  -- The agents are kept in memory.
  | .setAgent _ | .removeAgent _ => accesses
  | .transfer transfer => accesses ++ [balanceAccess tx.sender transfer.assetId .write,
    balanceAccess transfer.recipient transfer.assetId .write,assetInfoAccess transfer.assetId]
  | .bridgeDeposit deposit =>
    balanceWithAsset (accesses ++ [(.bridgeOperator tx.sender,.read)]) deposit.user deposit.assetId
  | .bridgeWithdraw withdraw =>
    balanceWithAsset (accesses ++ [(.bridgeOperator tx.sender,.read)]) withdraw.user withdraw.assetId

end Declaring

-- The access a key stands for. The order counter, the flags of the active orders and the
-- lists of the indices have none.
def StateKey.access : StateKey → Option StateAccess
  | .balance address assetId => some (.balance address assetId)
  | .nonce address => some (.nonce address)
  | .position address marketId => some (.position address marketId)
  | .order orderId => some (.order orderId)
  | .market marketId => some (.market marketId)
  | .fundingRate marketId => some (.fundingRate marketId)
  | .activeOrderList marketId => some (.orderList marketId)
  | .bridgeOperator address => some (.bridgeOperator address)
  | .assetInfo assetId => some (.assetInfo assetId)
  | .nextOrderId | .activeOrder _ _ | .marketList | .positionIndex _ | .assetList => none

structure Touch where
  key : StateKey
  mode : AccessMode
deriving DecidableEq

-- The engine's programs once more, each step with the keys it reads and writes.
namespace Tracing

abbrev Trace := Noting Engine Touch EngineError

section State

def getBalance (address : Address) (assetId : Nat) : Trace Nat :=
  touching (fun _ => [⟨.balance address assetId,.read⟩]) (reads fun e => e.state.getBalance address assetId)

def setBalance (address : Address) (assetId amount : Nat) : Trace Unit :=
  touching (fun _ => [⟨.balance address assetId,.write⟩])
    (writes fun e => {e with state:=e.state.setBalance address assetId amount})

def getAsset (assetId : Nat) : Trace (Option Asset) :=
  touching (fun _ => [⟨.assetInfo assetId,.read⟩]) (reads fun e => e.state.getAsset assetId)

def isBridgeOperator (address : Address) : Trace Bool :=
  touching (fun _ => [⟨.bridgeOperator address,.read⟩]) (reads fun e => e.state.isBridgeOperator address)

def getMarket (marketId : Nat) : Trace (Option Market) :=
  touching (fun _ => [⟨.market marketId,.read⟩]) (reads fun e => e.state.getMarket marketId)

def getPosition (address : Address) (marketId : Nat) : Trace (Option Position) :=
  touching (fun _ => [⟨.position address marketId,.read⟩]) (reads fun e => e.state.getPosition address marketId)

def getOrder (orderId : Nat) : Trace (Option Order) :=
  touching (fun _ => [⟨.order orderId,.read⟩]) (reads fun e => e.state.getOrder orderId)

-- The list is written anew only where the order is not on it.
def addActiveOrderTouches (state : StateManager) (marketId orderId : Nat) : List Touch :=
  [⟨.activeOrder marketId orderId,.write⟩,⟨.activeOrderList marketId,.read⟩] ++
    if orderId ∈ state.getActiveOrdersByMarket marketId then [] else [⟨.activeOrderList marketId,.write⟩]

def removeActiveOrderTouches (marketId orderId : Nat) : List Touch :=
  [⟨.activeOrder marketId orderId,.write⟩,⟨.activeOrderList marketId,.read⟩,⟨.activeOrderList marketId,.write⟩]

-- The index is written from memory.
def storePositionTouches (address : Address) (marketId : Nat) : List Touch :=
  [⟨.position address marketId,.write⟩,⟨.positionIndex marketId,.write⟩]

end State

section Accounts
open AccountService

def updateBalance (address : Address) (assetId amount : Nat) (isCredit : Bool) (reason : BalanceChangeReason) : Trace Unit := do
  let oldBalance ← getBalance address assetId
  let balance ← plainly (tries fun _ => newBalance oldBalance amount isCredit)
  setBalance address assetId balance
  plainly (emit (.balanceChanged address assetId oldBalance balance reason))

def transfer (sender : Address) (transfer : TransferTx) : Trace Unit := do
  if sender = transfer.recipient then throw (.other "Cannot transfer to self")
  else
    let found ← getAsset transfer.assetId
    let asset ← plainly (orThrow found (.other "Asset not found"))
    if !asset.isCollateral then throw (.other "Asset not transferrable")
    else
      let senderBalance ← getBalance sender transfer.assetId
      if senderBalance < transfer.amount then throw .insufficientBalance
      else
        setBalance sender transfer.assetId (senderBalance - transfer.amount)
        let recipientBalance ← getBalance transfer.recipient transfer.assetId
        let newRecipientBalance ← plainly (orThrow (checkedAdd 128 recipientBalance transfer.amount) .overflow)
        setBalance transfer.recipient transfer.assetId newRecipientBalance
        plainly (emit (.transfer sender transfer.recipient transfer.assetId transfer.amount))

def checkBridge (operator : Address) (assetId : Nat) : Trace Unit := do
  let authorized ← isBridgeOperator operator
  if !authorized then throw .unauthorized
  else
    let found ← getAsset assetId
    let _ ← plainly (orThrow found (.other "Asset not found"))
    return ()

def bridgeDeposit (operator : Address) (deposit : BridgeDepositTx) : Trace Unit := do
  checkBridge operator deposit.assetId
  let oldBalance ← getBalance deposit.user deposit.assetId
  let newBalance ← plainly (orThrow (checkedAdd 128 oldBalance deposit.amount) .overflow)
  setBalance deposit.user deposit.assetId newBalance
  plainly (emit (.bridgeDeposit operator deposit.user deposit.assetId deposit.amount deposit.externalTxHash))

def bridgeWithdraw (operator : Address) (withdraw : BridgeWithdrawTx) : Trace Unit := do
  checkBridge operator withdraw.assetId
  let oldBalance ← getBalance withdraw.user withdraw.assetId
  if oldBalance < withdraw.amount then throw .insufficientBalance
  else
    setBalance withdraw.user withdraw.assetId (oldBalance - withdraw.amount)
    plainly (emit (.bridgeWithdraw operator withdraw.user withdraw.assetId withdraw.amount withdraw.destination
      withdraw.externalTxHash))

theorem notes_updateBalance (address : Address) (assetId amount : Nat) (isCredit : Bool) (reason : BalanceChangeReason) :
    Notes (updateBalance address assetId amount isCredit reason)
      (AccountService.updateBalance address assetId amount isCredit reason) :=
  .bind (.touching _ _) fun _ => .bind (.plainly _) fun _ => .bind (.touching _ _) fun _ => .plainly _

theorem notes_transfer (sender : Address) (request : TransferTx) :
    Notes (transfer sender request) (AccountService.transfer sender request) := by
  refine .ite (.throw _) (.bind (.touching _ _) fun _ => .bind (.plainly _) fun _ => .ite (.throw _) ?_)
  refine .bind (.touching _ _) fun _ => .ite (.throw _) (.bind (.touching _ _) fun _ => .bind (.touching _ _) fun _ => ?_)
  exact .bind (.plainly _) fun _ => .bind (.touching _ _) fun _ => .plainly _

theorem notes_checkBridge (operator : Address) (assetId : Nat) :
    Notes (checkBridge operator assetId) (AccountService.checkBridge operator assetId) :=
  .bind (.touching _ _) fun _ => .ite (.throw _) (.bind (.touching _ _) fun _ => .bind (.plainly _) fun _ => .pure _)

theorem notes_bridgeDeposit (operator : Address) (request : BridgeDepositTx) :
    Notes (bridgeDeposit operator request) (AccountService.bridgeDeposit operator request) := by
  refine .bind (notes_checkBridge _ _) fun _ => .bind (.touching _ _) fun _ => .bind (.plainly _) fun _ => ?_
  exact .bind (.touching _ _) fun _ => .plainly _

theorem notes_bridgeWithdraw (operator : Address) (request : BridgeWithdrawTx) :
    Notes (bridgeWithdraw operator request) (AccountService.bridgeWithdraw operator request) := by
  refine .bind (notes_checkBridge _ _) fun _ => .bind (.touching _ _) fun _ => .ite (.throw _) ?_
  exact .bind (.touching _ _) fun _ => .plainly _

end Accounts

section Matching
open OrderbookManager

def matchMakerTouches (order : Order) (m : LevelMatch) (makerOrderId : Nat) : List Touch :=
  ⟨.order makerOrderId,.read⟩ ::
    match m.state.getOrder makerOrderId with
    | none => []
    | some maker =>
      if maker.owner = order.owner then []
      else if subWrap 64 maker.remainingSize (min m.remaining maker.remainingSize) = 0 then
        ⟨.order makerOrderId,.write⟩ :: removeActiveOrderTouches maker.marketId makerOrderId
      else [⟨.order makerOrderId,.write⟩]

def matchLevelTouches (order : Order) (price : Nat) (m : LevelMatch) : List Nat → List Touch
  | [] => []
  | makerOrderId :: rest =>
    if m.remaining = 0 then []
    else matchMakerTouches order m makerOrderId ++ matchLevelTouches order price (matchMaker order price m makerOrderId) rest

def matchPriceTouches (order : Order) (m : BookMatch) (price : Nat) : List Touch :=
  match m.levels[price]? with
  | none => []
  | some level => matchLevelTouches order price ⟨m.state,level,m.remaining,m.fills,m.borrowed⟩ level.orders

def matchPricesTouches (order : Order) (m : BookMatch) : List Nat → List Touch
  | [] => []
  | price :: rest =>
    if outOfReach order price then []
    else
      matchPriceTouches order m price ++
        let m := matchPrice order m price
        if m.remaining = 0 then [] else matchPricesTouches order m rest

def matchOrderTouches (book : OrderbookManager) (state : StateManager) (order : Order) : List Touch :=
  if order.postOnly && book.wouldMatch order then []
  else
    let levels := book.side (!order.isBuy) order.marketId
    matchPricesTouches order ⟨state,levels,order.remainingSize,[],false⟩ (bestFirst (!order.isBuy) levels)

end Matching

section Orders
open OrderService RiskEngine

def checkOrderAllowed (trader : Address) (order : PlaceOrderTx) : Trace Unit := do
  let found ← getMarket order.marketId
  let market ← plainly (orThrow found .marketNotFound)
  let orderValue ← plainly (tries fun _ => orOverflow (checkedMul 128 order.size order.price))
  let scaled ← plainly (tries fun _ => orOverflow (checkedMul 128 orderValue market.initialMarginBps))
  let balance ← getBalance trader market.quoteAssetId
  let position ← getPosition trader order.marketId
  let locked ← plainly (tries fun _ => existingMargin position order)
  if balance - locked < scaled / basisPoints then throw .insufficientMargin
  else
    plainly (tries fun _ => checkLeverage market order orderValue (scaled / basisPoints))
    if order.reduceOnly then
      let position ← getPosition trader order.marketId
      plainly (tries fun _ => checkReduceOnly position order)
    else pure ()

def validateOrder (trader : Address) (request : PlaceOrderTx) : Trace Market := do
  let found ← getMarket request.marketId
  let market ← plainly (orThrow found .marketNotFound)
  plainly (tries fun _ => validatePrice market request.price)
  plainly (tries fun _ => validateSize market request.size)
  checkOrderAllowed trader request
  return market

def takeOrderId : Trace Nat :=
  touching (fun e => ⟨.nextOrderId,.read⟩ :: if e.state.orderCounter + 1 < 2 ^ 64 then [⟨.nextOrderId,.write⟩] else [])
    OrderService.takeOrderId

def matchIncoming (order : Order) : Trace (List Fill) :=
  touching (fun e => matchOrderTouches e.orderbook e.state order) (OrderService.matchIncoming order)

def updatePosition (trader : Address) (marketId size price : Nat) (isBuy : Bool) (initialMarginBps : Nat) : Trace Unit := do
  let updated ← touching (fun _ => [⟨.position trader marketId,.read⟩])
    (tries fun e => PositionManager.traded (e.state.getPosition trader marketId) size price isBuy initialMarginBps)
  match updated with
  | some position =>
    touching (fun _ => storePositionTouches trader marketId)
      (writes fun e => {e with state:=e.state.setPosition trader marketId position})
  | none =>
    touching (fun _ => storePositionTouches trader marketId)
      (writes fun e => {e with state:=e.state.deletePosition trader marketId})

def processFill (market : Market) (fill : Fill) : Trace Unit := do
  updatePosition fill.taker fill.marketId fill.size fill.price fill.takerIsBuy market.initialMarginBps
  updatePosition fill.maker fill.marketId fill.size fill.price (!fill.takerIsBuy) market.initialMarginBps
  plainly (emit (fillEvent fill))

def processFills (market : Market) : List Fill → Trace Unit
  | [] => pure ()
  | fill :: rest => do
    processFill market fill
    processFills market rest

def restOrder (order : Order) : Trace Unit :=
  touching (fun e => ⟨.order order.id,.write⟩ :: addActiveOrderTouches e.state order.marketId order.id)
    (OrderService.restOrder order)

def storeOrder (order : Order) : Trace Unit :=
  touching (fun _ => [⟨.order order.id,.write⟩]) (OrderService.storeOrder order)

def settleOrder (order : Order) (timeInForce : TimeInForce) : Trace Unit :=
  if order.remainingSize = 0 then storeOrder {order with status:=.filled}
  else
    match timeInForce with
    | .gtc | .postOnly => restOrder {order with status:=.active}
    | .ioc => storeOrder {order with status:=.cancelled}
    | .fok => throw .orderNotFilled

def finishOrder (trader : Address) (request : PlaceOrderTx) (market : Market) (order : Order) (fills : List Fill) : Trace Nat := do
  processFills market fills
  let totalFilled := sumWrap 64 (fills.map Fill.size)
  plainly (emit (.orderPlaced order.id trader request.marketId request.isBuy request.price request.size request.orderType))
  settleOrder {order with remainingSize:=order.remainingSize - totalFilled} request.timeInForce
  return order.id

def placeOrder (trader : Address) (request : PlaceOrderTx) : Trace Nat := do
  let market ← validateOrder trader request
  let orderId ← takeOrderId
  let createdAt ← plainly (reads fun e => e.state.version)
  let order := newOrder trader request orderId createdAt
  let fills ← matchIncoming order
  finishOrder trader request market order fills

def cancelOrder (trader : Address) (cancel : CancelOrderTx) : Trace Unit := do
  let found ← getOrder cancel.orderId
  let order ← plainly (orThrow found .orderNotFound)
  if order.owner ≠ trader then throw .unauthorized
  else if order.status ≠ .active then throw .orderNotFound
  else
    plainly (writes fun e => {e with orderbook:=e.orderbook.removeOrder cancel.orderId order})
    touching (fun _ => ⟨.order cancel.orderId,.write⟩ :: removeActiveOrderTouches order.marketId cancel.orderId)
      (writes fun e => {e with
        state:=(e.state.setOrder cancel.orderId {order with status:=.cancelled}).removeActiveOrder order.marketId
          cancel.orderId})
    plainly (emit (.orderCancelled cancel.orderId trader order.marketId order.remainingSize))

def closePosition (trader : Address) (close : ClosePositionTx) : Trace Unit := do
  let found ← getPosition trader close.marketId
  let position ← plainly (orThrow found .positionNotFound)
  let _ ← placeOrder trader (PositionService.closeOrder position close)
  return ()

theorem exec_tries_pure {σ ε α β : Type} {s : σ} {found : Except ε α} {next : α → Eff σ ε β} {after : α → Except ε β}
    (rest : ∀ value, exec (next value) s = (after value,s)) : exec (tries (fun _ => found) >>= next) s = (found >>= after,s) := by
  rw [exec_bind,exec_tries]
  cases found with
  | error error => rfl
  | ok value => exact rest value

theorem notes_checkOrderAllowed (trader : Address) (order : PlaceOrderTx) :
    Notes (checkOrderAllowed trader order) (tries fun e => RiskEngine.checkOrderAllowed e.state trader order) := by
  refine Notes.congr (.bind (.touching _ _) fun found => .bind (.plainly _) fun market => .bind (.plainly _) fun orderValue =>
    .bind (.plainly _) fun scaled => .bind (.touching _ _) fun balance => .bind (.touching _ _) fun position =>
    .bind (.plainly _) fun locked => .ite (.throw _) (.bind (.plainly _) fun _ =>
      .ite (.bind (.touching _ _) fun position => .plainly _) (.pure _))) fun e => ?_
  rw [exec_tries,RiskEngine.checkOrderAllowed,exec_reads_bind]
  cases e.state.getMarket order.marketId with
  | none => rfl
  | some market =>
  rw [exec_orThrow_some_bind]
  refine exec_tries_pure fun orderValue => exec_tries_pure fun scaled => ?_
  rw [exec_reads_bind]
  rw [exec_reads_bind]
  refine exec_tries_pure fun locked => ?_
  split
  · rfl
  refine exec_tries_pure fun _ => ?_
  split
  · rw [exec_reads_bind]
    exact exec_tries _ e
  · rename_i free
    have unchecked : checkReduceOnly (e.state.getPosition trader order.marketId) order = .ok () := if_neg free
    rw [unchecked]
    rfl

theorem notes_validateOrder (trader : Address) (request : PlaceOrderTx) :
    Notes (validateOrder trader request) (tries fun e => OrderService.validateOrder e.state trader request) := by
  refine Notes.congr (.bind (.touching _ _) fun found => .bind (.plainly _) fun market => .bind (.plainly _) fun _ =>
    .bind (.plainly _) fun _ => .bind (notes_checkOrderAllowed _ _) fun _ => .pure _) fun e => ?_
  rw [exec_tries,OrderService.validateOrder,exec_reads_bind]
  cases e.state.getMarket request.marketId with
  | none => rfl
  | some market =>
  rw [exec_orThrow_some_bind]
  refine exec_tries_pure fun _ => exec_tries_pure fun _ => ?_
  rw [exec_bind,exec_tries]
  cases RiskEngine.checkOrderAllowed e.state trader request <;> rfl

theorem notes_updatePosition (trader : Address) (marketId size price : Nat) (isBuy : Bool) (initialMarginBps : Nat) :
    Notes (updatePosition trader marketId size price isBuy initialMarginBps)
      (PositionManager.updatePosition trader marketId size price isBuy initialMarginBps) := by
  refine .bind (.touching _ _) fun updated => ?_
  cases updated <;> exact .touching _ _

theorem notes_processFill (market : Market) (fill : Fill) :
    Notes (processFill market fill) (OrderService.processFill market fill) :=
  .bind (notes_updatePosition _ _ _ _ _ _) fun _ => .bind (notes_updatePosition _ _ _ _ _ _) fun _ => .plainly _

theorem notes_processFills (market : Market) (fills : List Fill) :
    Notes (processFills market fills) (OrderService.processFills market fills) := by
  induction fills with
  | nil => exact .pure _
  | cons fill rest ih => exact .bind (notes_processFill _ _) fun _ => ih

theorem notes_settleOrder (order : Order) (timeInForce : TimeInForce) :
    Notes (settleOrder order timeInForce) (OrderService.settleOrder order timeInForce) := by
  refine .ite (.touching _ _) ?_
  cases timeInForce with
  | gtc | postOnly | ioc => exact .touching _ _
  | fok => exact .throw _

theorem notes_finishOrder (trader : Address) (request : PlaceOrderTx) (market : Market) (order : Order) (fills : List Fill) :
    Notes (finishOrder trader request market order fills) (do
      OrderService.processFills market fills
      emit (.orderPlaced order.id trader request.marketId request.isBuy request.price request.size request.orderType)
      OrderService.settleOrder {order with remainingSize:=order.remainingSize - sumWrap 64 (fills.map Fill.size)}
        request.timeInForce
      return order.id) :=
  .bind (notes_processFills _ _) fun _ => .bind (.plainly _) fun _ => .bind (notes_settleOrder _ _) fun _ => .pure _

theorem notes_placeOrder (trader : Address) (request : PlaceOrderTx) :
    Notes (placeOrder trader request) (OrderService.placeOrder trader request) :=
  .bind (notes_validateOrder _ _) fun _ => .bind (.touching _ _) fun _ => .bind (.plainly _) fun _ =>
    .bind (.touching _ _) fun _ => notes_finishOrder _ _ _ _ _

theorem notes_cancelOrder (trader : Address) (cancel : CancelOrderTx) :
    Notes (cancelOrder trader cancel) (OrderService.cancelOrder trader cancel) := by
  refine .bind (.touching _ _) fun _ => .bind (.plainly _) fun _ => .ite (.throw _) (.ite (.throw _) ?_)
  exact .bind (.plainly _) fun _ => .bind (.touching _ _) fun _ => .plainly _

theorem notes_closePosition (trader : Address) (close : ClosePositionTx) :
    Notes (closePosition trader close) (PositionService.closePosition trader close) :=
  .bind (.touching _ _) fun _ => .bind (.plainly _) fun _ => .bind (notes_placeOrder _ _) fun _ => .pure _

end Orders

section Execution
open TransactionExecutor
variable {noting : Trace α} {plain : EngineM α}

def onEngine (noting : Trace α) : Noting Node Touch TxExecutionError α := fun noted =>
  match exec noting ⟨noted.state.engine,noted.touched⟩ with
  | (.ok value,engine) => (.ok value,⟨{noted.state with engine:=engine.state},engine.touched⟩)
  | (.error error,engine) => (.error (.engine error),⟨{noted.state with engine:=engine.state},engine.touched⟩)

def executePayload (codec : Codec) (tx : Transaction) : Noting Node Touch TxExecutionError Unit :=
  match tx.payload with
  | .setAgent _ | .removeAgent _ | .modifyOrder _ => plainly (TransactionExecutor.executePayload codec tx)
  | .deposit deposit => onEngine (updateBalance tx.sender deposit.assetId deposit.amount true .deposit)
  | .withdraw withdraw => onEngine (updateBalance tx.sender withdraw.assetId withdraw.amount false .withdraw)
  | .transfer request => onEngine (transfer tx.sender request)
  | .placeOrder order => onEngine do
    let _ ← placeOrder tx.sender order
    return ()
  | .cancelOrder cancel => onEngine (cancelOrder tx.sender cancel)
  | .closePosition close => onEngine (closePosition tx.sender close)
  | .bridgeDeposit deposit => onEngine (bridgeDeposit tx.sender deposit)
  | .bridgeWithdraw withdraw => onEngine (bridgeWithdraw tx.sender withdraw)

def execute (codec : Codec) (tx : Transaction) : Noting Node Touch TxExecutionError Unit := do
  plainly (verifyTransaction codec tx)
  touching (fun _ => [⟨.nonce tx.sender,.read⟩]) (verifyNonce tx)
  executePayload codec tx
  touching (fun _ => [⟨.nonce tx.sender,.read⟩,⟨.nonce tx.sender,.write⟩]) (incrementNonce tx.sender)

theorem exec_onEngine (notes : Notes noting plain) (noted : Noted Node Touch) :
    exec (onEngine noting) noted = ((exec (TransactionExecutor.onEngine plain) noted.state).1,
      ⟨(exec (TransactionExecutor.onEngine plain) noted.state).2,noted.touched ++ footprint noting noted.state.engine⟩) := by
  change onEngine noting noted = ((TransactionExecutor.onEngine plain noted.state).1,
    ⟨(TransactionExecutor.onEngine plain noted.state).2,_⟩)
  unfold onEngine TransactionExecutor.onEngine
  rw [notes]
  cases exec plain noted.state.engine with
  | mk result e => cases result <;> rfl

theorem footprint_onEngine (notes : Notes noting plain) (node : Node) :
    footprint (onEngine noting) node = footprint noting node.engine := by
  rw [footprint,exec_onEngine notes]
  rfl

theorem notes_onEngine (notes : Notes noting plain) : Notes (onEngine noting) (TransactionExecutor.onEngine plain) := by
  intro noted
  rw [exec_onEngine notes,footprint_onEngine notes]

theorem notes_executePayload (codec : Codec) (tx : Transaction) :
    Notes (executePayload codec tx) (TransactionExecutor.executePayload codec tx) := by
  cases payload : tx.payload with
  | setAgent agent | removeAgent agent | modifyOrder modify =>
    have untraced : executePayload codec tx = plainly (TransactionExecutor.executePayload codec tx) := by
      rw [executePayload,payload]
    rw [untraced]
    exact .plainly _
  | deposit request | withdraw request =>
    rw [executePayload,TransactionExecutor.executePayload,payload]
    exact notes_onEngine (notes_updateBalance _ _ _ _ _)
  | transfer request =>
    rw [executePayload,TransactionExecutor.executePayload,payload]
    exact notes_onEngine (notes_transfer _ _)
  | placeOrder request =>
    rw [executePayload,TransactionExecutor.executePayload,payload]
    exact notes_onEngine (.bind (notes_placeOrder _ _) fun _ => .pure _)
  | cancelOrder cancel =>
    rw [executePayload,TransactionExecutor.executePayload,payload]
    exact notes_onEngine (notes_cancelOrder _ _)
  | closePosition close =>
    rw [executePayload,TransactionExecutor.executePayload,payload]
    exact notes_onEngine (notes_closePosition _ _)
  | bridgeDeposit request =>
    rw [executePayload,TransactionExecutor.executePayload,payload]
    exact notes_onEngine (notes_bridgeDeposit _ _)
  | bridgeWithdraw request =>
    rw [executePayload,TransactionExecutor.executePayload,payload]
    exact notes_onEngine (notes_bridgeWithdraw _ _)

theorem notes_execute (codec : Codec) (tx : Transaction) : Notes (execute codec tx) (TransactionExecutor.execute codec tx) :=
  .bind (.plainly _) fun _ => .bind (.touching _ _) fun _ => .bind (notes_executePayload _ _) fun _ => .touching _ _

end Execution

end Tracing
end Pranklin
