import Pranklin.Accesses
import Pranklin.Atomicity
import Pranklin.Transactions
import Pranklin.TxCodec

namespace Pranklin
open Words Effect Footprint

def Transaction.Covers (tx : Transaction) (touch : Touch) : Prop := ∀ access, touch.key.access = some access →
  match touch.mode with
  | .read => ∃ mode, (access,mode) ∈ tx.declareAccesses
  | .write => (access,.write) ∈ tx.declareAccesses

def Conservative (codec : Codec) (tx : Transaction) (node : Node) : Prop :=
  ∀ touch ∈ footprint (Tracing.execute codec tx) node, tx.Covers touch

namespace OrderbookManager

def waitsAt (order : Order) (levels : PriceLevels) (prices : List Nat) : Bool :=
  (prices.takeWhile fun price => !outOfReach order price).any fun price => levels[price]?.any fun level => !level.orders.isEmpty

def reaches (book : OrderbookManager) (order : Order) : Bool :=
  let levels := book.side (!order.isBuy) order.marketId
  waitsAt order levels (bestFirst (!order.isBuy) levels)

end OrderbookManager

namespace Declaring
open OrderService RiskEngine TransactionExecutor

structure AsksBalance (e : Engine) (request : PlaceOrderTx) (market : Market) : Prop where
  registered : e.state.getMarket request.marketId = some market
  priced : validatePrice market request.price = .ok ()
  sized : validateSize market request.size = .ok ()
  value : request.size * request.price < 2 ^ 128
  scaled : request.size * request.price * market.initialMarginBps < 2 ^ 128

structure GoesToBook (e : Engine) (trader : Address) (request : PlaceOrderTx) : Prop where
  valid : (validateOrder e.state trader request).isOk
  counter : e.state.orderCounter + 1 < 2 ^ 64
  passes : e.orderbook.passesPostOnly (incoming e trader request)

-- A placement touches no more than is declared for it: the margin is in asset 0, and the
-- book ends it before any order is read or stored.
structure PlacesAsDeclared (e : Engine) (trader : Address) (request : PlaceOrderTx) : Prop where
  quote : ∀ market, AsksBalance e request market → market.quoteAssetId = 0
  book : GoesToBook e trader request → request.size ≠ 0 ∧ request.timeInForce = .fok ∧
    e.orderbook.reaches (incoming e trader request) = false

def Cancels (e : Engine) (trader : Address) (cancel : CancelOrderTx) : Prop :=
  ∃ order, e.state.getOrder cancel.orderId = some order ∧ order.owner = trader ∧ order.status = .active

def Closes (e : Engine) (trader : Address) (close : ClosePositionTx) : Prop :=
  ∃ position market, e.state.getPosition trader close.marketId = some position ∧ e.state.getMarket close.marketId = some market ∧
    validateSize market (PositionService.closeOrder position close).size = .ok ()

-- Where the payload stays within its declaration.
def AsDeclared (e : Engine) (tx : Transaction) : Prop :=
  match tx.payload with
  | .placeOrder request => PlacesAsDeclared e tx.sender request
  | .cancelOrder cancel => ¬Cancels e tx.sender cancel
  | .closePosition close => ¬Closes e tx.sender close
  | .deposit _ | .withdraw _ | .transfer _ | .bridgeDeposit _ | .bridgeWithdraw _ | .setAgent _ | .removeAgent _
  | .modifyOrder _ => True

variable {codec : Codec} {tx : Transaction} {node : Node} {e : Engine} {key : StateKey} {access : StateAccess} {mode : AccessMode}

section Covering

theorem covers_write (known : key.access = some access) (declared : (access,.write) ∈ tx.declareAccesses) (mode : AccessMode) :
    tx.Covers ⟨key,mode⟩ := by
  intro other same
  obtain rfl := Option.some_inj.mp (known.symm.trans same)
  cases mode with
  | read => exact ⟨_,declared⟩
  | write => exact declared

theorem covers_read (known : key.access = some access) (declared : (access,.read) ∈ tx.declareAccesses) :
    tx.Covers ⟨key,.read⟩ := by
  intro other same
  obtain rfl := Option.some_inj.mp (known.symm.trans same)
  exact ⟨_,declared⟩

theorem covers_unnamed (unnamed : touch.key.access = none) : tx.Covers touch := by
  intro access named
  cases unnamed.symm.trans named

theorem not_covers (known : key.access = some access) (missing : ∀ mode, (access,mode) ∉ tx.declareAccesses) (mode : AccessMode) :
    ¬tx.Covers ⟨key,mode⟩ := by
  intro covers
  have declared := covers access known
  cases mode with
  | read => obtain ⟨mode,inside⟩ := declared; exact missing mode inside
  | write => exact missing _ declared

theorem declares_nonce (tx : Transaction) : (.nonce tx.sender,.write) ∈ tx.declareAccesses := by
  unfold Transaction.declareAccesses balanceWithAsset
  cases tx.payload <;> simp

theorem covers_nonce (own : touch.key = .nonce tx.sender) : tx.Covers touch := by
  obtain ⟨key,mode⟩ := touch
  obtain rfl : key = .nonce tx.sender := own
  exact covers_write rfl (declares_nonce tx) mode

end Covering

section Execution

theorem footprint_turnedAway (away : ¬Accepted codec tx node) :
    ∀ touch ∈ footprint (Tracing.execute codec tx) node, touch.key = .nonce tx.sender := by
  rw [footprint,Tracing.execute,exec_bind,exec_plainly]
  by_cases signed : recoverSigner codec tx = .ok tx.sender
  case neg =>
    obtain ⟨error,failed⟩ := verifyTransaction_fails signed node
    rw [failed]
    intro touch inside
    cases inside
  have stale : tx.nonce ≠ node.engine.state.getNonce tx.sender := fun next => away ⟨signed,next⟩
  obtain ⟨error,failed⟩ := verifyNonce_fails stale
  rw [verifyTransaction_exec signed]
  dsimp only
  rw [exec_bind,exec_touching,failed]
  intro touch inside
  obtain rfl := List.mem_singleton.mp inside
  rfl

theorem footprint_accepted (accepted : Accepted codec tx node) :
    ∃ counted : List Touch, (∀ touch ∈ counted, touch.key = .nonce tx.sender) ∧
      footprint (Tracing.execute codec tx) node =
        ⟨.nonce tx.sender,.read⟩ :: footprint (Tracing.executePayload codec tx) node ++ counted := by
  rw [footprint,Tracing.execute,exec_bind,exec_plainly,verifyTransaction_exec accepted.signed]
  dsimp only
  rw [exec_bind,exec_touching,verifyNonce_exec accepted.next]
  dsimp only
  rw [exec_bind,Tracing.notes_executePayload]
  cases exec (TransactionExecutor.executePayload codec tx) node with
  | mk result after =>
  cases result with
  | error error => exact ⟨[],by simp,(List.append_nil _).symm⟩
  | ok _ => exact ⟨[⟨.nonce tx.sender,.read⟩,⟨.nonce tx.sender,.write⟩],by simp,rfl⟩

-- The nonce is declared by every transaction, so that only the payload can go beyond.
theorem conservative_iff_payload :
    Conservative codec tx node ↔
      (Accepted codec tx node → ∀ touch ∈ footprint (Tracing.executePayload codec tx) node, tx.Covers touch) := by
  constructor
  · intro all accepted touch inside
    obtain ⟨counted,_,touched⟩ := footprint_accepted accepted
    refine all touch ?_
    rw [touched]
    exact List.mem_append_left _ (List.mem_cons_of_mem _ inside)
  · intro within touch inside
    by_cases accepted : Accepted codec tx node
    case neg => exact covers_nonce (footprint_turnedAway accepted touch inside)
    obtain ⟨counted,own,touched⟩ := footprint_accepted accepted
    rw [touched] at inside
    rcases List.mem_append.mp inside with inside | inside
    · rcases List.mem_cons.mp inside with rfl | inside
      · exact covers_nonce rfl
      · exact within accepted touch inside
    · exact covers_nonce (own touch inside)

end Execution

section Accounts
open Tracing
variable {allowed : Touch → Prop}

theorem within_getBalance (reads_ : allowed ⟨.balance address assetId,.read⟩) : Within allowed (getBalance address assetId) :=
  .touching (fun _ touch inside => by obtain rfl := List.mem_singleton.mp inside; exact reads_) _

theorem within_setBalance (writes_ : allowed ⟨.balance address assetId,.write⟩) (amount : Nat) :
    Within allowed (setBalance address assetId amount) :=
  .touching (fun _ touch inside => by obtain rfl := List.mem_singleton.mp inside; exact writes_) _

theorem within_getAsset (reads_ : allowed ⟨.assetInfo assetId,.read⟩) : Within allowed (getAsset assetId) :=
  .touching (fun _ touch inside => by obtain rfl := List.mem_singleton.mp inside; exact reads_) _

theorem within_updateBalance (balance : ∀ mode, allowed ⟨.balance address assetId,mode⟩) (amount : Nat) (isCredit : Bool)
    (reason : BalanceChangeReason) : Within allowed (updateBalance address assetId amount isCredit reason) :=
  .bind (within_getBalance (balance _)) fun _ => .bind (.plainly _) fun _ =>
    .bind (within_setBalance (balance _) _) fun _ => .plainly _

theorem within_transfer (asset : allowed ⟨.assetInfo request.assetId,.read⟩)
    (own : ∀ mode, allowed ⟨.balance sender request.assetId,mode⟩)
    (others : ∀ mode, allowed ⟨.balance request.recipient request.assetId,mode⟩) : Within allowed (transfer sender request) := by
  refine .ite (.throw _) (.bind (within_getAsset asset) fun _ => .bind (.plainly _) fun _ => .ite (.throw _) ?_)
  refine .bind (within_getBalance (own _)) fun _ => .ite (.throw _) (.bind (within_setBalance (own _) _) fun _ => ?_)
  refine .bind (within_getBalance (others _)) fun _ => .bind (.plainly _) fun _ => ?_
  exact .bind (within_setBalance (others _) _) fun _ => .plainly _

theorem within_checkBridge (bridge : allowed ⟨.bridgeOperator operator,.read⟩) (asset : allowed ⟨.assetInfo assetId,.read⟩) :
    Within allowed (checkBridge operator assetId) := by
  have authorized : Within allowed (isBridgeOperator operator) :=
    .touching (fun _ touch inside => by obtain rfl := List.mem_singleton.mp inside; exact bridge) _
  exact .bind authorized fun _ => .ite (.throw _) (.bind (within_getAsset asset) fun _ => .bind (.plainly _) fun _ =>
    fun _ before => before)

theorem within_bridgeDeposit (bridge : allowed ⟨.bridgeOperator operator,.read⟩)
    (asset : allowed ⟨.assetInfo request.assetId,.read⟩) (balance : ∀ mode, allowed ⟨.balance request.user request.assetId,mode⟩) :
    Within allowed (bridgeDeposit operator request) := by
  refine .bind (within_checkBridge bridge asset) fun _ => .bind (within_getBalance (balance _)) fun _ => ?_
  exact .bind (.plainly _) fun _ => .bind (within_setBalance (balance _) _) fun _ => .plainly _

theorem within_bridgeWithdraw (bridge : allowed ⟨.bridgeOperator operator,.read⟩)
    (asset : allowed ⟨.assetInfo request.assetId,.read⟩) (balance : ∀ mode, allowed ⟨.balance request.user request.assetId,mode⟩) :
    Within allowed (bridgeWithdraw operator request) := by
  refine .bind (within_checkBridge bridge asset) fun _ => .bind (within_getBalance (balance _)) fun _ => .ite (.throw _) ?_
  exact .bind (within_setBalance (balance _) _) fun _ => .plainly _

end Accounts

section Orders
variable {trader : Address}

theorem footprint_cancelOrder (trader : Address) (cancel : CancelOrderTx) (e : Engine) :
    footprint (Tracing.cancelOrder trader cancel) e = ⟨.order cancel.orderId,.read⟩ ::
      match e.state.getOrder cancel.orderId with
      | none => []
      | some order =>
        if order.owner ≠ trader then []
        else if order.status ≠ .active then []
        else ⟨.order cancel.orderId,.write⟩ :: Tracing.removeActiveOrderTouches order.marketId cancel.orderId := by
  rw [footprint,Tracing.cancelOrder,exec_bind,Tracing.getOrder,exec_touching,exec_reads]
  dsimp only
  rw [exec_bind,exec_plainly]
  cases e.state.getOrder cancel.orderId with
  | none => rfl
  | some order =>
    rw [exec_orThrow_some]
    dsimp only
    split
    · rfl
    split
    · rfl
    rfl

-- A product that leaves its word ends the margin check before the balance is read. What
-- comes after the first two reads is the position read again.
theorem footprint_checkOrderAllowed (trader : Address) (order : PlaceOrderTx) (e : Engine) :
    ∃ again : List Touch, (∀ touch ∈ again, touch = ⟨.position trader order.marketId,.read⟩) ∧
      footprint (Tracing.checkOrderAllowed trader order) e = ⟨.market order.marketId,.read⟩ ::
        match e.state.getMarket order.marketId with
        | none => []
        | some market =>
          if order.size * order.price < 2 ^ 128 ∧ order.size * order.price * market.initialMarginBps < 2 ^ 128 then
            ⟨.balance trader market.quoteAssetId,.read⟩ :: ⟨.position trader order.marketId,.read⟩ :: again
          else [] := by
  rw [footprint,Tracing.checkOrderAllowed,exec_bind,Tracing.getMarket,exec_touching,exec_reads]
  dsimp only
  rw [exec_bind,exec_plainly]
  cases e.state.getMarket order.marketId with
  | none => exact ⟨[],by simp,rfl⟩
  | some market =>
  rw [exec_orThrow_some]
  dsimp only
  rw [exec_bind,exec_plainly,exec_tries,checkedMul]
  by_cases value : order.size * order.price < 2 ^ 128
  case neg =>
    have exceeds : ¬(order.size * order.price < 2 ^ 128 ∧ order.size * order.price * market.initialMarginBps < 2 ^ 128) :=
      fun both => value both.1
    refine ⟨[],by simp,?_⟩
    rw [if_neg value,if_neg exceeds]
    rfl
  rw [if_pos value]
  dsimp only [orOverflow]
  rw [exec_bind,exec_plainly,exec_tries,checkedMul]
  by_cases scaled : order.size * order.price * market.initialMarginBps < 2 ^ 128
  case neg =>
    have exceeds : ¬(order.size * order.price < 2 ^ 128 ∧ order.size * order.price * market.initialMarginBps < 2 ^ 128) :=
      fun both => scaled both.2
    refine ⟨[],by simp,?_⟩
    rw [if_neg scaled,if_neg exceeds]
    rfl
  have fits := And.intro value scaled
  simp only [if_pos scaled,if_pos fits]
  rw [exec_bind,Tracing.getBalance,exec_touching,exec_reads]
  dsimp only
  rw [exec_bind,Tracing.getPosition,exec_touching,exec_reads]
  dsimp only
  rw [exec_bind,exec_plainly,exec_tries]
  cases existingMargin (e.state.getPosition trader order.marketId) order with
  | error error => exact ⟨[],by simp,rfl⟩
  | ok locked =>
  dsimp only
  split
  · exact ⟨[],by simp,rfl⟩
  rw [exec_bind,exec_plainly,exec_tries]
  cases checkLeverage market order (order.size * order.price)
      (order.size * order.price * market.initialMarginBps / basisPoints) with
  | error error => exact ⟨[],by simp,rfl⟩
  | ok _ =>
  dsimp only
  split
  · exact ⟨[_],by simp,rfl⟩
  · exact ⟨[],by simp,rfl⟩

end Orders

section Matching
open OrderbookManager Tracing
variable {order : Order} {price : Nat} {levels : PriceLevels}

theorem matchLevel_quiet {m : LevelMatch} (nothing : m.remaining = 0 ∨ queue = []) :
    matchLevelTouches order price m queue = [] ∧ matchLevel order price m queue = m := by
  cases queue with
  | nil => exact ⟨rfl,rfl⟩
  | cons makerOrderId rest =>
    have spent : m.remaining = 0 := nothing.resolve_right (by simp)
    rw [matchLevelTouches,matchLevel,if_pos spent,if_pos spent]
    exact ⟨rfl,rfl⟩

theorem matchPrice_quiet {m : BookMatch}
    (nothing : m.remaining = 0 ∨ (m.levels[price]?.any fun level => !level.orders.isEmpty) = false) :
    matchPriceTouches order m price = [] ∧ (matchPrice order m price).fills = m.fills ∧
      (matchPrice order m price).remaining = m.remaining ∧ ∀ other : Nat,
        ((matchPrice order m price).levels[other]?.any fun level => !level.orders.isEmpty) =
          m.levels[other]?.any fun level => !level.orders.isEmpty := by
  unfold matchPriceTouches matchPrice
  cases found : m.levels[price]? with
  | none => exact ⟨rfl,rfl,rfl,fun _ => rfl⟩
  | some level =>
    have quiet : m.remaining = 0 ∨ level.orders = [] := nothing.imp_right fun empty => by simpa [found] using empty
    obtain ⟨untouched,same⟩ := @matchLevel_quiet order price level.orders ⟨m.state,level,m.remaining,m.fills,m.borrowed⟩ quiet
    dsimp only
    rw [untouched,same]
    refine ⟨rfl,rfl,rfl,fun other => ?_⟩
    dsimp only
    split
    · rename_i empty
      rw [Std.TreeMap.getElem?_erase]
      split
      · rename_i own
        obtain rfl : price = other := by simpa using own
        have none : level.orders = [] := by simpa [PriceLevel.isEmpty] using empty
        simp [found,none]
      · rfl
    · rw [Std.TreeMap.getElem?_insert]
      split
      · rename_i own
        obtain rfl : price = other := by simpa using own
        rw [found]
      · rfl

theorem waitsAt_congr {levels levels' : PriceLevels}
    (same : ∀ price : Nat, (levels'[price]?.any fun level => !level.orders.isEmpty) =
      levels[price]?.any fun level => !level.orders.isEmpty) (prices : List Nat) :
    waitsAt order levels' prices = waitsAt order levels prices := by
  unfold waitsAt
  rw [funext same]

theorem waitsAt_cons (near : outOfReach order price = false) (rest : List Nat) :
    waitsAt order levels (price :: rest) =
      ((levels[price]?.any fun level => !level.orders.isEmpty) || waitsAt order levels rest) := by
  unfold waitsAt
  rw [List.takeWhile_cons_of_pos (by simp [near]),List.any_cons]

theorem matchPrices_quiet {m : BookMatch} {prices : List Nat}
    (nothing : m.remaining = 0 ∨ waitsAt order m.levels prices = false) :
    matchPricesTouches order m prices = [] ∧ (matchPrices order m prices).fills = m.fills := by
  induction prices generalizing m with
  | nil => exact ⟨rfl,rfl⟩
  | cons price rest ih =>
    rw [matchPricesTouches,matchPrices]
    cases near : outOfReach order price with
    | true => exact ⟨rfl,rfl⟩
    | false =>
      rw [waitsAt_cons near,Bool.or_eq_false_iff] at nothing
      obtain ⟨untouched,fills,remaining,levels⟩ := @matchPrice_quiet order price m (nothing.imp_right And.left)
      dsimp only
      rw [untouched,remaining]
      by_cases spent : m.remaining = 0
      · simp [spent,fills]
      · have later := (nothing.resolve_left spent).2
        rw [← waitsAt_congr levels] at later
        obtain ⟨quiet,same⟩ := ih (.inr later)
        simp [spent,quiet,same,fills]

theorem matchPrices_reads {m : BookMatch} {prices : List Nat} (some_ : m.remaining ≠ 0)
    (waits : waitsAt order m.levels prices = true) : ∃ orderId, ⟨.order orderId,.read⟩ ∈ matchPricesTouches order m prices := by
  induction prices generalizing m with
  | nil => cases waits
  | cons price rest ih =>
    cases near : outOfReach order price with
    | true => simp [waitsAt,List.takeWhile,near] at waits
    | false =>
      rw [waitsAt_cons near] at waits
      rw [matchPricesTouches,near]
      cases here : m.levels[price]?.any fun level => !level.orders.isEmpty with
      | false =>
        obtain ⟨untouched,_,remaining,levels⟩ := @matchPrice_quiet order price m (.inr here)
        rw [here,Bool.false_or,← waitsAt_congr levels] at waits
        obtain ⟨orderId,inside⟩ := ih (remaining ▸ some_) waits
        refine ⟨orderId,List.mem_append_right _ ?_⟩
        dsimp only
        rwa [remaining,if_neg some_]
      | true =>
        cases found : m.levels[price]? with
        | none => simp [found] at here
        | some level =>
          cases queue : level.orders with
          | nil => simp [found,queue] at here
          | cons makerOrderId rest =>
            refine ⟨makerOrderId,List.mem_append_left _ ?_⟩
            rw [matchPriceTouches,found]
            dsimp only
            rw [queue,matchLevelTouches,if_neg some_,matchMakerTouches]
            exact List.mem_append_left _ List.mem_cons_self

end Matching

section Placing
variable {trader : Address} {request : PlaceOrderTx} {market : Market}

theorem footprint_validateOrder (trader : Address) (request : PlaceOrderTx) (e : Engine) :
    footprint (Tracing.validateOrder trader request) e = ⟨.market request.marketId,.read⟩ ::
      match e.state.getMarket request.marketId with
      | none => []
      | some market =>
        match validatePrice market request.price,validateSize market request.size with
        | .ok _,.ok _ => footprint (Tracing.checkOrderAllowed trader request) e
        | _,_ => [] := by
  rw [footprint,Tracing.validateOrder,exec_bind,Tracing.getMarket,exec_touching,exec_reads]
  dsimp only
  rw [exec_bind,exec_plainly]
  cases e.state.getMarket request.marketId with
  | none => rfl
  | some market =>
  rw [exec_orThrow_some]
  dsimp only
  rw [exec_bind,exec_plainly,exec_tries]
  cases validatePrice market request.price with
  | error error => rfl
  | ok _ =>
  dsimp only
  rw [exec_bind,exec_plainly,exec_tries]
  cases validateSize market request.size with
  | error error => rfl
  | ok _ =>
  dsimp only
  rw [exec_bind,Tracing.notes_checkOrderAllowed]
  cases exec (tries fun e => RiskEngine.checkOrderAllowed e.state trader request) e with
  | mk result after => cases result <;> rfl

theorem validateOrder_touches (inside : touch ∈ footprint (Tracing.validateOrder trader request) e) :
    touch = ⟨.market request.marketId,.read⟩ ∨ touch = ⟨.position trader request.marketId,.read⟩ ∨
      ∃ market, AsksBalance e request market ∧ touch = ⟨.balance trader market.quoteAssetId,.read⟩ := by
  obtain ⟨again,positions,checked⟩ := footprint_checkOrderAllowed trader request e
  rw [footprint_validateOrder,checked] at inside
  rcases List.mem_cons.mp inside with own | inside
  · exact .inl own
  cases registered : e.state.getMarket request.marketId with
  | none => rw [registered] at inside; cases inside
  | some market =>
  rw [registered] at inside
  dsimp only at inside
  cases priced : validatePrice market request.price with
  | error error => rw [priced] at inside; cases inside
  | ok _ =>
  cases sized : validateSize market request.size with
  | error error => rw [priced,sized] at inside; cases inside
  | ok _ =>
  rw [priced,sized] at inside
  dsimp only at inside
  rcases List.mem_cons.mp inside with own | inside
  · exact .inl own
  split at inside
  · rename_i fits
    rcases List.mem_cons.mp inside with own | inside
    · exact .inr (.inr ⟨market,⟨registered,priced,sized,fits.1,fits.2⟩,own⟩)
    rcases List.mem_cons.mp inside with own | inside
    · exact .inr (.inl own)
    · exact .inr (.inl (positions touch inside))
  · cases inside

theorem validateOrder_asks (asks : AsksBalance e request market) :
    ⟨.balance trader market.quoteAssetId,.read⟩ ∈ footprint (Tracing.validateOrder trader request) e := by
  obtain ⟨again,_,checked⟩ := footprint_checkOrderAllowed trader request e
  rw [footprint_validateOrder,checked,asks.registered]
  dsimp only
  rw [asks.priced,asks.sized,if_pos ⟨asks.value,asks.scaled⟩]
  simp

theorem footprint_placeOrder (trader : Address) (request : PlaceOrderTx) (e : Engine) :
    footprint (Tracing.placeOrder trader request) e = footprint (Tracing.validateOrder trader request) e ++
      match validateOrder e.state trader request with
      | .error _ => []
      | .ok market =>
        ⟨.nextOrderId,.read⟩ ::
          if e.state.orderCounter + 1 < 2 ^ 64 then
            ⟨.nextOrderId,.write⟩ :: (Tracing.matchOrderTouches e.orderbook (issued e).state (incoming e trader request) ++
              match exec (matchIncoming (incoming e trader request)) (issued e) with
              | (.ok fills,matched) => footprint (Tracing.finishOrder trader request market (incoming e trader request) fills) matched
              | (.error _,_) => [])
          else [] := by
  refine (Notes.footprint_bind (Tracing.notes_validateOrder _ _) (fun _ => .bind (.touching _ _) fun _ =>
    .bind (.plainly _) fun _ => .bind (.touching _ _) fun _ => Tracing.notes_finishOrder _ _ _ _ _) e).trans ?_
  rw [exec_tries]
  cases validateOrder e.state trader request with
  | error error => rfl
  | ok market =>
  refine congrArg (_ ++ ·) ?_
  refine (Notes.footprint_bind (.touching _ _) (fun _ =>
    .bind (.plainly _) fun _ => .bind (.touching _ _) fun _ => Tracing.notes_finishOrder _ _ _ _ _) e).trans ?_
  dsimp only
  by_cases counter : e.state.orderCounter + 1 < 2 ^ 64
  case neg => rw [takeOrderId_full counter,footprint_touching,if_neg counter,if_neg counter]; rfl
  rw [takeOrderId_exec counter,footprint_touching,if_pos counter,if_pos counter]
  refine congrArg (([⟨.nextOrderId,.read⟩,⟨.nextOrderId,.write⟩] : List Touch) ++ ·) ?_
  refine (Notes.footprint_bind (.plainly _) (fun _ =>
    .bind (.touching _ _) fun _ => Tracing.notes_finishOrder _ _ _ _ _) (issued e)).trans ?_
  rw [footprint_plainly,exec_reads,List.nil_append]
  refine (Notes.footprint_bind (.touching _ _) (fun _ => Tracing.notes_finishOrder _ _ _ _ _) (issued e)).trans ?_
  have order : newOrder trader request e.state.orderCounter (issued e).state.version = incoming e trader request := rfl
  rw [footprint_touching,order]
  cases exec (matchIncoming (incoming e trader request)) (issued e) with
  | mk result matched => cases result <;> rfl

theorem footprint_settleOrder (order : Order) (timeInForce : TimeInForce) (e : Engine) :
    footprint (Tracing.settleOrder order timeInForce) e =
      if order.remainingSize = 0 then [⟨.order order.id,.write⟩]
      else
        match timeInForce with
        | .gtc | .postOnly => ⟨.order order.id,.write⟩ :: Tracing.addActiveOrderTouches e.state order.marketId order.id
        | .ioc => [⟨.order order.id,.write⟩]
        | .fok => [] := by
  unfold Tracing.settleOrder
  split
  · rfl
  · cases timeInForce <;> rfl

theorem footprint_finishOrder_nil (trader : Address) (request : PlaceOrderTx) (market : Market) (order : Order) (e : Engine) :
    footprint (Tracing.finishOrder trader request market order []) e =
      footprint (Tracing.settleOrder order request.timeInForce) e := by
  rw [footprint,Tracing.finishOrder,Tracing.processFills,exec_bind,exec_pure]
  dsimp only
  rw [exec_bind,exec_plainly]
  dsimp only [emit,exec_writes]
  rw [exec_bind,Tracing.notes_settleOrder]
  have same : footprint (Tracing.settleOrder order request.timeInForce) e = footprint (Tracing.settleOrder
      {order with remainingSize:=order.remainingSize - sumWrap 64 (([] : List Fill).map Fill.size)} request.timeInForce)
      {e with context:=e.context ++ [.orderPlaced order.id trader request.marketId request.isBuy request.price request.size
        request.orderType]} := by
    rw [footprint_settleOrder,footprint_settleOrder]
    rfl
  rw [same]
  cases exec (settleOrder {order with remainingSize:=order.remainingSize - sumWrap 64 (([] : List Fill).map Fill.size)}
      request.timeInForce) _ with
  | mk result after => cases result <;> rfl

theorem matchIncoming_quiet (passes : e.orderbook.passesPostOnly (incoming e trader request))
    (nothing : request.size = 0 ∨ e.orderbook.reaches (incoming e trader request) = false) :
    Tracing.matchOrderTouches e.orderbook (issued e).state (incoming e trader request) = [] ∧
      ∃ matched, exec (matchIncoming (incoming e trader request)) (issued e) = (.ok [],matched) := by
  rw [OrderbookManager.passesPostOnly,Bool.not_eq_true'] at passes
  obtain ⟨untouched,fills⟩ := @matchPrices_quiet (incoming e trader request)
    ⟨(issued e).state,e.orderbook.side (!request.isBuy) request.marketId,request.size,[],false⟩
    (OrderbookManager.bestFirst (!request.isBuy) (e.orderbook.side (!request.isBuy) request.marketId)) nothing
  refine ⟨?_,?_⟩
  · rw [Tracing.matchOrderTouches,passes]
    exact untouched
  · have unmatched : ¬((incoming e trader request).postOnly && e.orderbook.wouldMatch (incoming e trader request)) = true := by
      rw [passes]
      exact Bool.false_ne_true
    obtain ⟨m,ran,none⟩ : ∃ m, (issued e).orderbook.matchOrder (issued e).state (incoming e trader request) = .ok m ∧
      m.fills = [] := ⟨_,if_neg unmatched,fills⟩
    rw [matchIncoming,exec_attempts,ran]
    dsimp only
    rw [none]
    exact ⟨_,rfl⟩

theorem matchOrder_reads (passes : e.orderbook.passesPostOnly (incoming e trader request)) (sized : request.size ≠ 0)
    (reaches : e.orderbook.reaches (incoming e trader request) = true) :
    ∃ orderId, ⟨.order orderId,.read⟩ ∈ Tracing.matchOrderTouches e.orderbook (issued e).state (incoming e trader request) := by
  rw [OrderbookManager.passesPostOnly,Bool.not_eq_true'] at passes
  rw [Tracing.matchOrderTouches,passes]
  exact @matchPrices_reads (incoming e trader request)
    ⟨(issued e).state,e.orderbook.side (!request.isBuy) request.marketId,request.size,[],false⟩
    (OrderbookManager.bestFirst (!request.isBuy) (e.orderbook.side (!request.isBuy) request.marketId)) sized reaches

theorem placeOrder_orders (goes : GoesToBook e trader request)
    (ends : ¬(request.size ≠ 0 ∧ request.timeInForce = .fok ∧ e.orderbook.reaches (incoming e trader request) = false)) :
    ∃ orderId mode, ⟨.order orderId,mode⟩ ∈ footprint (Tracing.placeOrder trader request) e := by
  obtain ⟨valid,counter,passes⟩ := goes
  cases validated : validateOrder e.state trader request with
  | error error => rw [validated] at valid; cases valid
  | ok market =>
  rw [footprint_placeOrder,validated]
  dsimp only
  rw [if_pos counter]
  by_cases trades : request.size ≠ 0 ∧ e.orderbook.reaches (incoming e trader request) = true
  · obtain ⟨orderId,inside⟩ := matchOrder_reads passes trades.1 trades.2
    exact ⟨orderId,.read,List.mem_append_right _ (List.mem_cons_of_mem _ (List.mem_cons_of_mem _ (List.mem_append_left _ inside)))⟩
  · have quiet : request.size = 0 ∨ e.orderbook.reaches (incoming e trader request) = false := by
      by_cases sized : request.size = 0
      · exact .inl sized
      · exact .inr (Bool.eq_false_iff.mpr fun reaches => trades ⟨sized,reaches⟩)
    obtain ⟨_,matched,ran⟩ := matchIncoming_quiet passes quiet
    rw [ran]
    dsimp only
    rw [footprint_finishOrder_nil,footprint_settleOrder]
    have stored : ⟨.order (incoming e trader request).id,.write⟩ ∈
        (if (incoming e trader request).remainingSize = 0 then [⟨.order (incoming e trader request).id,.write⟩]
        else
          match request.timeInForce with
          | .gtc | .postOnly => ⟨.order (incoming e trader request).id,.write⟩ :: Tracing.addActiveOrderTouches matched.state
            (incoming e trader request).marketId (incoming e trader request).id
          | .ioc => [⟨.order (incoming e trader request).id,.write⟩]
          | .fok => [] : List Touch) := by
      split
      · exact List.mem_cons_self
      · rename_i left
        cases force : request.timeInForce with
        | gtc | postOnly | ioc => exact List.mem_cons_self
        | fok => exact absurd ⟨left,force,quiet.resolve_left left⟩ ends
    exact ⟨_,_,List.mem_append_right _ (List.mem_cons_of_mem _ (List.mem_cons_of_mem _ (List.mem_append_right _ stored)))⟩

theorem placeOrder_checks (ends : GoesToBook e trader request → request.size ≠ 0 ∧ request.timeInForce = .fok ∧
      e.orderbook.reaches (incoming e trader request) = false)
    (inside : touch ∈ footprint (Tracing.placeOrder trader request) e) :
    touch ∈ footprint (Tracing.validateOrder trader request) e ∨ touch.key = .nextOrderId := by
  rw [footprint_placeOrder] at inside
  rcases List.mem_append.mp inside with checked | inside
  · exact .inl checked
  right
  cases validated : validateOrder e.state trader request with
  | error error => rw [validated] at inside; cases inside
  | ok market =>
  rw [validated] at inside
  rcases List.mem_cons.mp inside with rfl | inside
  · rfl
  split at inside
  case isFalse => cases inside
  rename_i counter
  rcases List.mem_cons.mp inside with rfl | inside
  · rfl
  by_cases passes : e.orderbook.passesPostOnly (incoming e trader request)
  · obtain ⟨sized,kill,alone⟩ := ends ⟨by rw [validated]; rfl,counter,passes⟩
    obtain ⟨untouched,matched,ran⟩ := matchIncoming_quiet passes (.inr alone)
    rw [untouched,ran] at inside
    dsimp only at inside
    have left : (incoming e trader request).remainingSize ≠ 0 := sized
    rw [footprint_finishOrder_nil,footprint_settleOrder,if_neg left,kill] at inside
    cases inside
  · have turned := Bool.eq_false_iff.mpr passes
    have away : exec (matchIncoming (incoming e trader request)) (issued e) = _ := matchIncoming_turnedAway turned
    rw [away] at inside
    rw [OrderbookManager.passesPostOnly,Bool.not_eq_false'] at turned
    rw [Tracing.matchOrderTouches,turned] at inside
    cases inside

theorem places_iff (placing : tx.payload = .placeOrder request) :
    (∀ touch ∈ footprint (Tracing.placeOrder tx.sender request) e, tx.Covers touch) ↔ PlacesAsDeclared e tx.sender request := by
  constructor
  · refine fun covered => ⟨fun market asks => ?_,fun goes => ?_⟩
    · by_contra foreign
      have asked : ⟨.balance tx.sender market.quoteAssetId,.read⟩ ∈ footprint (Tracing.placeOrder tx.sender request) e := by
        rw [footprint_placeOrder]
        exact List.mem_append_left _ (validateOrder_asks asks)
      refine not_covers rfl (fun mode => ?_) _ (covered _ asked)
      simp [Transaction.declareAccesses,placing,balanceAccess,foreign]
    · by_contra ends
      obtain ⟨orderId,mode,inside⟩ := placeOrder_orders goes ends
      refine not_covers rfl (fun mode => ?_) mode (covered _ inside)
      simp [Transaction.declareAccesses,placing,balanceAccess]
  · rintro ⟨quote,book⟩ touch inside
    rcases placeOrder_checks book inside with checked | counter
    · rcases validateOrder_touches checked with rfl | rfl | ⟨market,asks,rfl⟩
      · exact covers_read rfl (by simp [Transaction.declareAccesses,placing])
      · exact covers_write rfl (by simp [Transaction.declareAccesses,placing]) _
      · exact covers_write rfl (by simp [Transaction.declareAccesses,placing,balanceAccess,quote market asks]) _
    · exact covers_unnamed (by rw [counter]; rfl)

theorem cancels_iff (cancelling : tx.payload = .cancelOrder cancel) :
    (∀ touch ∈ footprint (Tracing.cancelOrder tx.sender cancel) e, tx.Covers touch) ↔ ¬Cancels e tx.sender cancel := by
  have own : tx.Covers ⟨.order cancel.orderId,.read⟩ :=
    covers_write rfl (by simp [Transaction.declareAccesses,cancelling]) _
  rw [footprint_cancelOrder]
  constructor
  · rintro covered ⟨order,found,owner,active⟩
    have listed : ⟨.activeOrderList order.marketId,.write⟩ ∈ (⟨.order cancel.orderId,.read⟩ ::
        ⟨.order cancel.orderId,.write⟩ :: Tracing.removeActiveOrderTouches order.marketId cancel.orderId : List Touch) := by
      simp [Tracing.removeActiveOrderTouches]
    rw [found] at covered
    dsimp only at covered
    rw [if_neg (not_not.mpr owner),if_neg (not_not.mpr active)] at covered
    refine not_covers rfl (fun mode => ?_) _ (covered _ listed)
    simp [Transaction.declareAccesses,cancelling]
  · intro fails touch inside
    rcases List.mem_cons.mp inside with rfl | inside
    · exact own
    cases found : e.state.getOrder cancel.orderId with
    | none => rw [found] at inside; cases inside
    | some order =>
      rw [found] at inside
      dsimp only at inside
      split at inside
      · cases inside
      split at inside
      · cases inside
      · rename_i owner active
        exact absurd ⟨order,found,not_not.mp owner,not_not.mp active⟩ fails

theorem footprint_closePosition (trader : Address) (close : ClosePositionTx) (e : Engine) :
    footprint (Tracing.closePosition trader close) e = ⟨.position trader close.marketId,.read⟩ ::
      match e.state.getPosition trader close.marketId with
      | none => []
      | some position => footprint (Tracing.placeOrder trader (PositionService.closeOrder position close)) e := by
  rw [footprint,Tracing.closePosition,exec_bind,Tracing.getPosition,exec_touching,exec_reads]
  dsimp only
  rw [exec_bind,exec_plainly]
  cases e.state.getPosition trader close.marketId with
  | none => rfl
  | some position =>
  rw [exec_orThrow_some]
  dsimp only
  rw [exec_bind,Tracing.notes_placeOrder]
  cases exec (placeOrder trader (PositionService.closeOrder position close)) e with
  | mk result after => cases result <;> rfl

-- A closing order is at the market: nothing but its size stands between it and the balance.
theorem closing_asks_iff (position : Position) (close : ClosePositionTx) :
    AsksBalance e (PositionService.closeOrder position close) market ↔ e.state.getMarket close.marketId = some market ∧
      validateSize market (PositionService.closeOrder position close).size = .ok () := by
  have free : (PositionService.closeOrder position close).size * (PositionService.closeOrder position close).price = 0 :=
    Nat.mul_zero _
  constructor
  · exact fun asks => ⟨asks.registered,asks.sized⟩
  · rintro ⟨registered,sized⟩
    exact ⟨registered,rfl,sized,by rw [free]; decide,by rw [free,Nat.zero_mul]; decide⟩

theorem validateOrder_sized (valid : validateOrder e.state trader request = .ok market) :
    e.state.getMarket request.marketId = some market ∧ validateSize market request.size = .ok () := by
  unfold validateOrder at valid
  cases registered : e.state.getMarket request.marketId with
  | none => rw [registered] at valid; cases valid
  | some info =>
    rw [registered] at valid
    obtain ⟨_,_,valid⟩ := bind_eq_ok valid
    obtain ⟨_,sized,valid⟩ := bind_eq_ok valid
    obtain ⟨_,_,returned⟩ := bind_eq_ok valid
    cases returned
    exact ⟨rfl,sized⟩

theorem closes_iff (closing : tx.payload = .closePosition close) :
    (∀ touch ∈ footprint (Tracing.closePosition tx.sender close) e, tx.Covers touch) ↔ ¬Closes e tx.sender close := by
  rw [footprint_closePosition]
  constructor
  · rintro covered ⟨position,market,found,registered,sized⟩
    rw [found] at covered
    have asks := (closing_asks_iff position close).mpr ⟨registered,sized⟩
    have asked : ⟨.balance tx.sender market.quoteAssetId,.read⟩ ∈
        footprint (Tracing.placeOrder tx.sender (PositionService.closeOrder position close)) e := by
      rw [footprint_placeOrder]
      exact List.mem_append_left _ (validateOrder_asks asks)
    refine not_covers rfl (fun mode => ?_) _ (covered _ (List.mem_cons_of_mem _ asked))
    simp [Transaction.declareAccesses,closing]
  · intro fails touch inside
    rcases List.mem_cons.mp inside with rfl | inside
    · exact covers_write rfl (by simp [Transaction.declareAccesses,closing]) _
    cases found : e.state.getPosition tx.sender close.marketId with
    | none => rw [found] at inside; cases inside
    | some position =>
      rw [found] at inside
      dsimp only at inside
      have unasked : ∀ market, ¬AsksBalance e (PositionService.closeOrder position close) market := fun market asks =>
        fails ⟨position,market,found,(closing_asks_iff position close).mp asks⟩
      have stays : ¬GoesToBook e tx.sender (PositionService.closeOrder position close) := by
        rintro ⟨valid,_,_⟩
        cases validated : validateOrder e.state tx.sender (PositionService.closeOrder position close) with
        | error error => rw [validated] at valid; cases valid
        | ok market => exact unasked market ((closing_asks_iff position close).mpr (validateOrder_sized validated))
      rcases placeOrder_checks (fun goes => absurd goes stays) inside with checked | counter
      · rcases validateOrder_touches checked with rfl | rfl | ⟨market,asks,rfl⟩
        · exact covers_read rfl (by simp [Transaction.declareAccesses,closing,PositionService.closeOrder])
        · exact covers_write rfl (by simp [Transaction.declareAccesses,closing,PositionService.closeOrder]) _
        · exact absurd asks (unasked market)
      · exact covers_unnamed (by rw [counter]; rfl)

end Placing

theorem accounts_declared {noting : Tracing.Trace Unit} {plain : EngineM Unit} (notes : Notes noting plain)
    (within : Within tx.Covers noting) : (∀ touch ∈ footprint (Tracing.onEngine noting) node, tx.Covers touch) ↔ True := by
  rw [Tracing.footprint_onEngine notes]
  exact iff_true_intro (within.footprint node.engine)

theorem payload_iff : (∀ touch ∈ footprint (Tracing.executePayload codec tx) node, tx.Covers touch) ↔ AsDeclared node.engine tx := by
  unfold AsDeclared
  cases payload : tx.payload with
  | setAgent agent | removeAgent agent | modifyOrder modify =>
    rw [Tracing.executePayload,payload]
    dsimp only
    rw [footprint_plainly]
    exact iff_true_intro fun _ inside => by cases inside
  | deposit request | withdraw request =>
    rw [Tracing.executePayload,payload]
    refine accounts_declared (Tracing.notes_updateBalance _ _ _ _ _) (within_updateBalance (covers_write rfl ?_) _ _ _)
    simp [Transaction.declareAccesses,payload,balanceWithAsset,balanceAccess]
  | transfer request =>
    rw [Tracing.executePayload,payload]
    refine accounts_declared (Tracing.notes_transfer _ _) (within_transfer (covers_read rfl ?_) (covers_write rfl ?_)
      (covers_write rfl ?_)) <;>
    simp [Transaction.declareAccesses,payload,balanceAccess,assetInfoAccess]
  | placeOrder request =>
    rw [Tracing.executePayload,payload]
    dsimp only
    have placed : footprint (Tracing.placeOrder tx.sender request >>= fun _ => pure () : Tracing.Trace Unit) node.engine =
        footprint (Tracing.placeOrder tx.sender request) node.engine := by
      rw [Notes.footprint_bind (Tracing.notes_placeOrder _ _) fun _ => .pure _]
      cases exec (placeOrder tx.sender request) node.engine with
      | mk result after => cases result <;> exact List.append_nil _
    rw [Tracing.footprint_onEngine (.bind (Tracing.notes_placeOrder _ _) fun _ => .pure _),placed]
    exact places_iff payload
  | cancelOrder cancel =>
    rw [Tracing.executePayload,payload]
    dsimp only
    rw [Tracing.footprint_onEngine (Tracing.notes_cancelOrder _ _)]
    exact cancels_iff payload
  | closePosition close =>
    rw [Tracing.executePayload,payload]
    dsimp only
    rw [Tracing.footprint_onEngine (Tracing.notes_closePosition _ _)]
    exact closes_iff payload
  | bridgeDeposit request =>
    rw [Tracing.executePayload,payload]
    refine accounts_declared (Tracing.notes_bridgeDeposit _ _) (within_bridgeDeposit (covers_read rfl ?_) (covers_read rfl ?_)
      (covers_write rfl ?_)) <;>
    simp [Transaction.declareAccesses,payload,balanceWithAsset,balanceAccess,assetInfoAccess]
  | bridgeWithdraw request =>
    rw [Tracing.executePayload,payload]
    refine accounts_declared (Tracing.notes_bridgeWithdraw _ _) (within_bridgeWithdraw (covers_read rfl ?_)
      (covers_read rfl ?_) (covers_write rfl ?_)) <;>
    simp [Transaction.declareAccesses,payload,balanceWithAsset,balanceAccess,assetInfoAccess]

-- In every node: the execution keeps to the declaration exactly when the transaction is turned
-- away, or its payload is one that does. By `Tracing.notes_execute` the footprint is that of the
-- untraced execution.
theorem conservative_iff (codec : Codec) (tx : Transaction) (node : Node) :
    Conservative codec tx node ↔ (Accepted codec tx node → AsDeclared node.engine tx) := by
  rw [conservative_iff_payload,payload_iff]

section Bench

def trading : Node := ⟨Engine.new Bench.state,fun _ _ => none⟩

def sells : Transaction := ⟨0,Bench.alice,.placeOrder Bench.ask,.rawBorsh 0⟩

def cancelsSale : Transaction := ⟨1,Bench.alice,.cancelOrder ⟨0⟩,.rawBorsh 0⟩

-- The order that is placed is stored under a key that was not declared, and its cancellation
-- writes the list of a market that was not.
theorem sale_undeclared :
    Reachable trading.engine ∧
      (⟨.order 0,.write⟩ ∈ footprint (Tracing.execute Bench.trusting sells) trading ∧ (.order 0,.write) ∉ sells.declareAccesses) ∧
      (⟨.activeOrderList 0,.write⟩ ∈ footprint (Tracing.execute Bench.trusting cancelsSale)
          (exec (execute Bench.trusting sells) trading).2 ∧
        (.orderList 0,.write) ∉ cancelsSale.declareAccesses) ∧
      ¬Conservative Bench.trusting sells trading := by
  have stored : ⟨.order 0,.write⟩ ∈ footprint (Tracing.execute Bench.trusting sells) trading := by decide +kernel
  have missing : (.order 0,.write) ∉ sells.declareAccesses := by decide +kernel
  refine ⟨.start Bench.noOrders,⟨stored,missing⟩,⟨by decide +kernel,by decide +kernel⟩,fun conservative => ?_⟩
  exact missing (conservative _ stored _ rfl)

end Bench

end Declaring
end Pranklin
