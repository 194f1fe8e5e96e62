import Pranklin.Calls

namespace Pranklin
open Words Effect OrderService OrderbookManager

-- The keys that a service reads; the index of positions is only written.
def StateKey.read : StateKey → Bool
  | .positionIndex _ => false
  | _ => true

structure Mirrors (R : StateManager → StateManager → Prop) : Prop where
  reads : ∀ {s t}, R s t → ∀ key, key.read → t.get key = s.get key
  version : ∀ {s t}, R s t → t.version = s.version
  set : ∀ {s t}, R s t → ∀ (key : StateKey) (value : key.Value), key.read → R (s.set key value) (t.set key value)
  delete : ∀ {s t}, R s t → ∀ key : StateKey, key.read → R (s.delete key) (t.delete key)
  setPosition : ∀ {s t}, R s t → ∀ address marketId position,
    R (s.setPosition address marketId position) (t.setPosition address marketId position)
  deletePosition : ∀ {s t}, R s t → ∀ address marketId,
    R (s.deletePosition address marketId) (t.deletePosition address marketId)

theorem mirrors_eq : Mirrors Eq where
  reads := by rintro s _ rfl key _; rfl
  version := by rintro s _ rfl; rfl
  set := by rintro s _ rfl key value _; rfl
  delete := by rintro s _ rfl key _; rfl
  setPosition := by rintro s _ rfl address marketId position; rfl
  deletePosition := by rintro s _ rfl address marketId; rfl

-- No service can tell the states apart, though a balance that was never written may stand beside one of zero.
structure Observes (R : StateManager → StateManager → Prop) : Prop where
  reads : ∀ {s t}, R s t → ∀ key, key.read → !key.ofBalances → t.get key = s.get key
  getBalance : ∀ {s t}, R s t → ∀ address assetId, t.getBalance address assetId = s.getBalance address assetId
  version : ∀ {s t}, R s t → t.version = s.version
  set : ∀ {s t}, R s t → ∀ (key : StateKey) (value : key.Value), key.read → R (s.set key value) (t.set key value)
  delete : ∀ {s t}, R s t → ∀ key : StateKey, key.read → !key.ofBalances → R (s.delete key) (t.delete key)
  setPosition : ∀ {s t}, R s t → ∀ address marketId position,
    R (s.setPosition address marketId position) (t.setPosition address marketId position)
  deletePosition : ∀ {s t}, R s t → ∀ address marketId,
    R (s.deletePosition address marketId) (t.deletePosition address marketId)

theorem Mirrors.observes {R : StateManager → StateManager → Prop} (mirrors : Mirrors R) : Observes R where
  reads related key chosen _ := mirrors.reads related key chosen
  getBalance related address assetId := by
    rw [StateManager.getBalance,mirrors.reads related _ rfl,StateManager.getBalance]
  version := mirrors.version
  set := mirrors.set
  delete related key chosen _ := mirrors.delete related key chosen
  setPosition := mirrors.setPosition
  deletePosition := mirrors.deletePosition

structure IndexBlind (R : StateManager → StateManager → Prop) : Prop where
  symm : ∀ {s t}, R s t → R t s
  trans : ∀ {s t u}, R s t → R t u → R s u
  cached : ∀ s : StateManager, ∀ positionIndex moment, R s {s with positionIndex:=positionIndex,moment:=moment}
  stored : ∀ s : StateManager, ∀ marketId index, R s (s.set (.positionIndex marketId) index)
  erased : ∀ s : StateManager, ∀ marketId, R s (s.delete (.positionIndex marketId))

namespace IndexBlind
variable {R : StateManager → StateManager → Prop} {s t : StateManager}

theorem updatePositionIndex (blind : IndexBlind R) (related : R s t) (marketId : Nat) :
    R s (t.updatePositionIndex marketId) := by
  refine blind.trans related ?_
  unfold StateManager.updatePositionIndex
  split
  · exact blind.stored _ _ _
  · exact blind.erased _ _

theorem position_set (blind : IndexBlind R) (s : StateManager) (address : Address) (marketId : Nat) (position : Position) :
    R (s.set (.position address marketId) position) (s.setPosition address marketId position) :=
  blind.updatePositionIndex (blind.cached _ _ _) marketId

theorem position_delete (blind : IndexBlind R) (s : StateManager) (address : Address) (marketId : Nat) :
    R (s.delete (.position address marketId)) (s.deletePosition address marketId) := by
  refine blind.updatePositionIndex ?_ marketId
  unfold StateManager.removeFromPositionIndex
  split
  · exact blind.cached _ _ _
  · exact blind.cached _ _ _

theorem setPosition (blind : IndexBlind R)
    (written : R (s.set (.position address marketId) position) (t.set (.position address marketId) position)) :
    R (s.setPosition address marketId position) (t.setPosition address marketId position) :=
  blind.trans (blind.symm (blind.position_set s _ _ _)) (blind.trans written (blind.position_set t _ _ _))

theorem deletePosition (blind : IndexBlind R)
    (deleted : R (s.delete (.position address marketId)) (t.delete (.position address marketId))) :
    R (s.deletePosition address marketId) (t.deletePosition address marketId) :=
  blind.trans (blind.symm (blind.position_delete s _ _)) (blind.trans deleted (blind.position_delete t _ _))

end IndexBlind

namespace Observes
variable {R : StateManager → StateManager → Prop} {s t : StateManager}

theorem getOrder (observes : Observes R) (related : R s t) (orderId : Nat) : t.getOrder orderId = s.getOrder orderId :=
  observes.reads related _ rfl rfl

theorem getPosition (observes : Observes R) (related : R s t) (address : Address) (marketId : Nat) :
    t.getPosition address marketId = s.getPosition address marketId := observes.reads related _ rfl rfl

theorem getAsset (observes : Observes R) (related : R s t) (assetId : Nat) : t.getAsset assetId = s.getAsset assetId :=
  observes.reads related _ rfl rfl

theorem getNonce (observes : Observes R) (related : R s t) (address : Address) : t.getNonce address = s.getNonce address := by
  rw [StateManager.getNonce,observes.reads related _ rfl rfl,StateManager.getNonce]

theorem isBridgeOperator (observes : Observes R) (related : R s t) (address : Address) :
    t.isBridgeOperator address = s.isBridgeOperator address := by
  rw [StateManager.isBridgeOperator,observes.reads related _ rfl rfl,StateManager.isBridgeOperator]

theorem getMarket (observes : Observes R) (related : R s t) (marketId : Nat) : t.getMarket marketId = s.getMarket marketId :=
  observes.reads related _ rfl rfl

theorem orderCounter (observes : Observes R) (related : R s t) : t.orderCounter = s.orderCounter := by
  rw [StateManager.orderCounter,observes.reads related _ rfl rfl,StateManager.orderCounter]

theorem getActiveOrdersByMarket (observes : Observes R) (related : R s t) (marketId : Nat) :
    t.getActiveOrdersByMarket marketId = s.getActiveOrdersByMarket marketId := by
  rw [StateManager.getActiveOrdersByMarket,observes.reads related _ rfl rfl,StateManager.getActiveOrdersByMarket]

theorem setOrder (observes : Observes R) (related : R s t) (orderId : Nat) (order : Order) :
    R (s.setOrder orderId order) (t.setOrder orderId order) := observes.set related _ _ rfl

theorem setBalance (observes : Observes R) (related : R s t) (address : Address) (assetId amount : Nat) :
    R (s.setBalance address assetId amount) (t.setBalance address assetId amount) := observes.set related _ _ rfl

theorem addActiveOrder (observes : Observes R) (related : R s t) (marketId orderId : Nat) :
    R (s.addActiveOrder marketId orderId) (t.addActiveOrder marketId orderId) := by
  have flagged := observes.set related (.activeOrder marketId orderId) true rfl
  unfold StateManager.addActiveOrder
  dsimp only
  rw [observes.getActiveOrdersByMarket flagged]
  split
  · exact flagged
  · exact observes.set flagged _ _ rfl

theorem removeActiveOrder (observes : Observes R) (related : R s t) (marketId orderId : Nat) :
    R (s.removeActiveOrder marketId orderId) (t.removeActiveOrder marketId orderId) := by
  have flagged := observes.delete related (.activeOrder marketId orderId) rfl rfl
  unfold StateManager.removeActiveOrder
  dsimp only
  rw [observes.getActiveOrdersByMarket flagged]
  exact observes.set flagged _ _ rfl

end Observes

section Books
variable {book other : OrderbookManager}

-- Two books with the same levels differ at most in how their trees are balanced.
theorem side_equiv (same : other.level = book.level) (isBuy : Bool) (marketId : Nat) :
    (book.side isBuy marketId).Equiv (other.side isBuy marketId) :=
  .of_forall_constGet?_eq fun price => (congrFun same ⟨marketId,isBuy,price⟩).symm

theorem level_addOrder_congr (same : other.level = book.level) (orderId : Nat) (order : Order) :
    (other.addOrder orderId order).level = (book.addOrder orderId order).level := by
  funext slot
  rw [level_addOrder,level_addOrder,same]

theorem level_removeOrder_congr (same : other.level = book.level) (orderId : Nat) (order : Order) :
    (other.removeOrder orderId order).level = (book.removeOrder orderId order).level := by
  funext slot
  rw [level_removeOrder,level_removeOrder,same]

theorem wouldMatch_congr (same : other.level = book.level) (order : Order) :
    other.wouldMatch order = book.wouldMatch order := by
  have keys := (side_equiv same (!order.isBuy) order.marketId).keys_eq
  unfold wouldMatch bestFirst
  rw [keys]

end Books

section Match
variable {R : StateManager → StateManager → Prop}

structure LevelTwin (R : StateManager → StateManager → Prop) (m n : LevelMatch) : Prop where
  state : R m.state n.state
  level : n.level = m.level
  remaining : n.remaining = m.remaining
  fills : n.fills = m.fills
  borrowed : n.borrowed = m.borrowed

structure BookTwin (R : StateManager → StateManager → Prop) (m n : BookMatch) : Prop where
  state : R m.state n.state
  levels : m.levels.Equiv n.levels
  remaining : n.remaining = m.remaining
  fills : n.fills = m.fills
  borrowed : n.borrowed = m.borrowed

theorem matchMaker_twin (observes : Observes R) (order : Order) {m n : LevelMatch} (twin : LevelTwin R m n)
    (price makerOrderId : Nat) :
    LevelTwin R (matchMaker order price m makerOrderId) (matchMaker order price n makerOrderId) := by
  obtain ⟨state,level,remaining,fills,borrowed⟩ := twin
  unfold matchMaker
  rw [observes.getOrder state]
  split
  · exact ⟨state,level,remaining,fills,borrowed⟩
  · split
    · exact ⟨state,level,remaining,fills,borrowed⟩
    · simp only [level,remaining,fills,borrowed]
      split
      · exact ⟨observes.removeActiveOrder (observes.setOrder state _ _) _ _,rfl,rfl,rfl,rfl⟩
      · exact ⟨observes.setOrder state _ _,rfl,rfl,rfl,rfl⟩

theorem matchLevel_twin (observes : Observes R) (order : Order) {m n : LevelMatch} (twin : LevelTwin R m n) (price : Nat)
    (orderIds : List Nat) : LevelTwin R (matchLevel order price m orderIds) (matchLevel order price n orderIds) := by
  induction orderIds generalizing m n with
  | nil => exact twin
  | cons orderId orderIds ih =>
    simp only [matchLevel,twin.remaining]
    split
    · exact twin
    · exact ih (matchMaker_twin observes order twin price orderId)

theorem matchPrice_twin (observes : Observes R) (order : Order) {m n : BookMatch} (twin : BookTwin R m n) (price : Nat) :
    BookTwin R (matchPrice order m price) (matchPrice order n price) := by
  obtain ⟨state,levels,remaining,fills,borrowed⟩ := twin
  have level : n.levels[price]? = m.levels[price]? := levels.getElem?_eq.symm
  unfold matchPrice
  rw [level]
  split
  · exact ⟨state,levels,remaining,fills,borrowed⟩
  · rename_i found _
    have matched := matchLevel_twin observes order
      (m:=⟨m.state,found,m.remaining,m.fills,m.borrowed⟩) (n:=⟨n.state,found,n.remaining,n.fills,n.borrowed⟩)
      ⟨state,rfl,remaining,fills,borrowed⟩ price found.orders
    refine ⟨matched.state,?_,matched.remaining,matched.fills,matched.borrowed⟩
    dsimp only
    rw [matched.level]
    split
    · exact levels.erase price
    · exact levels.insert price _

theorem matchPrices_twin (observes : Observes R) (order : Order) {m n : BookMatch} (twin : BookTwin R m n) (prices : List Nat) :
    BookTwin R (matchPrices order m prices) (matchPrices order n prices) := by
  induction prices generalizing m n with
  | nil => exact twin
  | cons price prices ih =>
    have next := matchPrice_twin observes order twin price
    simp only [matchPrices,next.remaining]
    split
    · exact twin
    · split
      · exact next
      · exact ih next

end Match

-- Two engines whose states mirror each other and that agree in all the rest, up to the
-- shape of the trees.
structure Twin (R : StateManager → StateManager → Prop) (e f : Engine) : Prop where
  state : R e.state f.state
  levels : f.orderbook.level = e.orderbook.level
  liquidation : f.liquidation = e.liquidation
  context : f.context = e.context
  borrowed : f.borrowed = e.borrowed

-- A relation between engines that states and levels alike satisfy and that every write of
-- a service keeps.
structure Kin (R : StateManager → StateManager → Prop) (W : Engine → Engine → Prop) : Prop extends Observes R where
  state : ∀ {e f}, W e f → R e.state f.state
  levels : ∀ {e f}, W e f → f.orderbook.level = e.orderbook.level
  update : ∀ {e f}, W e f → ∀ {s t book book'}, R s t → book'.level = book.level →
    W {e with state:=s,orderbook:=book} {f with state:=t,orderbook:=book'}
  flag : ∀ {e f}, W e f → ∀ borrowed,
    W {e with borrowed:=e.borrowed || borrowed} {f with borrowed:=f.borrowed || borrowed}
  emit : ∀ {e f}, W e f → ∀ event, W {e with context:=e.context ++ [event]} {f with context:=f.context ++ [event]}

section Services
variable {R : StateManager → StateManager → Prop} {W : Engine → Engine → Prop}

theorem kin_twin (observes : Observes R) : Kin R (Twin R) where
  toObserves := observes
  state twin := twin.state
  levels twin := twin.levels
  update twin _ _ _ _ state levels := ⟨state,levels,twin.liquidation,twin.context,twin.borrowed⟩
  flag twin borrowed := ⟨twin.state,twin.levels,twin.liquidation,twin.context,by rw [twin.borrowed]⟩
  emit twin event := ⟨twin.state,twin.levels,twin.liquidation,by rw [twin.context],twin.borrowed⟩

structure Loose (R : StateManager → StateManager → Prop) (e f : Engine) : Prop where
  state : R e.state f.state
  levels : f.orderbook.level = e.orderbook.level

theorem kin_loose (observes : Observes R) : Kin R (Loose R) where
  toObserves := observes
  state alike := alike.state
  levels alike := alike.levels
  update _ _ _ _ _ state levels := ⟨state,levels⟩
  flag alike _ := ⟨alike.state,alike.levels⟩
  emit alike _ := ⟨alike.state,alike.levels⟩

variable (kin : Kin R W)
include kin

theorem lockstep_state (write : StateManager → StateManager) (kept : ∀ s t, R s t → R (write s) (write t)) :
    Lockstep W (writes fun e => {e with state:=write e.state} : EngineM Unit) :=
  .writes fun _ _ alike => kin.update alike (kept _ _ (kin.state alike)) (kin.levels alike)

theorem lockstep_emit (event : Event) : Lockstep W (emit event) := .writes fun _ _ alike => kin.emit alike event

theorem lockstep_updatePosition (trader : Address) (marketId size price : Nat) (isBuy : Bool)
    (initialMarginBps : Nat) :
    Lockstep W (PositionManager.updatePosition trader marketId size price isBuy initialMarginBps) := by
  refine .bind (.tries fun e f alike => by rw [kin.getPosition (kin.state alike)]) fun updated => ?_
  cases updated with
  | some position =>
    exact lockstep_state kin (·.setPosition trader marketId position) fun _ _ related => kin.setPosition related _ _ _
  | none => exact lockstep_state kin (·.deletePosition trader marketId) fun _ _ related => kin.deletePosition related _ _

theorem lockstep_processFills (market : Market) (fills : List Fill) :
    Lockstep W (processFills market fills) := by
  induction fills with
  | nil => exact .pure ()
  | cons fill fills ih =>
    refine .bind ?_ fun _ => ih
    exact .bind (lockstep_updatePosition kin _ _ _ _ _ _) fun _ =>
      .bind (lockstep_updatePosition kin _ _ _ _ _ _) fun _ => lockstep_emit kin _

theorem checkOrderAllowed_mirrors {s t : StateManager} (related : R s t) (trader : Address) (request : PlaceOrderTx) :
    RiskEngine.checkOrderAllowed t trader request = RiskEngine.checkOrderAllowed s trader request := by
  unfold RiskEngine.checkOrderAllowed
  rw [kin.getMarket related,kin.getPosition related]
  simp only [kin.getBalance related]

theorem validateOrder_mirrors {s t : StateManager} (related : R s t) (trader : Address) (request : PlaceOrderTx) :
    validateOrder t trader request = validateOrder s trader request := by
  unfold validateOrder
  rw [kin.getMarket related,checkOrderAllowed_mirrors kin related]

theorem lockstep_takeOrderId : Lockstep W takeOrderId := by
  refine .attempts fun e f alike => ?_
  unfold StateManager.nextOrderId
  rw [kin.orderCounter (kin.state alike)]
  cases checkedAdd 64 e.state.orderCounter 1 with
  | none => exact .inl ⟨_,rfl,rfl⟩
  | some next =>
    exact .inr ⟨_,_,_,rfl,rfl,kin.update alike (kin.set (kin.state alike) _ _ rfl) (kin.levels alike)⟩

theorem matchOrder_twin {e f : Engine} (alike : W e f) (order : Order) :
    (∃ error, e.orderbook.matchOrder e.state order = .error error ∧ f.orderbook.matchOrder f.state order = .error error) ∨
      ∃ m n, e.orderbook.matchOrder e.state order = .ok m ∧ f.orderbook.matchOrder f.state order = .ok n ∧
        R m.state n.state ∧ n.book.level = m.book.level ∧ n.fills = m.fills ∧ n.borrowed = m.borrowed := by
  have equiv := side_equiv (kin.levels alike) (!order.isBuy) order.marketId
  have matched := matchPrices_twin kin.toObserves order
    (m:=⟨e.state,e.orderbook.side (!order.isBuy) order.marketId,order.remainingSize,[],false⟩)
    (n:=⟨f.state,f.orderbook.side (!order.isBuy) order.marketId,order.remainingSize,[],false⟩)
    ⟨(kin.state alike),equiv,rfl,rfl,rfl⟩ (bestFirst (!order.isBuy) (e.orderbook.side (!order.isBuy) order.marketId))
  unfold OrderbookManager.matchOrder bestFirst at *
  dsimp only
  rw [wouldMatch_congr (kin.levels alike),← equiv.keys_eq]
  by_cases away : (order.postOnly && e.orderbook.wouldMatch order) = true
  · simp only [if_pos away]
    exact .inl ⟨_,rfl,rfl⟩
  · simp only [if_neg away]
    refine .inr ⟨_,_,rfl,rfl,matched.state,?_,matched.fills,matched.borrowed⟩
    funext slot
    rw [level_setSide,level_setSide,(kin.levels alike)]
    split
    · exact matched.levels.getElem?_eq.symm
    · rfl

theorem lockstep_matchIncoming (order : Order) : Lockstep W (matchIncoming order) := by
  refine .attempts fun e f alike => ?_
  rcases matchOrder_twin kin alike order with ⟨error,left,right⟩ | ⟨m,n,left,right,state,levels,fills,borrowed⟩
  · simp only [left,right]
    exact .inl ⟨error,rfl,rfl⟩
  · simp only [left,right,fills,borrowed]
    exact .inr ⟨_,_,_,rfl,rfl,kin.flag (kin.update alike state levels) m.borrowed⟩

theorem lockstep_settleOrder (order : Order) (timeInForce : TimeInForce) :
    Lockstep W (settleOrder order timeInForce) := by
  have stores : ∀ order, Lockstep W (storeOrder order) := fun order =>
    lockstep_state kin (·.setOrder order.id order) fun _ _ related => kin.setOrder related _ _
  unfold settleOrder
  split
  · exact stores _
  · cases timeInForce with
    | gtc | postOnly =>
      refine .writes fun e f alike => kin.update alike ?_ (level_addOrder_congr (kin.levels alike) _ _)
      exact kin.addActiveOrder (kin.setOrder (kin.state alike) _ _) _ _
    | ioc => exact stores _
    | fok => exact .throw _

theorem lockstep_placeOrder (trader : Address) (request : PlaceOrderTx) :
    Lockstep W (placeOrder trader request) := by
  refine .bind (.tries fun e f alike => (validateOrder_mirrors kin (kin.state alike) _ _).symm) fun market => ?_
  refine .bind (lockstep_takeOrderId kin) fun orderId => ?_
  refine .bind (.reads fun e f alike => (kin.version (kin.state alike)).symm) fun createdAt => ?_
  refine .bind (lockstep_matchIncoming kin _) fun fills => ?_
  refine .bind (lockstep_processFills kin _ _) fun _ => ?_
  refine .bind (lockstep_emit kin _) fun _ => ?_
  exact .bind (lockstep_settleOrder kin _ _) fun _ => .pure _

theorem lockstep_cancel (orderId marketId : Nat) (order : Order) :
    Lockstep W (writes fun e => {e with orderbook:=e.orderbook.removeOrder orderId order} : EngineM Unit) ∧
      Lockstep W (writes fun e => {e with
        state:=(e.state.setOrder orderId {order with status:=.cancelled}).removeActiveOrder marketId orderId} :
        EngineM Unit) := by
  constructor
  · exact .writes fun e f alike => kin.update alike (kin.state alike) (level_removeOrder_congr (kin.levels alike) _ _)
  · exact lockstep_state kin (fun s => (s.setOrder orderId {order with status:=.cancelled}).removeActiveOrder marketId orderId)
      fun _ _ related => kin.removeActiveOrder (kin.setOrder related _ _) _ _

theorem lockstep_cancelOrder (trader : Address) (cancel : CancelOrderTx) :
    Lockstep W (OrderService.cancelOrder trader cancel) := by
  refine .bind (.reads fun e f alike => (kin.getOrder (kin.state alike) _).symm) fun found => ?_
  refine .bind (.orThrow _ _) fun order => ?_
  split
  · exact .throw _
  · split
    · exact .throw _
    · obtain ⟨book,state⟩ := lockstep_cancel kin cancel.orderId order.marketId order
      exact .bind book fun _ => .bind state fun _ => lockstep_emit kin _

theorem lockstep_closePosition (trader : Address) (close : ClosePositionTx) :
    Lockstep W (PositionService.closePosition trader close) := by
  refine .bind (.reads fun e f alike => (kin.getPosition (kin.state alike) _ _).symm) fun found => ?_
  refine .bind (.orThrow _ _) fun position => ?_
  exact .bind (lockstep_placeOrder kin _ _) fun _ => .pure _

section Liquidations
open LiquidationEngine

theorem lockstep_cancelListedOrders (trader : Address) (marketId : Nat) (orderIds : List Nat) :
    Lockstep W (cancelListedOrders trader marketId orderIds) := by
  induction orderIds with
  | nil => exact .pure []
  | cons orderId orderIds ih =>
    refine .bind (.reads fun e f alike => (kin.getOrder (kin.state alike) _).symm) fun found => ?_
    cases found with
    | none => exact ih
    | some order =>
      obtain ⟨book,state⟩ := lockstep_cancel kin orderId marketId order
      dsimp only
      split
      · exact .bind book fun _ => .bind state fun _ => .bind ih fun _ => .pure _
      · exact ih

theorem lockstep_executeLiquidation (trader : Address) (marketId : Nat) (position : Position) (size : Nat) :
    Lockstep W (executeLiquidation trader marketId position size) := by
  unfold executeLiquidation
  split
  · exact lockstep_state kin (·.deletePosition trader marketId) fun _ _ related => kin.deletePosition related _ _
  · split
    · exact .throw _
    · exact .bind (.orThrow _ _) fun scaled =>
        lockstep_state kin (·.setPosition trader marketId _) fun _ _ related => kin.setPosition related _ _ _

theorem lockstep_credit (address : Address) (assetId amount : Nat) :
    Lockstep W (credit address assetId amount) := by
  refine .bind (.reads fun e f alike => (kin.getBalance (kin.state alike) _ _).symm) fun balance => ?_
  exact .bind (.orThrow _ _) fun credited =>
    lockstep_state kin (·.setBalance address assetId credited) fun _ _ related => kin.setBalance related _ _ _

end Liquidations
end Services

section Liquidated
open LiquidationEngine
variable {R : StateManager → StateManager → Prop}

theorem lockstep_setFund (marketId : Nat) (fund : InsuranceFund) : Lockstep (Twin R) (setFund marketId fund) :=
  .writes fun _ _ twin => ⟨twin.state,twin.levels,by rw [twin.liquidation],twin.context,twin.borrowed⟩

theorem lockstep_contribute (marketId amount : Nat) : Lockstep (Twin R) (contribute marketId amount) := by
  refine .bind (.reads fun e f twin => by rw [twin.liquidation]) fun fund => ?_
  refine .bind (.orThrow _ _) fun balance => .bind (lockstep_setFund _ _) fun _ => ?_
  exact .bind (.orThrow _ _) fun total => lockstep_setFund _ _

variable (observes : Observes R)
include observes

theorem lockstep_settleLiquidation (trader : Address) (marketId price : Nat) (liquidator : Address) (market : Market) :
    Lockstep (Twin R) (settleLiquidation trader marketId price liquidator market) := by
  refine .bind (.reads fun e f twin => (observes.getPosition twin.state _ _).symm) fun found => ?_
  refine .bind (.orThrow _ _) fun position => ?_
  refine .bind (.tries fun e f twin => by rw [twin.liquidation]) fun size => ?_
  refine .bind (.tries fun e f twin => by rw [twin.liquidation]) fun amounts => ?_
  refine .bind (.reads fun e f twin => by rw [twin.liquidation]) fun fund => ?_
  refine .bind (.onlyIf (lockstep_setFund _ _)) fun _ => ?_
  refine .bind (lockstep_executeLiquidation (kin_twin observes) _ _ _ _) fun _ => ?_
  refine .bind (lockstep_credit (kin_twin observes) _ _ _) fun _ => .bind (lockstep_contribute _ _) fun _ => ?_
  exact .bind (.onlyIf (lockstep_credit (kin_twin observes) _ _ _)) fun _ => .pure _

theorem lockstep_liquidateWithIncentive (trader : Address) (marketId markPrice : Nat) (liquidator : Address) :
    Lockstep (Twin R) (liquidateWithIncentive trader marketId markPrice liquidator) := by
  unfold liquidateWithIncentive
  split
  · exact .throw _
  · refine .bind (.reads fun e f twin => (observes.getMarket twin.state _).symm) fun found => ?_
    refine .bind (.orThrow _ _) fun market => ?_
    refine .bind (.tries fun e f twin => ?_) fun due => ?_
    · unfold shouldLiquidate
      rw [observes.getPosition twin.state]
    · split
      · refine .bind (.bind (.reads fun e f twin => (observes.getActiveOrdersByMarket twin.state _).symm) fun orderIds =>
          lockstep_cancelListedOrders (kin_twin observes) _ _ _) fun _ => ?_
        exact .bind (lockstep_settleLiquidation observes _ _ _ _ _) fun _ => .pure _
      · exact .pure _

theorem lockstep_perform (call : Call) : Lockstep (Twin R) call.perform := by
  cases call with
  | placeOrder trader request => exact .bind (lockstep_placeOrder (kin_twin observes) _ _) fun _ => .pure _
  | cancelOrder trader cancel => exact .bind (lockstep_cancelOrder (kin_twin observes) _ _) fun _ => .pure _
  | closePosition trader close => exact .bind (lockstep_closePosition (kin_twin observes) _ _) fun _ => .pure _
  | liquidateWithIncentive trader marketId markPrice liquidator =>
    exact .bind (lockstep_liquidateWithIncentive observes _ _ _ _) fun _ => .pure _

theorem run_twin {e f : Engine} (twin : Twin R e f) (calls : List Call) :
    f.results calls = e.results calls ∧ Twin R (e.run calls) (f.run calls) := by
  induction calls generalizing e f with
  | nil => exact ⟨rfl,twin⟩
  | cons call calls ih =>
    obtain ⟨result,after⟩ := lockstep_perform observes call e f twin
    obtain ⟨results,final⟩ := ih after
    exact ⟨congrArg₂ List.cons result.symm results,final⟩

end Liquidated
end Pranklin
