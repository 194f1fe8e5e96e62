import Pranklin.Liquidation
import Pranklin.Matching
import Pranklin.Steps

namespace Pranklin
open Words Effect OrderService

-- The two engines differ in nothing that the chosen keys, the book and the borrow
-- flag can tell; nor, when `Quiet`, in their events.
structure Spares (keys : StateKey → Bool) (e after : Engine) : Prop where
  reads : StateManager.Agree keys e.state after.state
  orderbook : after.orderbook = e.orderbook
  borrowed : after.borrowed = e.borrowed

structure Quiet (keys : StateKey → Bool) (e after : Engine) : Prop extends Spares keys e after where
  context : after.context = e.context

section Relations
variable {keys : StateKey → Bool} {a b c e after : Engine}

theorem Spares.refl (keys : StateKey → Bool) (e : Engine) : Spares keys e e := ⟨.refl _ _,rfl,rfl⟩

theorem Spares.trans (left : Spares keys a b) (right : Spares keys b c) : Spares keys a c :=
  ⟨left.reads.trans right.reads,right.orderbook.trans left.orderbook,right.borrowed.trans left.borrowed⟩

theorem Quiet.refl (keys : StateKey → Bool) (e : Engine) : Quiet keys e e := ⟨.refl _ _,rfl⟩

theorem Quiet.trans (left : Quiet keys a b) (right : Quiet keys b c) : Quiet keys a c :=
  ⟨left.toSpares.trans right.toSpares,right.context.trans left.context⟩

theorem Spares.step (spared : Spares StateKey.ofOrders e after) : Step e.desk ledger [] after.desk ledger := by
  have desk : after.desk = {e.desk with state:=after.state} := by
    simp [Engine.desk,spared.orderbook,spared.borrowed]
  rw [desk]
  exact .elsewhere spared.reads

end Relations

abbrev Quiets (keys : StateKey → Bool) (m : EngineM α) : Prop := Guarantees (Quiet keys) m

section Quiets
variable {keys : StateKey → Bool}

theorem quiets_bind {m : EngineM α} {next : α → EngineM β} (first : Quiets keys m)
    (rest : ∀ value, Quiets keys (next value)) : Quiets keys (m >>= next) :=
  .bind (fun _ _ _ => Quiet.trans) first rest

theorem quiets_state {write : StateManager → StateManager} (spared : ∀ s, StateManager.Agree keys s (write s)) :
    Quiets keys (writes fun e => {e with state:=write e.state}) := fun e => ⟨⟨spared e.state,rfl,rfl⟩,rfl⟩

theorem quiets_updatePosition (keys : StateKey → Bool) (positions : ∀ key, keys key → !key.ofPositions) (trader : Address)
    (marketId size price : Nat) (isBuy : Bool) (initialMarginBps : Nat) :
    Quiets keys (PositionManager.updatePosition trader marketId size price isBuy initialMarginBps) := by
  refine quiets_bind (.tries (Quiet.refl keys) _) fun updated => ?_
  cases updated with
  | some position =>
    exact quiets_state fun s key chosen => StateManager.setPosition_agree s _ _ _ key (positions key chosen)
  | none =>
    exact quiets_state fun s key chosen => StateManager.deletePosition_agree s _ _ key (positions key chosen)

theorem spares_processFills (positions : ∀ key, keys key → !key.ofPositions) (market : Market)
    (fills : List Fill) : Guarantees (Spares keys) (processFills market fills) := by
  induction fills with
  | nil => exact .pure (Spares.refl keys) ()
  | cons fill fills ih =>
    have side := fun trader isBuy => (quiets_updatePosition keys positions trader fill.marketId fill.size fill.price
      isBuy market.initialMarginBps).mono fun _ _ => Quiet.toSpares
    refine .bind (fun _ _ _ => Spares.trans) ?_ fun _ => ih
    refine .bind (fun _ _ _ => Spares.trans) (side _ _) fun _ => ?_
    refine .bind (fun _ _ _ => Spares.trans) (side _ _) fun _ => ?_
    exact fun _ => ⟨.refl _ _,rfl,rfl⟩

end Quiets

namespace PositionManager

-- A success writes the position that the trade makes of the stored one; a failure writes
-- nothing and is an overflow.
theorem updatePosition_exec (trader : Address) (marketId size price : Nat) (isBuy : Bool) (initialMarginBps : Nat)
    (e : Engine) :
    exec (updatePosition trader marketId size price isBuy initialMarginBps) e = (.error .overflow,e) ∨
    ∃ updated, traded (e.state.getPosition trader marketId) size price isBuy initialMarginBps = .ok updated ∧
      exec (updatePosition trader marketId size price isBuy initialMarginBps) e = (.ok (),{e with
        state:=match updated with
          | some position => e.state.setPosition trader marketId position
          | none => e.state.deletePosition trader marketId}) := by
  rw [updatePosition,exec_bind,exec_tries]
  cases made : traded (e.state.getPosition trader marketId) size price isBuy initialMarginBps with
  | error error => obtain rfl := OnlyOverflow.traded _ _ _ _ _ error made; exact .inl rfl
  | ok updated => cases updated <;> exact .inr ⟨_,rfl,rfl⟩

end PositionManager

namespace OrderService
variable {e : Engine} {market : Market} {fill : Fill} {fills : List Fill}

theorem processFill_cases (ran : exec (processFill market fill) e = (result,after)) :
    result = .error .overflow ∨
    ∃ first second,
      exec (PositionManager.updatePosition fill.taker fill.marketId fill.size fill.price fill.takerIsBuy
        market.initialMarginBps) e = (.ok (),first) ∧
      exec (PositionManager.updatePosition fill.maker fill.marketId fill.size fill.price (!fill.takerIsBuy)
        market.initialMarginBps) first = (.ok (),second) ∧
      result = .ok () ∧ after = {second with context:=second.context ++ [fillEvent fill]} := by
  rw [processFill,exec_bind] at ran
  rcases PositionManager.updatePosition_exec fill.taker fill.marketId fill.size fill.price fill.takerIsBuy
    market.initialMarginBps e with failed | ⟨taker,_,done⟩
  · rw [failed] at ran; cases ran; exact .inl rfl
  rw [done] at ran ⊢
  dsimp only at ran
  rw [exec_bind] at ran
  rcases PositionManager.updatePosition_exec fill.maker fill.marketId fill.size fill.price (!fill.takerIsBuy)
    market.initialMarginBps _ with failed | ⟨maker,_,done⟩
  · rw [failed] at ran; cases ran; exact .inl rfl
  rw [done] at ran
  cases ran
  exact .inr ⟨_,_,rfl,done,rfl,rfl⟩

theorem processFills_overflow (ran : exec (processFills market fills) e = (.error error,after)) :
    error = .overflow := by
  induction fills generalizing e with
  | nil => cases ran
  | cons fill fills ih =>
    rw [processFills,exec_bind] at ran
    cases first : exec (processFill market fill) e with
    | mk result middle =>
      rw [first] at ran
      rcases processFill_cases first with rfl | ⟨_,_,_,_,rfl,_⟩
      · cases ran; rfl
      · exact ih ran

theorem processFill_context (ran : exec (processFill market fill) e = (.ok (),after)) :
    after.context = e.context ++ [fillEvent fill] := by
  rcases processFill_cases ran with failed | ⟨first,second,left,right,_,rfl⟩
  · cases failed
  have before := (quiets_updatePosition (fun _ => false) (by simp) fill.taker fill.marketId fill.size
    fill.price fill.takerIsBuy market.initialMarginBps e).context
  have then_ := (quiets_updatePosition (fun _ => false) (by simp) fill.maker fill.marketId fill.size
    fill.price (!fill.takerIsBuy) market.initialMarginBps first).context
  rw [left] at before
  rw [right] at then_
  exact congrArg (· ++ [fillEvent fill]) (then_.trans before)

theorem processFills_context (ran : exec (processFills market fills) e = (.ok (),after)) :
    after.context = e.context ++ fills.map fillEvent := by
  induction fills generalizing e with
  | nil => cases ran; simp
  | cons fill fills ih =>
    obtain ⟨_,middle,first,rest⟩ := exec_bind_ok ran
    rw [ih rest,processFill_context first,List.map_cons,List.append_assoc]
    rfl

end OrderService

theorem StateKey.ofOrders_spared (key : StateKey) (chosen : key.ofOrders) : !key.ofPositions := by
  cases key <;> first | rfl | cases chosen

theorem StateKey.ofOrders_unbalanced (key : StateKey) (chosen : key.ofOrders) : !key.ofBalances := by
  cases key <;> first | rfl | cases chosen

namespace LiquidationEngine
variable {keys : StateKey → Bool}

theorem quiets_setFund (keys : StateKey → Bool) (marketId : Nat) (fund : InsuranceFund) :
    Quiets keys (setFund marketId fund) := fun _ => ⟨⟨.refl _ _,rfl,rfl⟩,rfl⟩

theorem quiets_contribute (keys : StateKey → Bool) (marketId amount : Nat) :
    Quiets keys (contribute marketId amount) := by
  refine quiets_bind (.reads (Quiet.refl _) _) fun fund => ?_
  refine quiets_bind (.orThrow (Quiet.refl _) _ _) fun balance => ?_
  refine quiets_bind (quiets_setFund _ _ _) fun _ => ?_
  refine quiets_bind (.orThrow (Quiet.refl _) _ _) fun total => ?_
  exact quiets_setFund _ _ _

theorem quiets_executeLiquidation (positions : ∀ key, keys key → !key.ofPositions) (trader : Address) (marketId : Nat)
    (position : Position) (size : Nat) : Quiets keys (executeLiquidation trader marketId position size) := by
  unfold executeLiquidation
  split
  · exact quiets_state fun s key chosen => StateManager.deletePosition_agree s _ _ key (positions key chosen)
  · split
    · exact .throw (Quiet.refl _) _
    · refine quiets_bind (.orThrow (Quiet.refl _) _ _) fun scaled => ?_
      exact quiets_state fun s key chosen => StateManager.setPosition_agree s _ _ _ key (positions key chosen)

section Balances
variable (balances : ∀ key, keys key → !key.ofBalances)
include balances

theorem quiets_credit (address : Address) (assetId amount : Nat) : Quiets keys (credit address assetId amount) := by
  refine quiets_bind (.reads (Quiet.refl _) _) fun balance => ?_
  refine quiets_bind (.orThrow (Quiet.refl _) _ _) fun credited => ?_
  refine quiets_state fun s => (StateManager.Agree.refl _ s).set (Bool.eq_false_iff.mpr fun chosen => ?_)
  cases balances _ chosen

theorem quiets_settleLiquidation (positions : ∀ key, keys key → !key.ofPositions) (trader : Address)
    (marketId price : Nat) (liquidator : Address) (market : Market) :
    Quiets keys (settleLiquidation trader marketId price liquidator market) := by
  refine quiets_bind (.reads (Quiet.refl _) _) fun found => ?_
  refine quiets_bind (.orThrow (Quiet.refl _) _ _) fun position => ?_
  refine quiets_bind (.tries (Quiet.refl _) _) fun size => ?_
  refine quiets_bind (.tries (Quiet.refl _) _) fun amounts => ?_
  refine quiets_bind (.reads (Quiet.refl _) _) fun fund => ?_
  refine quiets_bind (.onlyIf (Quiet.refl _) (quiets_setFund _ _ _)) fun _ => ?_
  refine quiets_bind (quiets_executeLiquidation positions _ _ _ _) fun _ => ?_
  refine quiets_bind (quiets_credit balances _ _ _) fun _ => ?_
  refine quiets_bind (quiets_contribute _ _ _) fun _ => ?_
  refine quiets_bind (.onlyIf (Quiet.refl _) (quiets_credit balances _ _ _)) fun _ => ?_
  exact .pure (Quiet.refl _) _

end Balances

def withdrawn (e : Engine) (trader : Address) (marketId : Nat) : Engine := (exec (cancelTraderOrders trader marketId) e).2

theorem cancelListedOrders_answers (trader : Address) (marketId : Nat) (listed : List Nat) (e : Engine) :
    ∃ gone after, exec (cancelListedOrders trader marketId listed) e = (.ok gone,after) := by
  induction listed generalizing e with
  | nil => exact ⟨_,_,rfl⟩
  | cons orderId rest ih =>
    rw [cancelListedOrders,exec_reads_bind]
    cases e.state.getOrder orderId with
    | none => exact ih e
    | some order =>
      dsimp only
      split
      · rw [exec_writes_bind,exec_writes_bind,exec_bind_pure]
        obtain ⟨gone,after,ran⟩ := ih _
        rw [ran]
        exact ⟨_,_,rfl⟩
      · exact ih e

inductive Liquidation (e : Engine) (trader : Address) (marketId markPrice : Nat) (liquidator : Address) :
    Except EngineError (Option LiquidationResult) → Engine → Prop where
  | refused (error : EngineError)
      (undue : markPrice ≠ 0 → ∀ market, e.state.getMarket marketId = some market →
        shouldLiquidate e.state trader marketId (market.normalizePrice markPrice) market ≠ .ok true) :
      Liquidation e trader marketId markPrice liquidator (.error error) e
  | spared (registered : e.state.getMarket marketId = some market)
      (safe : shouldLiquidate e.state trader marketId (market.normalizePrice markPrice) market = .ok false) :
      Liquidation e trader marketId markPrice liquidator (.ok none) e
  | due (priced : markPrice ≠ 0) (registered : e.state.getMarket marketId = some market)
      (risky : shouldLiquidate e.state trader marketId (market.normalizePrice markPrice) market = .ok true)
      (ran : exec (settleLiquidation trader marketId (market.normalizePrice markPrice) liquidator market)
        (withdrawn e trader marketId) = (result,after)) :
      Liquidation e trader marketId markPrice liquidator (result.map some) after

theorem liquidateWithIncentive_liquidation {trader : Address} {marketId markPrice : Nat} {liquidator : Address}
    (ran : exec (liquidateWithIncentive trader marketId markPrice liquidator) e = (result,after)) :
    Liquidation e trader marketId markPrice liquidator result after := by
  unfold liquidateWithIncentive at ran
  split at ran
  · rename_i unpriced
    cases ran
    exact .refused _ fun priced => absurd unpriced priced
  rename_i priced
  rw [exec_reads_bind] at ran
  cases registered : e.state.getMarket marketId with
  | none =>
    rw [registered] at ran
    cases ran
    apply Liquidation.refused
    intro _ market found
    rw [registered] at found
    cases found
  | some market =>
  rw [registered,exec_orThrow_some_bind,exec_bind,exec_tries] at ran
  cases asked : shouldLiquidate e.state trader marketId (market.normalizePrice markPrice) market with
  | error error =>
    rw [asked] at ran
    cases ran
    apply Liquidation.refused
    intro _ other found
    rw [registered] at found
    cases found
    rw [asked]
    exact nofun
  | ok due =>
  rw [asked] at ran
  cases due with
  | false =>
    cases ran
    exact .spared registered asked
  | true =>
  obtain ⟨gone,middle,cancelled⟩ := cancelListedOrders_answers trader marketId
    (e.state.getActiveOrdersByMarket marketId) e
  have listed : exec (cancelTraderOrders trader marketId) e = (.ok gone,middle) := cancelled
  have reached : middle = withdrawn e trader marketId := by rw [withdrawn,listed]
  simp only [if_true] at ran
  rw [exec_ok_bind listed,exec_bind_pure,reached] at ran
  cases ran
  exact .due priced registered asked rfl

end LiquidationEngine

namespace OrderService
variable {e : Engine} {trader : Address} {request : PlaceOrderTx}

def issued (e : Engine) : Engine := {e with state:=e.state.set .nextOrderId (e.state.orderCounter + 1)}

def incoming (e : Engine) (trader : Address) (request : PlaceOrderTx) : Order :=
  newOrder trader request e.state.orderCounter e.state.version

def takesOf (e : Engine) (trader : Address) (request : PlaceOrderTx) : List Take :=
  e.orderbook.takesOf (issued e).state (incoming e trader request)

def fillsOf (e : Engine) (trader : Address) (request : PlaceOrderTx) : List Fill :=
  (takesOf e trader request).map (Take.fill (incoming e trader request))

def remainder (e : Engine) (trader : Address) (request : PlaceOrderTx) : Order :=
  {incoming e trader request with remainingSize:=request.size - takenSize (takesOf e trader request)}

def placedEvent (e : Engine) (trader : Address) (request : PlaceOrderTx) : Event :=
  .orderPlaced e.state.orderCounter trader request.marketId request.isBuy request.price request.size
    request.orderType

structure Matched (e : Engine) (trader : Address) (request : PlaceOrderTx) (market : Market) (matched : Engine) :
    Prop where
  validated : validateOrder e.state trader request = .ok market
  counter : e.state.orderCounter + 1 < 2 ^ 64
  passes : e.orderbook.passesPostOnly (incoming e trader request)
  desk : matched.desk = (issued e).desk.takeAll (takesOf e trader request)
  context : matched.context = e.context
  liquidation : matched.liquidation = e.liquidation

inductive Placement (e : Engine) (trader : Address) (request : PlaceOrderTx) :
    Except EngineError Nat → Engine → Prop where
  | refused (error : EngineError)
      (reason : validateOrder e.state trader request = .error error ∨ 2 ^ 64 ≤ e.state.orderCounter + 1) :
      Placement e trader request (.error error) e
  | turnedAway (fails : e.orderbook.passesPostOnly (incoming e trader request) = false) :
      Placement e trader request (.error .postOnlyWouldTake) (issued e)
  | broken (matched : Matched e trader request market middle)
      (ran : exec (processFills market (fillsOf e trader request)) middle = (.error error,after)) :
      Placement e trader request (.error error) after
  | killed (matched : Matched e trader request market middle)
      (ran : exec (processFills market (fillsOf e trader request)) middle = (.ok (),filled))
      (short : (remainder e trader request).remainingSize ≠ 0) (kill : request.timeInForce = .fok) :
      Placement e trader request (.error .orderNotFilled)
        {filled with context:=filled.context ++ [placedEvent e trader request]}
  | settled (matched : Matched e trader request market middle)
      (ran : exec (processFills market (fillsOf e trader request)) middle = (.ok (),filled))
      (ended : exec (settleOrder (remainder e trader request) request.timeInForce)
        {filled with context:=filled.context ++ [placedEvent e trader request]} = (.ok (),after)) :
      Placement e trader request (.ok e.state.orderCounter) after

theorem takenSize_takesOf_le (e : Engine) (trader : Address) (request : PlaceOrderTx) :
    takenSize (takesOf e trader request) ≤ request.size := takenSize_walk_le _ _

theorem queued_issued (queued : Queued e.desk) : Queued (e.orderbook.desk (issued e).state) :=
  queued.of_reads rfl fun _ => StateManager.get_set_ne _ _ (by simp)

-- The sum of the fills stays inside its word, since the order's size does.
theorem sumWrap_fillsOf (e : Engine) (trader : Address) (request : PlaceOrderTx) :
    sumWrap 64 ((fillsOf e trader request).map Fill.size) = takenSize (takesOf e trader request) := by
  have sizes : (fillsOf e trader request).map Fill.size = (takesOf e trader request).map Take.size := by
    rw [fillsOf,List.map_map]; rfl
  have fits := Nat.lt_of_le_of_lt (takenSize_takesOf_le e trader request) request.words64.2
  rw [sizes]
  exact sumWrap_of_lt fits

theorem takeOrderId_exec (counter : e.state.orderCounter + 1 < 2 ^ 64) :
    exec takeOrderId e = (.ok e.state.orderCounter,issued e) := by
  rw [takeOrderId,exec_attempts,StateManager.nextOrderId_of_lt counter]
  rfl

theorem takeOrderId_full (full : ¬e.state.orderCounter + 1 < 2 ^ 64) :
    exec takeOrderId e = (.error (.stateError (.other "Order ID counter overflow")),e) := by
  rw [takeOrderId,exec_attempts,StateManager.nextOrderId_full full]

theorem matchIncoming_turnedAway (fails : e.orderbook.passesPostOnly order = false) :
    exec (matchIncoming order) e = (.error .postOnlyWouldTake,e) := by
  rw [OrderbookManager.passesPostOnly,Bool.not_eq_false'] at fails
  rw [matchIncoming,exec_attempts]
  simp [OrderbookManager.matchOrder,fails]

theorem matchIncoming_matched (queued : Queued e.desk) (validated : validateOrder e.state trader request = .ok market)
    (counter : e.state.orderCounter + 1 < 2 ^ 64) (passes : e.orderbook.passesPostOnly (incoming e trader request)) :
    ∃ middle, Matched e trader request market middle ∧
      exec (matchIncoming (incoming e trader request)) (issued e) = (.ok (fillsOf e trader request),middle) := by
  obtain ⟨m,ran,fills,desk⟩ := OrderbookManager.matchOrder_desk (queued_issued queued) passes
  refine ⟨{issued e with state:=m.state,orderbook:=m.book,borrowed:=(issued e).borrowed || m.borrowed},
    ⟨validated,counter,passes,?_,rfl,rfl⟩,?_⟩
  · have flagged := Desk.takeAll_borrowed (e.orderbook.desk (issued e).state) e.borrowed (takesOf e trader request)
    have whole : ((e.orderbook.desk (issued e).state).takeAll (takesOf e trader request)) =
        ⟨m.state,m.book.level,m.borrowed⟩ := desk.symm
    rw [whole] at flagged
    simpa [Engine.desk,issued,OrderbookManager.desk] using flagged.symm
  · rw [matchIncoming,exec_attempts]
    have found : (issued e).orderbook.matchOrder (issued e).state (incoming e trader request) = .ok m := ran
    simp only [found,fills]
    rfl

theorem settleOrder_cases (order : Order) (timeInForce : TimeInForce) (e : Engine) :
    (exec (settleOrder order timeInForce) e).1 = .ok () ∨
      order.remainingSize ≠ 0 ∧ timeInForce = .fok ∧
        exec (settleOrder order timeInForce) e = (.error .orderNotFilled,e) := by
  unfold settleOrder
  split
  · exact .inl rfl
  · rename_i left
    cases timeInForce with
    | gtc => exact .inl rfl
    | ioc => exact .inl rfl
    | postOnly => exact .inl rfl
    | fok => exact .inr ⟨left,rfl,rfl⟩

theorem placeOrder_placement (queued : Queued e.desk) (ran : exec (placeOrder trader request) e = (result,after)) :
    Placement e trader request result after := by
  rw [placeOrder,exec_bind,exec_tries] at ran
  cases validated : validateOrder e.state trader request with
  | error error =>
    rw [validated] at ran
    cases ran
    exact .refused error (.inl validated)
  | ok market =>
  rw [validated] at ran
  dsimp only at ran
  by_cases counter : e.state.orderCounter + 1 < 2 ^ 64
  case neg =>
    rw [exec_error_bind (takeOrderId_full counter)] at ran
    cases ran
    exact .refused _ (.inr (Nat.le_of_not_lt counter))
  rw [exec_ok_bind (takeOrderId_exec counter),exec_reads_bind] at ran
  change exec (matchIncoming (incoming e trader request) >>= _) (issued e) = _ at ran
  cases passes : e.orderbook.passesPostOnly (incoming e trader request) with
  | false =>
    rw [exec_bind,matchIncoming_turnedAway (e:=issued e) passes] at ran
    cases ran
    exact .turnedAway passes
  | true =>
  obtain ⟨middle,matched,met⟩ := matchIncoming_matched queued validated counter passes
  rw [exec_ok_bind met,exec_bind] at ran
  cases processed : exec (processFills market (fillsOf e trader request)) middle with
  | mk outcome filled =>
  cases outcome with
  | error error =>
    rw [processed] at ran
    cases ran
    exact .broken matched processed
  | ok _ =>
  rw [processed] at ran
  dsimp only at ran
  rw [sumWrap_fillsOf,exec_bind,emit,exec_writes] at ran
  dsimp only at ran
  change exec (settleOrder (remainder e trader request) request.timeInForce >>= fun _ => pure e.state.orderCounter)
    {filled with context:=filled.context ++ [placedEvent e trader request]} = _ at ran
  rw [exec_bind] at ran
  rcases settleOrder_cases (remainder e trader request) request.timeInForce
    {filled with context:=filled.context ++ [placedEvent e trader request]} with done | ⟨short,kill,failed⟩
  · cases ended : exec (settleOrder (remainder e trader request) request.timeInForce)
      {filled with context:=filled.context ++ [placedEvent e trader request]} with
    | mk outcome last =>
      rw [ended] at ran done
      cases done
      cases ran
      exact .settled matched processed ended
  · rw [failed] at ran
    cases ran
    exact .killed matched processed short kill

inductive Cancellation (e : Engine) (trader : Address) (cancel : CancelOrderTx) :
    Except EngineError Unit → Engine → Prop where
  | refused (error : EngineError) (reason : error = .orderNotFound ∨ error = .unauthorized) :
      Cancellation e trader cancel (.error error) e
  | cancelled (order : Order) (found : e.state.getOrder cancel.orderId = some order)
      (active : order.status = .active) :
      Cancellation e trader cancel (.ok ()) {e with
        state:=(e.state.setOrder cancel.orderId {order with status:=.cancelled}).removeActiveOrder order.marketId
          cancel.orderId,
        orderbook:=e.orderbook.removeOrder cancel.orderId order,
        context:=e.context ++ [.orderCancelled cancel.orderId trader order.marketId order.remainingSize]}

theorem cancelOrder_cancellation (ran : exec (cancelOrder trader cancel) e = (result,after)) :
    Cancellation e trader cancel result after := by
  rw [cancelOrder,exec_reads_bind] at ran
  cases found : e.state.getOrder cancel.orderId with
  | none => rw [found] at ran; cases ran; exact .refused _ (.inl rfl)
  | some order =>
    rw [found,exec_orThrow_some_bind] at ran
    split at ran
    · cases ran; exact .refused _ (.inr rfl)
    · split at ran
      · cases ran; exact .refused _ (.inl rfl)
      · rename_i active
        cases ran
        exact .cancelled order found (Decidable.not_not.mp active)

end OrderService
end Pranklin
