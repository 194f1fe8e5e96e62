import Pranklin.Insurance
import Pranklin.Isolation
import Pranklin.Margins
import Pranklin.Supply

namespace Pranklin
open Words Effect

namespace LiquidationEngine

def requiredEquity (position : Position) (price : Nat) (market : Market) : Nat :=
  position.size * price * addWrap 32 market.maintenanceMarginBps marginBufferBps / basisPoints

def partialSize (position : Position) (price : Nat) (market : Market) : Nat :=
  if price = 0 then position.size
  else if requiredEquity position price market ≤ equity position price then 0
  else
    boundLiquidationSize position market (wrap 64
      ((requiredEquity position price market - equity position price) * basisPoints /
        (price * (basisPoints + market.liquidationFeeBps))))

def seizedSize (engine : LiquidationEngine) (position : Position) (price : Nat) (market : Market) : Nat :=
  if engine.enablePartialLiquidations then partialSize position price market else position.size

def amountsOf (engine : LiquidationEngine) (position : Position) (price : Nat) (market : Market) : LiquidationAmounts :=
  let fee := seizedSize engine position price market * price * market.liquidationFeeBps / basisPoints
  ⟨fee,fee * engine.feeSplit.1 / basisPoints,fee * engine.feeSplit.2 / basisPoints,equity position price⟩

def leftover (position : Position) (size : Nat) : Position :=
  {position with size:=position.size - size,margin:=position.margin - position.margin * size / position.size}

variable {e after : Engine} {trader liquidator : Address} {marketId markPrice price size : Nat} {position : Position}
  {market : Market} {result : LiquidationResult}

theorem partialSize_of_ok (ran : calculatePartialLiquidationSize position price market = .ok size) :
    size = partialSize position price market := by
  unfold calculatePartialLiquidationSize at ran
  unfold partialSize
  split at ran
  · rename_i worthless
    cases ran
    rw [if_pos worthless]
  rename_i priced
  rw [if_neg priced]
  split at ran
  · rename_i empty
    cases ran
    rw [if_pos (by simp [requiredEquity,empty])]
  obtain ⟨_,valued,ran⟩ := bind_eq_ok ran
  cases value_of_ok valued
  split at ran
  · rename_i worthless
    cases ran
    rw [if_pos (by simp [requiredEquity,worthless])]
  obtain ⟨_,reckoned,ran⟩ := bind_eq_ok ran
  cases equity_of_ok reckoned
  obtain ⟨_,ran⟩ := checkedMul_bind_ok ran
  dsimp only at ran
  split at ran
  · rename_i met
    cases ran
    exact (if_pos met).symm
  · rename_i unmet
    obtain ⟨_,ran⟩ := checkedMul_bind_ok ran
    cases ran
    exact (if_neg unmet).symm

theorem boundLiquidationSize_le (raw : Nat) : boundLiquidationSize position market raw ≤ position.size := by
  unfold boundLiquidationSize
  dsimp only
  split
  · exact Nat.min_le_right _ _
  · split
    · exact Nat.le_refl _
    · exact Nat.min_le_right _ _

theorem boundLiquidationSize_eq_zero (held : 0 < position.size) (raw : Nat) :
    boundLiquidationSize position market raw = 0 ↔ raw = 0 ∧ position.size < 10 ∧ market.minOrderSize = 0 := by
  unfold boundLiquidationSize minLiquidationPct
  dsimp only
  split
  · omega
  · split <;> omega

-- A size that a partial liquidation may take: of the position, no less than a tenth of it and than the
-- minimum order, and leaving nothing or an order that could be placed.
structure WellSized (position : Position) (market : Market) (size : Nat) : Prop where
  atMost : size ≤ position.size
  atLeast : min position.size (max (position.size / 10) market.minOrderSize) ≤ size
  remainder : position.size - size = 0 ∨ market.minOrderSize ≤ position.size - size

-- The raw size may be any word, so that what the cast has cut off it makes no difference.
theorem boundLiquidationSize_wellSized (raw : Nat) : WellSized position market (boundLiquidationSize position market raw) := by
  unfold boundLiquidationSize minLiquidationPct
  dsimp only
  have atMost : min (max raw (max (position.size / 10) market.minOrderSize)) position.size ≤ position.size := Nat.min_le_right _ _
  have atLeast : min position.size (max (position.size / 10) market.minOrderSize) ≤
      min (max raw (max (position.size / 10) market.minOrderSize)) position.size :=
    Nat.le_min.mpr ⟨(Nat.min_le_right _ _).trans (Nat.le_max_right _ _),Nat.min_le_left _ _⟩
  split
  · rename_i short
    -- The minimum order is among the bounds below, so this never happens.
    omega
  split
  · exact ⟨Nat.le_refl _,Nat.min_le_left _ _,.inl (Nat.sub_self _)⟩
  · rename_i leaves
    exact ⟨atMost,atLeast,by omega⟩

theorem partial_size_well_sized (ran : calculatePartialLiquidationSize position markPrice market = .ok size) (taken : 0 < size) :
    WellSized position market size := by
  cases partialSize_of_ok ran
  unfold partialSize at taken ⊢
  split
  · exact ⟨Nat.le_refl _,Nat.min_le_left _ _,.inl (Nat.sub_self _)⟩
  rename_i priced
  rw [if_neg priced] at taken
  split
  · rename_i met
    rw [if_pos met] at taken
    exact absurd taken (Nat.lt_irrefl 0)
  · exact boundLiquidationSize_wellSized _

-- A market that asks for four hundred thousand times the value of a position: the raw size takes 83
-- bits, and the cast keeps the low 64 of them.
def steepMarket : Market := {Bench.market with
  maintenanceMarginBps:=4 * 10 ^ 9
  words32:=by decide}

theorem partial_size_well_sized_cut :
    WellSized ⟨2 ^ 64 - 1,1,true,0,0⟩ steepMarket 11506384917263977740 := by
  have ran : calculatePartialLiquidationSize ⟨2 ^ 64 - 1,1,true,0,0⟩ 1 steepMarket = .ok 11506384917263977740 := by
    decide +kernel
  exact partial_size_well_sized ran (by decide)

theorem partialSize_le : partialSize position price market ≤ position.size := by
  unfold partialSize
  split
  · exact Nat.le_refl _
  · split
    · exact Nat.zero_le _
    · exact boundLiquidationSize_le _

theorem seizedSize_le (engine : LiquidationEngine) : seizedSize engine position price market ≤ position.size := by
  unfold seizedSize
  split
  · exact partialSize_le
  · exact Nat.le_refl _

theorem amounts_of_ok {feeSplit : Nat × Nat} {amounts : LiquidationAmounts}
    (ran : liquidationAmounts feeSplit position market price size = .ok amounts) :
    let fee := size * price * market.liquidationFeeBps / basisPoints
    amounts = ⟨fee,fee * feeSplit.1 / basisPoints,fee * feeSplit.2 / basisPoints,equity position price⟩ := by
  obtain ⟨_,ran⟩ := checkedMul_bind_ok ran
  obtain ⟨_,ran⟩ := checkedMul_bind_ok ran
  obtain ⟨_,ran⟩ := checkedMul_bind_ok ran
  obtain ⟨_,ran⟩ := checkedMul_bind_ok ran
  obtain ⟨_,reckoned,ran⟩ := bind_eq_ok ran
  cases equity_of_ok reckoned
  cases ran
  rfl

theorem executeLiquidation_ok {done : Unit} (ran : exec (executeLiquidation trader marketId position size) e = (.ok done,after)) :
    after = {e with
      state:=if position.size ≤ size then e.state.deletePosition trader marketId
        else e.state.setPosition trader marketId (leftover position size)} := by
  unfold executeLiquidation at ran
  split at ran
  · rename_i whole
    cases ran
    rw [if_pos whole]
  rename_i part
  rw [if_neg part]
  split at ran
  · cases ran
  obtain ⟨_,scaled,ran⟩ := exec_orThrow_ok ran
  obtain ⟨_,rfl⟩ := checkedMul_eq_some.mp scaled
  cases ran
  rfl

theorem credit_ok {address : Address} {assetId amount : Nat} {done : Unit}
    (ran : exec (credit address assetId amount) e = (.ok done,after)) :
    after = {e with state:=e.state.setBalance address assetId (e.state.getBalance address assetId + amount)} := by
  rw [credit,exec_reads_bind] at ran
  obtain ⟨_,summed,ran⟩ := exec_orThrow_ok ran
  obtain ⟨_,rfl⟩ := checkedAdd_eq_some.mp summed
  cases ran
  rfl

theorem contribute_state {amount : Nat} {done : Unit} (ran : exec (contribute marketId amount) e = (.ok done,after)) :
    after.state = e.state := by
  rw [contribute,exec_reads_bind] at ran
  obtain ⟨_,_,ran⟩ := exec_orThrow_ok ran
  rw [setFund,exec_writes_bind] at ran
  obtain ⟨_,_,ran⟩ := exec_orThrow_ok ran
  cases ran
  rfl

structure Unplaced (e after : Engine) : Prop where
  reads : StateManager.Agree (!StateKey.ofOrders ·) e.state after.state
  committed : ∀ key, after.state.committed key = e.state.committed key
  liquidation : after.liquidation = e.liquidation

theorem Unplaced.refl (e : Engine) : Unplaced e e := ⟨.refl _ _,fun _ => rfl,rfl⟩

theorem Unplaced.trans (one : Unplaced e middle) (two : Unplaced middle after) : Unplaced e after :=
  ⟨one.reads.trans two.reads,fun key => (two.committed key).trans (one.committed key),two.liquidation.trans one.liquidation⟩

theorem unplaced_cancelTraderOrders (trader : Address) (marketId : Nat) :
    Guarantees Unplaced (cancelTraderOrders trader marketId) := by
  apply cancelTraderOrders_guarantees Unplaced.refl fun _ _ _ => Unplaced.trans
  intro e orderId order
  exact ⟨(((StateManager.Agree.refl _ e.state).set rfl).delete rfl).set rfl,fun _ => rfl,rfl⟩

structure Liquidated (e : Engine) (trader : Address) (marketId markPrice : Nat) (liquidator : Address)
    (result : LiquidationResult) (after : Engine) (market : Market) (position : Position) : Prop where
  registered : e.state.getMarket marketId = some market
  found : e.state.getPosition trader marketId = some position
  due : UnderMargined position (market.normalizePrice markPrice) market.maintenanceMarginBps
  reported : let price := market.normalizePrice markPrice
    let amounts := amountsOf e.liquidation position price market
    result = ⟨trader,marketId,seizedSize e.liquidation position price market,price,amounts.fee,
      amounts.equity - amounts.fee,some liquidator,amounts.reward,amounts.contribution,
      fundUsage (e.liquidation.insuranceFunds marketId) amounts⟩
  stored : after.state.getPosition trader marketId =
    if position.size ≤ result.liquidatedSize then e.state.committed (.position trader marketId)
    else some (leftover position result.liquidatedSize)
  balances : ∀ account, after.state.getBalance account market.quoteAssetId =
    e.state.getBalance account market.quoteAssetId + (if account = liquidator then result.liquidatorReward else 0) +
      (if account = trader then result.remainingEquity else 0)

theorem getBalance_executed (s : StateManager) (address : Address) (assetId : Nat) :
    (if position.size ≤ size then s.deletePosition trader marketId
      else s.setPosition trader marketId (leftover position size)).getBalance address assetId =
        s.getBalance address assetId := by
  have kept : ∀ t : StateManager, StateManager.Agree (!StateKey.ofPositions ·) s t →
      t.getBalance address assetId = s.getBalance address assetId := by
    intro t agree
    rw [StateManager.getBalance,agree _ rfl,StateManager.getBalance]
  split
  · exact kept _ (StateManager.deletePosition_agree s trader marketId)
  · exact kept _ (StateManager.setPosition_agree s trader marketId _)

theorem getPosition_executed (s : StateManager) :
    (if position.size ≤ size then s.deletePosition trader marketId
      else s.setPosition trader marketId (leftover position size)).getPosition trader marketId =
        if position.size ≤ size then s.committed (.position trader marketId) else some (leftover position size) := by
  split
  · rw [StateManager.getPosition_deletePosition,if_pos ⟨rfl,rfl⟩]
  · rw [StateManager.getPosition_setPosition,if_pos ⟨rfl,rfl⟩]

theorem getPosition_setBalance (s : StateManager) (address : Address) (assetId amount : Nat) :
    (s.setBalance address assetId amount).getPosition trader marketId = s.getPosition trader marketId :=
  StateManager.get_set_ne _ _ (by simp)

theorem getBalance_credited (s : StateManager) (address : Address) (assetId amount : Nat) (account : Address) :
    (s.setBalance address assetId (s.getBalance address assetId + amount)).getBalance account assetId =
      s.getBalance account assetId + (if account = address then amount else 0) := by
  rw [Supply.getBalance_setBalance]
  by_cases own : account = address
  · rw [if_pos ⟨own,rfl⟩,if_pos own,own]
  · rw [if_neg fun same => own same.1,if_neg own,Nat.add_zero]

theorem creditIfAny_ok {address : Address} {assetId amount : Nat} {done : Unit}
    (ran : exec (onlyIf (0 < amount) (credit address assetId amount)) e = (.ok done,after)) :
    (∀ account, after.state.getBalance account assetId =
      e.state.getBalance account assetId + (if account = address then amount else 0)) ∧
    ∀ holder read, after.state.getPosition holder read = e.state.getPosition holder read := by
  unfold onlyIf at ran
  split at ran
  · rw [credit_ok ran]
    exact ⟨getBalance_credited e.state address assetId amount,fun _ _ => getPosition_setBalance ..⟩
  · rename_i nothing
    cases ran
    rw [Nat.eq_zero_of_not_pos nothing]
    exact ⟨fun _ => by rw [ite_self,Nat.add_zero],fun _ _ => rfl⟩

theorem paid_ok {reported : LiquidationResult} {assetId reward contribution remaining : Nat}
    (ran : exec (do
      executeLiquidation trader marketId position size
      credit liquidator assetId reward
      contribute marketId contribution
      onlyIf (0 < remaining) (credit trader assetId remaining)
      return reported) e = (.ok result,after)) :
    result = reported ∧
      (∀ holder read, after.state.getPosition holder read =
        (if position.size ≤ size then e.state.deletePosition trader marketId
          else e.state.setPosition trader marketId (leftover position size)).getPosition holder read) ∧
      ∀ account, after.state.getBalance account assetId = e.state.getBalance account assetId +
        (if account = liquidator then reward else 0) + (if account = trader then remaining else 0) := by
  obtain ⟨_,executed,removed,ran⟩ := exec_bind_ok ran
  obtain ⟨_,rewarded,first,ran⟩ := exec_bind_ok ran
  obtain ⟨_,contributed,second,ran⟩ := exec_bind_ok ran
  obtain ⟨_,returned,third,ran⟩ := exec_bind_ok ran
  cases ran
  have written := contribute_state second
  rw [credit_ok first,executeLiquidation_ok removed] at written
  obtain ⟨balances,positions⟩ := creditIfAny_ok third
  refine ⟨rfl,fun holder read => ?_,fun account => ?_⟩
  · rw [positions,written]
    exact getPosition_setBalance ..
  · rw [balances,written]
    dsimp only
    rw [getBalance_credited,getBalance_executed]

theorem settleLiquidation_ok (ran : exec (settleLiquidation trader marketId price liquidator market) e = (.ok result,after)) :
    ∃ position, e.state.getPosition trader marketId = some position ∧
      (let amounts := amountsOf e.liquidation position price market
      result = ⟨trader,marketId,seizedSize e.liquidation position price market,price,amounts.fee,
        amounts.equity - amounts.fee,some liquidator,amounts.reward,amounts.contribution,
        fundUsage (e.liquidation.insuranceFunds marketId) amounts⟩) ∧
      (after.state.getPosition trader marketId =
        if position.size ≤ result.liquidatedSize then e.state.committed (.position trader marketId)
        else some (leftover position result.liquidatedSize)) ∧
      ∀ account, after.state.getBalance account market.quoteAssetId =
        e.state.getBalance account market.quoteAssetId + (if account = liquidator then result.liquidatorReward else 0) +
          (if account = trader then result.remainingEquity else 0) := by
  rw [settleLiquidation,exec_reads_bind] at ran
  obtain ⟨position,found,ran⟩ := exec_orThrow_ok ran
  obtain ⟨size,sized,ran⟩ := exec_tries_ok ran
  obtain ⟨amounts,reckoned,ran⟩ := exec_tries_ok ran
  have taken : size = seizedSize e.liquidation position price market := by
    unfold seizedSize
    split at sized
    · rename_i enabled
      rw [if_pos enabled]
      exact partialSize_of_ok sized
    · rename_i disabled
      cases sized
      rw [if_neg disabled]
  have same : amounts = amountsOf e.liquidation position price market := by
    rw [amounts_of_ok reckoned,taken]
    rfl
  rw [exec_reads_bind] at ran
  obtain ⟨_,paid,drawn,ran⟩ := exec_bind_ok ran
  have state : paid.state = e.state := by
    unfold onlyIf at drawn
    split at drawn <;> cases drawn <;> rfl
  obtain ⟨rfl,positions,balances⟩ := paid_ok ran
  rw [state] at positions balances
  refine ⟨position,found,?_,?_,balances⟩
  · rw [← same,← taken]
  · rw [positions,getPosition_executed]

-- A call that succeeds has asked the predicate at the normalised price, and either stops there or liquidates.
theorem liquidateWithIncentive_ok {answer : Option LiquidationResult}
    (ran : exec (liquidateWithIncentive trader marketId markPrice liquidator) e = (.ok answer,after)) :
    ∃ market due, e.state.getMarket marketId = some market ∧
      shouldLiquidate e.state trader marketId (market.normalizePrice markPrice) market = .ok due ∧
      answer.isSome = due ∧
      ∀ result, answer = some result →
        ∃ position, Liquidated e trader marketId markPrice liquidator result after market position := by
  generalize outcome : Except.ok answer = reached at ran
  cases liquidateWithIncentive_liquidation ran with
  | refused error undue => cases outcome
  | @spared market registered safe =>
    cases outcome
    exact ⟨market,false,registered,safe,rfl,fun _ nothing => by cases nothing⟩
  | @due market settledAs _ priced registered risky settled =>
    cases settledAs with
    | error error => cases outcome
    | ok result =>
    cases outcome
    refine ⟨market,true,registered,risky,rfl,?_⟩
    intro _ same
    cases same
    have unplaced : Unplaced e (withdrawn e trader marketId) := unplaced_cancelTraderOrders trader marketId e
    obtain ⟨position,found,reported,stored,balances⟩ := settleLiquidation_ok settled
    have before : (withdrawn e trader marketId).state.getPosition trader marketId = e.state.getPosition trader marketId :=
      unplaced.reads _ rfl
    rw [before] at found
    rw [unplaced.liquidation] at reported
    rw [unplaced.committed] at stored
    refine ⟨position,registered,found,(shouldLiquidate_of_position found risky).mp rfl,reported,stored,fun account => ?_⟩
    have balance : (withdrawn e trader marketId).state.getBalance account market.quoteAssetId =
        e.state.getBalance account market.quoteAssetId := by
      rw [StateManager.getBalance,unplaced.reads _ rfl,StateManager.getBalance]
    rw [balances,balance]

theorem liquidated_of_ok (registered : e.state.getMarket marketId = some market)
    (found : e.state.getPosition trader marketId = some position)
    (ran : exec (liquidateWithIncentive trader marketId markPrice liquidator) e = (.ok (some result),after)) :
    Liquidated e trader marketId markPrice liquidator result after market position ∧
      ∃ due, shouldLiquidate e.state trader marketId (market.normalizePrice markPrice) market = .ok due := by
  obtain ⟨_,due,registered',asked,_,liquidated⟩ := liquidateWithIncentive_ok ran
  rw [registered] at registered'
  cases registered'
  obtain ⟨held,liquidated⟩ := liquidated result rfl
  have found' := liquidated.found
  rw [found] at found'
  cases found'
  exact ⟨liquidated,due,asked⟩

end LiquidationEngine
end Pranklin
