import Pranklin.Liquidation

namespace Pranklin
open Words Effect

structure PositionRisk where
  trader : Address
  marketId : Nat
  marginRatio : Nat
deriving DecidableEq

namespace LiquidationEngine

-- None where the assertion fails; the sum is one of 32-bit words.
def setFeeSplit (engine : LiquidationEngine) (liquidatorBps insuranceFundBps : Nat) : Option LiquidationEngine :=
  if addWrap 32 liquidatorBps insuranceFundBps = basisPoints then
    some {engine with feeSplit:=(liquidatorBps,insuranceFundBps)}
  else none

-- `heap` is what the risk index holds for the market, in the order it is walked in.
def getAtRiskPositions (heap : List PositionRisk) (thresholdBps : Nat) : List (Address × Nat) :=
  (heap.filter (·.marginRatio < thresholdBps)).map fun risk => (risk.trader,risk.marketId)

def liquidateEach (markPrice : Nat) (liquidator : Address) : List (Address × Nat) → EngineM (List LiquidationResult)
  | [] => pure []
  | (trader,marketId) :: rest => do
    let result ← liquidateWithIncentive trader marketId markPrice liquidator
    let results ← liquidateEach markPrice liquidator rest
    return result.toList ++ results

def processLiquidationBatch (heap : List PositionRisk) (marketId markPrice : Nat) (liquidator : Address)
    (maxLiquidations : Nat) : EngineM (List LiquidationResult) := do
  let found ← reads fun e => e.state.getMarket marketId
  let market ← orThrow found .marketNotFound
  liquidateEach markPrice liquidator ((getAtRiskPositions heap market.maintenanceMarginBps).take maxLiquidations)

def rewardLiquidator (trader : Address) (marketId price : Nat) (liquidator : Address) (market : Market) :
    EngineM (Nat × LiquidationAmounts × Nat) := do
  let found ← reads fun e => e.state.getPosition trader marketId
  let position ← orThrow found .positionNotFound
  let size ← tries fun e =>
    if e.liquidation.enablePartialLiquidations then calculatePartialLiquidationSize position price market
    else .ok position.size
  let amounts ← tries fun e => liquidationAmounts e.liquidation.feeSplit position market price size
  let fund ← reads fun e => e.liquidation.insuranceFunds marketId
  onlyIf (amounts.equity < amounts.fee) (setFund marketId (InsuranceFund.pay fund (fundUsage fund amounts)))
  executeLiquidation trader marketId position size
  credit liquidator market.quoteAssetId amounts.reward
  return (size,amounts,fundUsage fund amounts)

theorem settleLiquidation_eq (trader : Address) (marketId price : Nat) (liquidator : Address) (market : Market) :
    settleLiquidation trader marketId price liquidator market = do
      let (size,amounts,usage) ← rewardLiquidator trader marketId price liquidator market
      contribute marketId amounts.contribution
      onlyIf (0 < amounts.equity - amounts.fee) (credit trader market.quoteAssetId (amounts.equity - amounts.fee))
      return ⟨trader,marketId,size,price,amounts.fee,amounts.equity - amounts.fee,some liquidator,amounts.reward,
        amounts.contribution,usage⟩ := by
  simp only [settleLiquidation,rewardLiquidator,bind_assoc,pure_bind]

def approach (trader : Address) (marketId markPrice : Nat) (liquidator : Address) :
    EngineM (Option (Market × Nat × LiquidationAmounts × Nat)) := do
  if markPrice = 0 then throw (.other "Invalid mark price: cannot be zero")
  else
    let found ← reads fun e => e.state.getMarket marketId
    let market ← orThrow found .marketNotFound
    let price := market.normalizePrice markPrice
    let due ← tries fun e => shouldLiquidate e.state trader marketId price market
    if due then
      let _ ← cancelTraderOrders trader marketId
      let rewarded ← rewardLiquidator trader marketId price liquidator market
      return some (market,rewarded)
    else return none

theorem liquidateWithIncentive_eq (trader : Address) (marketId markPrice : Nat) (liquidator : Address) :
    liquidateWithIncentive trader marketId markPrice liquidator = do
      let reached ← approach trader marketId markPrice liquidator
      match reached with
      | none => return none
      | some (market,size,amounts,usage) =>
        contribute marketId amounts.contribution
        onlyIf (0 < amounts.equity - amounts.fee) (credit trader market.quoteAssetId (amounts.equity - amounts.fee))
        return some ⟨trader,marketId,size,market.normalizePrice markPrice,amounts.fee,amounts.equity - amounts.fee,
          some liquidator,amounts.reward,amounts.contribution,usage⟩ := by
  unfold liquidateWithIncentive approach
  split
  · rfl
  · simp only [bind_assoc]
    refine bind_congr fun found => bind_congr fun market => bind_congr fun due => ?_
    cases due with
    | false => simp
    | true => simp only [if_true,settleLiquidation_eq,bind_assoc,pure_bind]

def contribution (e : Engine) (trader : Address) (marketId markPrice : Nat) (liquidator : Address) : Nat :=
  match (exec (approach trader marketId markPrice liquidator) e).1 with
  | .ok (some (_,_,amounts,_)) => amounts.contribution
  | _ => 0

section Kept

def KeepsFunds (e after : Engine) : Prop := after.liquidation = e.liquidation

theorem KeepsFunds.refl (e : Engine) : KeepsFunds e e := rfl

theorem keeps_bind {m : EngineM α} {next : α → EngineM β} (first : Guarantees KeepsFunds m)
    (rest : ∀ value, Guarantees KeepsFunds (next value)) : Guarantees KeepsFunds (m >>= next) :=
  first.bind (fun _ _ _ one two => two.trans one) rest

theorem keeps_credit (address : Address) (assetId amount : Nat) : Guarantees KeepsFunds (credit address assetId amount) := by
  apply keeps_bind (.reads KeepsFunds.refl _)
  intro balance
  apply keeps_bind (.orThrow KeepsFunds.refl _ _)
  intro credited
  exact .writes fun _ => rfl

theorem keeps_executeLiquidation (trader : Address) (marketId : Nat) (position : Position) (size : Nat) :
    Guarantees KeepsFunds (executeLiquidation trader marketId position size) := by
  unfold executeLiquidation
  split
  · exact .writes fun _ => rfl
  · split
    · exact .throw KeepsFunds.refl _
    · apply keeps_bind (.orThrow KeepsFunds.refl _ _)
      intro scaled
      exact .writes fun _ => rfl

theorem keeps_cancelTraderOrders (trader : Address) (marketId : Nat) :
    Guarantees KeepsFunds (cancelTraderOrders trader marketId) :=
  cancelTraderOrders_guarantees KeepsFunds.refl (fun _ _ _ one two => two.trans one) (fun _ _ _ => rfl) trader

end Kept

structure InsuranceFund.Balanced (fund : InsuranceFund) : Prop where
  books : fund.balance + fund.totalPayouts = fund.totalContributions
  bounded : fund.totalContributions < 2 ^ 128

def Split (engine : LiquidationEngine) : Prop := engine.feeSplit.1 + engine.feeSplit.2 = basisPoints

def moveFund (engine : LiquidationEngine) (marketId usage contribution : Nat) : LiquidationEngine :=
  let fund := engine.insuranceFunds marketId
  let moved : InsuranceFund :=
    ⟨fund.balance - usage + contribution,fund.totalContributions + contribution,fund.totalPayouts + usage⟩
  {engine with insuranceFunds:=Function.update engine.insuranceFunds marketId moved}

theorem moveFund_own (engine : LiquidationEngine) (marketId usage contribution : Nat) :
    (moveFund engine marketId usage contribution).insuranceFunds marketId =
      ⟨(engine.insuranceFunds marketId).balance - usage + contribution,
        (engine.insuranceFunds marketId).totalContributions + contribution,
        (engine.insuranceFunds marketId).totalPayouts + usage⟩ := Function.update_self ..

theorem moveFund_zero (engine : LiquidationEngine) (marketId : Nat) : moveFund engine marketId 0 0 = engine := by
  unfold moveFund
  simp

theorem fundUsage_le (fund : InsuranceFund) (amounts : LiquidationAmounts) : fundUsage fund amounts ≤ fund.balance := by
  unfold fundUsage
  split
  · exact Nat.min_le_left _ _
  · exact Nat.zero_le _

theorem pay_eq {fund : InsuranceFund} (balanced : InsuranceFund.Balanced fund) {usage : Nat} (covered : usage ≤ fund.balance) :
    InsuranceFund.pay fund usage = ⟨fund.balance - usage,fund.totalContributions,fund.totalPayouts + usage⟩ := by
  have books := balanced.books
  have bounded := balanced.bounded
  have small : addWrap 128 fund.totalPayouts usage = fund.totalPayouts + usage := addWrap_of_lt (by omega)
  unfold InsuranceFund.pay
  rw [small]

theorem shares_of_fee {fee one other : Nat} (whole : one + other = basisPoints) :
    fee * one / basisPoints + fee * other / basisPoints ≤ fee ∧
      fee ≤ fee * one / basisPoints + fee * other / basisPoints + 1 := by
  have total : fee * one + fee * other = fee * basisPoints := by rw [← Nat.mul_add,whole]
  unfold basisPoints at total ⊢
  omega

section Steps
variable {e : Engine} {trader liquidator : Address} {marketId price markPrice : Nat} {market : Market}

theorem handOver_spec (trader liquidator : Address) (marketId : Nat) (position : Position) (size assetId reward : Nat)
    (value : α) (e : Engine) :
    let handOver : EngineM α := do
      executeLiquidation trader marketId position size
      credit liquidator assetId reward
      return value
    KeepsFunds e (exec handOver e).2 ∧ ∀ w, (exec handOver e).1 = .ok w → w = value := by
  intro handOver
  constructor
  · refine keeps_bind (keeps_executeLiquidation _ _ _ _) (fun _ => ?_) e
    exact keeps_bind (keeps_credit _ _ _) fun _ => .pure KeepsFunds.refl _
  · intro w done
    obtain ⟨_,middle,_,paid⟩ := exec_bind_ok (Prod.ext done rfl : exec handOver e = (.ok w,(exec handOver e).2))
    obtain ⟨_,last,_,ended⟩ := exec_bind_ok paid
    cases ended
    rfl

-- Up to the reward the fund pays at most what it has; what is reported of it is what it paid.
structure Approached (e : Engine) (marketId : Nat)
    (ran : Except EngineError (Option (Market × Nat × LiquidationAmounts × Nat)) × Engine) (usage : Nat) : Prop where
  covered : usage ≤ (e.liquidation.insuranceFunds marketId).balance
  moved : ran.2.liquidation = moveFund e.liquidation marketId usage 0
  reported : ∀ market size amounts paid, ran.1 = .ok (some (market,size,amounts,paid)) → paid = usage ∧
    ∃ position price, liquidationAmounts e.liquidation.feeSplit position market price size = .ok amounts

theorem Approached.idle {done : Except EngineError (Option (Market × Nat × LiquidationAmounts × Nat))}
    (kept : KeepsFunds e after) (nothing : ∀ reached, done ≠ .ok (some reached)) :
    ∃ usage, Approached e marketId (done,after) usage :=
  ⟨0,Nat.zero_le _,by rw [moveFund_zero]; exact kept,fun _ _ _ _ reached => absurd reached (nothing _)⟩

theorem rewardLiquidator_spec (trader : Address) (marketId price : Nat) (liquidator : Address) (market : Market)
    (balanced : InsuranceFund.Balanced (e.liquidation.insuranceFunds marketId)) :
    let ran := exec (rewardLiquidator trader marketId price liquidator market) e
    ∃ usage, Approached e marketId (ran.1.map fun rewarded => some (market,rewarded),ran.2) usage := by
  intro ran
  unfold ran
  rw [rewardLiquidator,exec_reads_bind]
  cases e.state.getPosition trader marketId with
  | none => exact Approached.idle (.refl e) fun _ same => nomatch same
  | some position =>
  rw [exec_orThrow_some_bind,exec_bind,exec_tries]
  cases sized : (if e.liquidation.enablePartialLiquidations then calculatePartialLiquidationSize position price market
      else .ok position.size) with
  | error error => exact Approached.idle (.refl e) fun _ same => nomatch same
  | ok size =>
  dsimp only
  rw [exec_bind,exec_tries]
  cases reckoned : liquidationAmounts e.liquidation.feeSplit position market price size with
  | error error => exact Approached.idle (.refl e) fun _ same => nomatch same
  | ok amounts =>
  dsimp only
  rw [exec_reads_bind]
  have covered := fundUsage_le (e.liquidation.insuranceFunds marketId) amounts
  have handed := handOver_spec trader liquidator marketId position size market.quoteAssetId amounts.reward
    (size,amounts,fundUsage (e.liquidation.insuranceFunds marketId) amounts)
  -- The amounts of the result are those the fund was charged by.
  have report : ∀ (done : Except EngineError (Nat × LiquidationAmounts × Nat)),
      (∀ w, done = .ok w → w = (size,amounts,fundUsage (e.liquidation.insuranceFunds marketId) amounts)) →
      ∀ other n charged paid, (done.map fun rewarded => some (market,rewarded)) = .ok (some (other,n,charged,paid)) →
        paid = fundUsage (e.liquidation.insuranceFunds marketId) amounts ∧
          ∃ position price, liquidationAmounts e.liquidation.feeSplit position other price n = .ok charged := by
    intro done value other n charged paid same
    cases done with
    | error error => cases same
    | ok w =>
      cases value w rfl
      cases same
      exact ⟨rfl,position,price,reckoned⟩
  refine ⟨_,covered,?_,report _ ?_⟩
  all_goals unfold onlyIf
  all_goals by_cases short : amounts.equity < amounts.fee
  · rw [if_pos short,setFund,exec_writes_bind,pay_eq balanced covered]
    exact (handed _).1
  · have unused : fundUsage (e.liquidation.insuranceFunds marketId) amounts = 0 := if_neg short
    rw [if_neg short,pure_bind,unused,moveFund_zero]
    exact (handOver_spec _ _ _ _ _ _ _ _ e).1
  · rw [if_pos short,setFund,exec_writes_bind]
    exact (handed _).2
  · rw [if_neg short,pure_bind]
    exact (handed e).2

theorem Approached.after (kept : KeepsFunds e middle) (approached : Approached middle marketId ran usage) :
    Approached e marketId ran usage := by
  obtain ⟨covered,moved,reported⟩ := approached
  rw [kept] at covered moved reported
  exact ⟨covered,moved,reported⟩

theorem approach_spec (balanced : InsuranceFund.Balanced (e.liquidation.insuranceFunds marketId)) :
    ∃ usage, Approached e marketId (exec (approach trader marketId markPrice liquidator) e) usage := by
  rw [approach]
  split
  · exact Approached.idle (.refl e) fun _ same => nomatch same
  rw [exec_reads_bind]
  cases e.state.getMarket marketId with
  | none => exact Approached.idle (.refl e) fun _ same => nomatch same
  | some market =>
  rw [exec_orThrow_some_bind,exec_bind,exec_tries]
  cases shouldLiquidate e.state trader marketId (market.normalizePrice markPrice) market with
  | error error => exact Approached.idle (.refl e) fun _ same => nomatch same
  | ok due =>
  cases due with
  | false => exact Approached.idle (.refl e) fun _ same => nomatch same
  | true =>
  dsimp only
  rw [if_pos rfl,exec_bind]
  have cancelled := keeps_cancelTraderOrders trader marketId e
  cases ran : exec (cancelTraderOrders trader marketId) e with
  | mk result middle =>
  rw [ran] at cancelled
  cases result with
  | error error => exact Approached.idle cancelled fun _ same => nomatch same
  | ok _ =>
    have still : InsuranceFund.Balanced (middle.liquidation.insuranceFunds marketId) := by rwa [cancelled]
    obtain ⟨usage,approached⟩ := rewardLiquidator_spec trader marketId (market.normalizePrice markPrice) liquidator
      market still
    refine ⟨usage,.after cancelled ?_⟩
    dsimp only
    rwa [exec_bind_pure]

theorem contribute_spec (fits : (e.liquidation.insuranceFunds marketId).balance + amount < 2 ^ 128)
    (room : (e.liquidation.insuranceFunds marketId).totalContributions + amount < 2 ^ 128) :
    ∃ after, exec (contribute marketId amount) e = (.ok (),after) ∧
      after.liquidation = moveFund e.liquidation marketId 0 amount := by
  have balance := checkedAdd_eq_some.mpr ⟨fits,rfl⟩
  have total := checkedAdd_eq_some.mpr ⟨room,rfl⟩
  rw [contribute,exec_reads_bind,balance,exec_orThrow_some_bind,setFund,exec_writes_bind,total,exec_orThrow_some_bind,setFund]
  refine ⟨_,rfl,?_⟩
  unfold moveFund
  simp

theorem moveFund_moveFund (engine : LiquidationEngine) (marketId usage amount : Nat) :
    moveFund (moveFund engine marketId usage 0) marketId 0 amount = moveFund engine marketId usage amount := by
  unfold moveFund
  simp

theorem liquidationAmounts_shares {feeSplit : Nat × Nat} {position : Position} {size : Nat} {amounts : LiquidationAmounts}
    (reckoned : liquidationAmounts feeSplit position market price size = .ok amounts) :
    amounts.reward = amounts.fee * feeSplit.1 / basisPoints ∧
      amounts.contribution = amounts.fee * feeSplit.2 / basisPoints := by
  obtain ⟨value,_,reckoned⟩ := bind_eq_ok reckoned
  obtain ⟨scaledFee,_,reckoned⟩ := bind_eq_ok reckoned
  obtain ⟨scaledReward,first,reckoned⟩ := bind_eq_ok reckoned
  obtain ⟨scaledContribution,second,reckoned⟩ := bind_eq_ok reckoned
  obtain ⟨equity,_,reckoned⟩ := bind_eq_ok reckoned
  cases reckoned
  have reward := (checkedMul_eq_some.mp (orOverflow_eq_ok.mp first)).2
  have contribution := (checkedMul_eq_some.mp (orOverflow_eq_ok.mp second)).2
  exact ⟨by rw [reward],by rw [contribution]⟩

theorem liquidateWithIncentive_books (balanced : InsuranceFund.Balanced (e.liquidation.insuranceFunds marketId))
    (split : Split e.liquidation)
    (room : (e.liquidation.insuranceFunds marketId).totalContributions +
      contribution e trader marketId markPrice liquidator < 2 ^ 128) :
    let ran := exec (liquidateWithIncentive trader marketId markPrice liquidator) e
    ∃ usage ≤ (e.liquidation.insuranceFunds marketId).balance,
      ran.2.liquidation = moveFund e.liquidation marketId usage (contribution e trader marketId markPrice liquidator) ∧
      ∀ result, ran.1 = .ok (some result) → result.insuranceFundUsage = usage ∧
        result.liquidatorReward + result.insuranceFundContribution ≤ result.liquidationFee ∧
        result.liquidationFee ≤ result.liquidatorReward + result.insuranceFundContribution + 1 := by
  intro ran
  unfold ran
  obtain ⟨usage,covered,moved,reported⟩ := @approach_spec e trader liquidator marketId markPrice balanced
  refine ⟨usage,covered,?_⟩
  rw [liquidateWithIncentive_eq,exec_bind]
  unfold contribution at room ⊢
  cases reached : exec (approach trader marketId markPrice liquidator) e with
  | mk result middle =>
  rw [reached] at moved reported room
  cases result with
  | error error => exact ⟨moved,fun _ failed => nomatch failed⟩
  | ok value =>
  cases value with
  | none => exact ⟨moved,fun _ nothing => nomatch nothing⟩
  | some rewarded =>
  obtain ⟨market,size,amounts,paid⟩ := rewarded
  obtain ⟨same,position,price,reckoned⟩ := reported market size amounts paid rfl
  dsimp only at moved room ⊢
  have books := balanced.books
  have fits : (middle.liquidation.insuranceFunds marketId).balance + amounts.contribution < 2 ^ 128 := by
    rw [moved,moveFund_own]
    dsimp only
    omega
  obtain ⟨credited,added,now⟩ := @contribute_spec middle marketId amounts.contribution fits
    (by rw [moved,moveFund_own]; exact room)
  rw [exec_ok_bind added]
  have kept : Guarantees KeepsFunds (onlyIf (0 < amounts.equity - amounts.fee)
      (credit trader market.quoteAssetId (amounts.equity - amounts.fee))) :=
    .onlyIf KeepsFunds.refl (keeps_credit _ _ _)
  constructor
  · rw [exec_bind_pure]
    exact (kept credited).trans (now.trans (by rw [moved,moveFund_moveFund]))
  · intro final done
    rw [exec_bind_pure] at done
    obtain ⟨reward,contribution⟩ := liquidationAmounts_shares reckoned
    have shares := @shares_of_fee amounts.fee _ _ split
    rw [← reward,← contribution] at shares
    dsimp only at done
    revert done
    cases (exec (onlyIf (0 < amounts.equity - amounts.fee)
      (credit trader market.quoteAssetId (amounts.equity - amounts.fee))) credited).1 with
    | error error =>
      intro done
      cases done
    | ok _ =>
      intro done
      cases done
      exact ⟨same,shares⟩

end Steps

end LiquidationEngine
end Pranklin
