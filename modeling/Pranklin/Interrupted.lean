import Pranklin.Atomicity
import Pranklin.Liquidating

namespace Pranklin
open Words Effect LiquidationEngine

namespace Interrupted

-- Everything a caller can read of the positions, balances, orders and funds is as before.
structure Unmoved (e after : Engine) : Prop extends Atomicity.Untouched e after where
  funds : ∀ marketId, after.liquidation.insuranceFunds marketId = e.liquidation.insuranceFunds marketId

def sizing (engine : LiquidationEngine) (position : Position) (market : Market) (price : Nat) : Except EngineError Nat :=
  if engine.enablePartialLiquidations then calculatePartialLiquidationSize position price market
  else .ok position.size

def reckon (engine : LiquidationEngine) (position : Position) (market : Market) (price : Nat) :
    Except EngineError (Nat × LiquidationAmounts) :=
  match sizing engine position market price with
  | .error error => .error error
  | .ok size => (liquidationAmounts engine.feeSplit position market price size).map fun amounts => (size,amounts)

def distribute (trader : Address) (marketId price : Nat) (liquidator : Address) (market : Market) (position : Position)
    (size : Nat) (amounts : LiquidationAmounts) : EngineM LiquidationResult := do
  let fund ← reads fun e => e.liquidation.insuranceFunds marketId
  let usage := fundUsage fund amounts
  let remainingEquity := amounts.equity - amounts.fee
  onlyIf (amounts.equity < amounts.fee) (setFund marketId (InsuranceFund.pay fund usage))
  executeLiquidation trader marketId position size
  credit liquidator market.quoteAssetId amounts.reward
  contribute marketId amounts.contribution
  onlyIf (0 < remainingEquity) (credit trader market.quoteAssetId remainingEquity)
  return ⟨trader,marketId,size,price,amounts.fee,remainingEquity,some liquidator,amounts.reward,
    amounts.contribution,usage⟩

def Seizes (position : Position) (size : Nat) : Prop := position.size ≤ size ∨ position.margin * size < 2 ^ 128

def Rewards (e : Engine) (liquidator : Address) (market : Market) (amounts : LiquidationAmounts) : Prop :=
  e.state.getBalance liquidator market.quoteAssetId + amounts.reward < 2 ^ 128

def Contributes (fund : InsuranceFund) (amounts : LiquidationAmounts) : Prop :=
  fund.balance - fundUsage fund amounts + amounts.contribution < 2 ^ 128

instance (position : Position) (size : Nat) : Decidable (Seizes position size) := inferInstanceAs (Decidable (_ ∨ _))

instance (e : Engine) (liquidator : Address) (market : Market) (amounts : LiquidationAmounts) :
    Decidable (Rewards e liquidator market amounts) := inferInstanceAs (Decidable (_ < _))

instance (fund : InsuranceFund) (amounts : LiquidationAmounts) : Decidable (Contributes fund amounts) :=
  inferInstanceAs (Decidable (_ < _))

def seizedState (s : StateManager) (trader : Address) (marketId : Nat) (position : Position) (size : Nat) : StateManager :=
  if position.size ≤ size then s.deletePosition trader marketId
  else s.setPosition trader marketId (leftover position size)

def leftState (e : Engine) (trader : Address) (marketId : Nat) (liquidator : Address) (market : Market)
    (position : Position) (size : Nat) (amounts : LiquidationAmounts) : StateManager :=
  if Seizes position size then
    let seized := seizedState e.state trader marketId position size
    if Rewards e liquidator market amounts then
      seized.setBalance liquidator market.quoteAssetId
        (e.state.getBalance liquidator market.quoteAssetId + amounts.reward)
    else seized
  else e.state

def paidFund (fund : InsuranceFund) (amounts : LiquidationAmounts) : InsuranceFund :=
  if amounts.equity < amounts.fee then InsuranceFund.pay fund (fundUsage fund amounts) else fund

def leftFund (e : Engine) (marketId : Nat) (liquidator : Address) (market : Market) (position : Position) (size : Nat)
    (amounts : LiquidationAmounts) : InsuranceFund :=
  let fund := e.liquidation.insuranceFunds marketId
  let paid := paidFund fund amounts
  if Seizes position size ∧ Rewards e liquidator market amounts ∧ Contributes fund amounts then
    {paid with
      balance:=paid.balance + amounts.contribution
      totalContributions:=if paid.totalContributions + amounts.contribution < 2 ^ 128 then
        paid.totalContributions + amounts.contribution else paid.totalContributions}
  else paid

variable {e after : Engine} {trader liquidator : Address} {marketId markPrice price size : Nat} {position : Position}
  {market : Market} {amounts : LiquidationAmounts}

theorem paidFund_balance (fund : InsuranceFund) (amounts : LiquidationAmounts) :
    (paidFund fund amounts).balance = fund.balance - fundUsage fund amounts := by
  unfold paidFund
  split
  · rfl
  · rename_i solvent
    rw [fundUsage,if_neg solvent,Nat.sub_zero]

def withFund (e : Engine) (marketId : Nat) (fund : InsuranceFund) : Engine :=
  {e with liquidation:={e.liquidation with insuranceFunds:=Function.update e.liquidation.insuranceFunds marketId fund}}

theorem draw_exec (e : Engine) (marketId : Nat) (amounts : LiquidationAmounts) :
    let fund := e.liquidation.insuranceFunds marketId
    exec (onlyIf (amounts.equity < amounts.fee) (setFund marketId (InsuranceFund.pay fund (fundUsage fund amounts)))) e =
      (.ok (),withFund e marketId (paidFund fund amounts)) := by
  dsimp only
  unfold paidFund onlyIf withFund
  split
  · rfl
  · rw [Function.update_eq_self]
    rfl

theorem executeLiquidation_seizes (held : position.size ≠ 0) (seizes : Seizes position size) (e : Engine) :
    exec (executeLiquidation trader marketId position size) e =
      (.ok (),{e with state:=seizedState e.state trader marketId position size}) := by
  unfold executeLiquidation seizedState
  by_cases whole : position.size ≤ size
  · rw [if_pos whole,if_pos whole]
    rfl
  · rw [if_neg whole,if_neg held,if_neg whole,checkedMul,if_pos (seizes.resolve_left whole),exec_orThrow_some_bind]
    rfl

theorem executeLiquidation_fails (held : position.size ≠ 0) (fails : ¬Seizes position size) (e : Engine) :
    exec (executeLiquidation trader marketId position size) e = (.error .overflow,e) := by
  unfold executeLiquidation
  rw [if_neg fun whole => fails (.inl whole),if_neg held,checkedMul,if_neg fun fits => fails (.inr fits)]
  rfl

theorem credit_exec (address : Address) (assetId amount : Nat) (e : Engine) :
    exec (credit address assetId amount) e =
      if e.state.getBalance address assetId + amount < 2 ^ 128 then
        (.ok (),{e with state:=e.state.setBalance address assetId (e.state.getBalance address assetId + amount)})
      else (.error .overflow,e) := by
  rw [credit,exec_reads_bind,checkedAdd]
  split <;> rfl

-- The balance is written before the total is checked.
theorem contribute_exec (marketId amount : Nat) (e : Engine) :
    let fund := e.liquidation.insuranceFunds marketId
    exec (contribute marketId amount) e =
      if fund.balance + amount < 2 ^ 128 then
        if fund.totalContributions + amount < 2 ^ 128 then
          (.ok (),withFund e marketId {fund with
            balance:=fund.balance + amount
            totalContributions:=fund.totalContributions + amount})
        else (.error .overflow,withFund e marketId {fund with balance:=fund.balance + amount})
      else (.error .overflow,e) := by
  dsimp only
  rw [contribute,exec_reads_bind,checkedAdd]
  by_cases balance : (e.liquidation.insuranceFunds marketId).balance + amount < 2 ^ 128
  · rw [if_pos balance,if_pos balance,exec_orThrow_some_bind,setFund,exec_writes_bind,checkedAdd]
    by_cases total : (e.liquidation.insuranceFunds marketId).totalContributions + amount < 2 ^ 128
    · rw [if_pos total,if_pos total,exec_orThrow_some_bind]
      simp only [setFund,exec_writes,Function.update_idem,withFund]
    · rw [if_neg total,if_neg total]
      rfl
  · rw [if_neg balance,if_neg balance]
    rfl

theorem settleLiquidation_exec (found : e.state.getPosition trader marketId = some position) :
    exec (settleLiquidation trader marketId price liquidator market) e =
      match reckon e.liquidation position market price with
      | .error error => (.error error,e)
      | .ok (size,amounts) => exec (distribute trader marketId price liquidator market position size amounts) e := by
  have sizes : (if e.liquidation.enablePartialLiquidations then calculatePartialLiquidationSize position price market
      else .ok position.size) = sizing e.liquidation position market price := rfl
  rw [settleLiquidation,exec_reads_bind,found,exec_orThrow_some_bind,exec_bind,exec_tries,sizes,reckon]
  cases sizing e.liquidation position market price with
  | error error => rfl
  | ok size =>
    dsimp only
    rw [exec_bind,exec_tries]
    cases liquidationAmounts e.liquidation.feeSplit position market price size with
    | error error => rfl
    | ok amounts => rfl

-- The failing step is the first one whose check fails; the writes before it stay.
theorem distribute_broken (held : position.size ≠ 0)
    (failed : exec (distribute trader marketId price liquidator market position size amounts) e = (.error error,after)) :
    after.state = leftState e trader marketId liquidator market position size amounts ∧
      after.liquidation.insuranceFunds = Function.update e.liquidation.insuranceFunds marketId
        (leftFund e marketId liquidator market position size amounts) := by
  rw [distribute,exec_reads_bind,exec_ok_bind (draw_exec e marketId amounts)] at failed
  by_cases seizes : Seizes position size
  case neg =>
    rw [exec_error_bind (executeLiquidation_fails held seizes _)] at failed
    cases failed
    rw [leftState,if_neg seizes,leftFund,if_neg fun all => seizes all.1]
    exact ⟨rfl,rfl⟩
  rw [exec_ok_bind (executeLiquidation_seizes held seizes _)] at failed
  have balance : (seizedState e.state trader marketId position size).getBalance liquidator market.quoteAssetId =
      e.state.getBalance liquidator market.quoteAssetId := getBalance_executed e.state liquidator market.quoteAssetId
  have credited := credit_exec liquidator market.quoteAssetId amounts.reward
    {withFund e marketId (paidFund (e.liquidation.insuranceFunds marketId) amounts) with
      state:=seizedState e.state trader marketId position size}
  rw [show (withFund e marketId _).state = e.state from rfl] at failed
  dsimp only at credited
  rw [balance] at credited
  by_cases rewards : Rewards e liquidator market amounts
  case neg =>
    rw [if_neg (show ¬_ < _ from rewards)] at credited
    rw [exec_error_bind credited] at failed
    cases failed
    rw [leftState,if_pos seizes,if_neg rewards,leftFund,if_neg fun all => rewards all.2.1]
    exact ⟨rfl,rfl⟩
  rw [if_pos (show _ < _ from rewards)] at credited
  rw [exec_ok_bind credited] at failed
  have written : leftState e trader marketId liquidator market position size amounts =
      (seizedState e.state trader marketId position size).setBalance liquidator market.quoteAssetId
        (e.state.getBalance liquidator market.quoteAssetId + amounts.reward) := by
    rw [leftState,if_pos seizes,if_pos rewards]
  rw [written]
  have given := contribute_exec marketId amounts.contribution
    {withFund e marketId (paidFund (e.liquidation.insuranceFunds marketId) amounts) with
      state:=(seizedState e.state trader marketId position size).setBalance liquidator market.quoteAssetId
        (e.state.getBalance liquidator market.quoteAssetId + amounts.reward)}
  dsimp only [withFund] at given failed
  rw [Function.update_self,Function.update_idem,Function.update_idem] at given
  by_cases contributes : Contributes (e.liquidation.insuranceFunds marketId) amounts
  case neg =>
    rw [paidFund_balance,if_neg (show ¬_ < _ from contributes)] at given
    rw [exec_error_bind given] at failed
    cases failed
    rw [leftFund,if_neg fun all => contributes all.2.2]
    exact ⟨rfl,rfl⟩
  rw [if_pos (by rw [paidFund_balance]; exact contributes)] at given
  rw [leftFund,if_pos ⟨seizes,rewards,contributes⟩]
  split at given
  · rename_i recorded
    rw [exec_ok_bind given,exec_bind_pure] at failed
    -- Only the payment to the trader is left to fail.
    unfold onlyIf at failed
    split at failed
    · rw [credit_exec] at failed
      split at failed
      · cases failed
      · cases failed
        rw [if_pos recorded]
        exact ⟨rfl,rfl⟩
    · cases failed
  · rename_i unrecorded
    rw [exec_error_bind given] at failed
    cases failed
    rw [if_neg unrecorded]
    exact ⟨rfl,rfl⟩

section Left

theorem leftover_eq_iff (part : ¬position.size ≤ size) : leftover position size = position ↔ size = 0 := by
  constructor
  · intro same
    have sizes : position.size - size = position.size := congrArg Position.size same
    omega
  · rintro rfl
    rw [leftover,Nat.mul_zero,Nat.zero_div,Nat.sub_zero,Nat.sub_zero]

theorem getPosition_seizedState (s : StateManager) (holder : Address) (read : Nat) :
    (seizedState s trader marketId position size).getPosition holder read =
      if holder = trader ∧ read = marketId then
        if position.size ≤ size then s.committed (.position trader marketId) else some (leftover position size)
      else s.getPosition holder read := by
  unfold seizedState
  by_cases whole : position.size ≤ size
  · rw [if_pos whole,if_pos whole,StateManager.getPosition_deletePosition]
  · rw [if_neg whole,if_neg whole,StateManager.getPosition_setPosition]

theorem getPosition_leftState (holder : Address) (read : Nat) :
    (leftState e trader marketId liquidator market position size amounts).getPosition holder read =
      if Seizes position size then (seizedState e.state trader marketId position size).getPosition holder read
      else e.state.getPosition holder read := by
  unfold leftState
  split
  · dsimp only
    split
    · exact getPosition_setBalance _ _ _ _
    · rfl
  · rfl

theorem positions_left (liquidator : Address) (market : Market) (size : Nat) (amounts : LiquidationAmounts)
    (found : e.state.getPosition trader marketId = some position) :
    (∀ holder read, (leftState e trader marketId liquidator market position size amounts).getPosition holder read =
      e.state.getPosition holder read) ↔
    (Seizes position size →
      if position.size ≤ size then e.state.committed (.position trader marketId) = some position else size = 0) := by
  have own : Seizes position size → ((leftState e trader marketId liquidator market position size amounts).getPosition
      trader marketId = e.state.getPosition trader marketId ↔
        if position.size ≤ size then e.state.committed (.position trader marketId) = some position else size = 0) := by
    intro seizes
    rw [getPosition_leftState,if_pos seizes,getPosition_seizedState,if_pos ⟨rfl,rfl⟩,found]
    split
    · exact Iff.rfl
    · rename_i part
      rw [Option.some_inj,leftover_eq_iff part]
  constructor
  · intro same seizes
    exact (own seizes).mp (same trader marketId)
  · intro kept holder read
    by_cases here : Seizes position size ∧ holder = trader ∧ read = marketId
    · obtain ⟨seizes,rfl,rfl⟩ := here
      exact (own seizes).mpr (kept seizes)
    · rw [getPosition_leftState]
      split
      · rename_i seizes
        rw [getPosition_seizedState,if_neg fun same => here ⟨seizes,same⟩]
      · rfl

theorem balances_left (e : Engine) (trader : Address) (marketId : Nat) (liquidator : Address) (market : Market)
    (position : Position) (size : Nat) (amounts : LiquidationAmounts) :
    (∀ holder assetId, (leftState e trader marketId liquidator market position size amounts).getBalance holder assetId =
      e.state.getBalance holder assetId) ↔
    (Seizes position size → Rewards e liquidator market amounts → amounts.reward = 0) := by
  have seized : ∀ holder assetId, (seizedState e.state trader marketId position size).getBalance holder assetId =
      e.state.getBalance holder assetId := getBalance_executed e.state
  unfold leftState
  by_cases seizes : Seizes position size
  · rw [if_pos seizes]
    dsimp only
    by_cases rewards : Rewards e liquidator market amounts
    · rw [if_pos rewards]
      constructor
      · intro same _ _
        have balance := same liquidator market.quoteAssetId
        rw [Supply.getBalance_setBalance,if_pos ⟨rfl,rfl⟩] at balance
        omega
      · intro nothing holder assetId
        rw [Supply.getBalance_setBalance,nothing seizes rewards]
        split
        · rename_i own
          rw [own.1,own.2,Nat.add_zero]
        · exact seized holder assetId
    · rw [if_neg rewards]
      exact ⟨fun _ _ given => absurd given rewards,fun _ => seized⟩
  · rw [if_neg seizes]
    exact ⟨fun _ given => absurd given seizes,fun _ _ _ => rfl⟩

def Worded (fund : InsuranceFund) : Prop := fund.balance < 2 ^ 128 ∧ fund.totalPayouts < 2 ^ 128

theorem paidFund_payouts (worded : Worded fund) :
    (paidFund fund amounts).totalPayouts = fund.totalPayouts ↔ fundUsage fund amounts = 0 := by
  unfold paidFund fundUsage InsuranceFund.pay addWrap
  obtain ⟨balance,payouts⟩ := worded
  split
  · dsimp only
    omega
  · exact ⟨fun _ => rfl,fun _ => rfl⟩

theorem paidFund_of_unused (worded : Worded fund) (unused : fundUsage fund amounts = 0) : paidFund fund amounts = fund := by
  unfold paidFund
  split
  · rw [unused,InsuranceFund.pay,Nat.sub_zero,addWrap_of_lt worded.2,Nat.add_zero]
  · rfl

theorem fund_left (liquidator : Address) (market : Market) (position : Position) (size : Nat) (amounts : LiquidationAmounts)
    (worded : Worded (e.liquidation.insuranceFunds marketId)) :
    leftFund e marketId liquidator market position size amounts = e.liquidation.insuranceFunds marketId ↔
      fundUsage (e.liquidation.insuranceFunds marketId) amounts = 0 ∧
        (Seizes position size → Rewards e liquidator market amounts →
          Contributes (e.liquidation.insuranceFunds marketId) amounts → amounts.contribution = 0) := by
  unfold leftFund
  dsimp only
  by_cases all : Seizes position size ∧ Rewards e liquidator market amounts ∧
      Contributes (e.liquidation.insuranceFunds marketId) amounts
  · rw [if_pos all]
    constructor
    · intro same
      have payouts := congrArg InsuranceFund.totalPayouts same
      have unused := (paidFund_payouts worded).mp payouts
      have balance := congrArg InsuranceFund.balance same
      dsimp only at balance
      rw [paidFund_balance,unused] at balance
      refine ⟨unused,fun _ _ _ => ?_⟩
      omega
    · intro kept
      rw [paidFund_of_unused worded kept.1,kept.2 all.1 all.2.1 all.2.2,Nat.add_zero,Nat.add_zero,ite_self]
  · rw [if_neg all]
    constructor
    · intro same
      refine ⟨(paidFund_payouts worded).mp (congrArg InsuranceFund.totalPayouts same),fun seizes rewards contributes => ?_⟩
      exact absurd ⟨seizes,rewards,contributes⟩ all
    · intro kept
      exact paidFund_of_unused worded kept.1

end Left

section Cancelled

def Idle (s : StateManager) (trader : Address) (listed : List Nat) : Prop :=
  ∀ orderId ∈ listed, ∀ order, s.getOrder orderId = some order → order.owner = trader → order.status ≠ .active

theorem cancelListedOrders_idle {listed : List Nat} (idle : Idle e.state trader listed) :
    exec (cancelListedOrders trader marketId listed) e = (.ok [],e) := by
  induction listed with
  | nil => rfl
  | cons orderId rest ih =>
    have later := ih fun other inside => idle other (List.mem_cons_of_mem _ inside)
    rw [cancelListedOrders,exec_reads_bind]
    cases found : e.state.getOrder orderId with
    | none => exact later
    | some order =>
      dsimp only
      rw [if_neg fun own => idle orderId List.mem_cons_self order found own.1 own.2]
      exact later

theorem cancelListedOrders_ended {listed : List Nat} (found : e.state.getOrder orderId = some order)
    (ended : order.status ≠ .active) :
    (exec (cancelListedOrders trader marketId listed) e).2.state.getOrder orderId = some order := by
  induction listed generalizing e with
  | nil => exact found
  | cons first rest ih =>
    rw [cancelListedOrders,exec_reads_bind]
    cases present : e.state.getOrder first with
    | none => exact ih found
    | some other =>
      dsimp only
      split
      · rename_i own
        rw [exec_writes_bind,exec_writes_bind,exec_bind_pure_state]
        apply ih
        rw [StateManager.getOrder_removeActiveOrder,StateManager.getOrder_setOrder]
        split
        · rename_i same
          rw [same,present] at found
          cases found
          exact absurd own.2 ended
        · exact found
      · exact ih found

theorem cancelListedOrders_hits {listed : List Nat} (marketId : Nat) (inside : orderId ∈ listed)
    (found : e.state.getOrder orderId = some order) (own : order.owner = trader) (active : order.status = .active) :
    (exec (cancelListedOrders trader marketId listed) e).2.state.getOrder orderId ≠ some order := by
  induction listed generalizing e with
  | nil => cases inside
  | cons first rest ih =>
    rw [cancelListedOrders,exec_reads_bind]
    by_cases same : orderId = first
    · subst same
      rw [found]
      dsimp only
      rw [if_pos ⟨own,active⟩,exec_writes_bind,exec_writes_bind,exec_bind_pure_state]
      have cancelled : ((e.state.setOrder orderId {order with status:=.cancelled}).removeActiveOrder marketId
          orderId).getOrder orderId = some {order with status:=.cancelled} := by
        rw [StateManager.getOrder_removeActiveOrder,StateManager.getOrder_setOrder,if_pos rfl]
      have ended : ∀ next : Engine, next.state.getOrder orderId = some {order with status:=.cancelled} →
          (exec (cancelListedOrders trader marketId rest) next).2.state.getOrder orderId =
            some {order with status:=.cancelled} := fun next found => cancelListedOrders_ended found (by simp)
      intro same
      rw [ended _ (by exact cancelled)] at same
      have statuses : OrderStatus.cancelled = order.status := congrArg Order.status (Option.some.inj same)
      rw [active] at statuses
      cases statuses
    · have inside : orderId ∈ rest := (List.mem_cons.mp inside).resolve_left same
      cases present : e.state.getOrder first with
      | none => exact ih inside found
      | some other =>
        dsimp only
        split
        · rw [exec_writes_bind,exec_writes_bind,exec_bind_pure_state]
          apply ih inside
          rw [StateManager.getOrder_removeActiveOrder,StateManager.getOrder_setOrder,if_neg same]
          exact found
        · exact ih inside found

end Cancelled

structure Traceless (e : Engine) (trader : Address) (marketId : Nat) (liquidator : Address) (market : Market)
    (position : Position) (size : Nat) (amounts : LiquidationAmounts) : Prop where
  draws : fundUsage (e.liquidation.insuranceFunds marketId) amounts = 0
  seizes : Seizes position size →
    if position.size ≤ size then e.state.committed (.position trader marketId) = some position else size = 0
  rewards : Seizes position size → Rewards e liquidator market amounts → amounts.reward = 0
  contributes : Seizes position size → Rewards e liquidator market amounts →
    Contributes (e.liquidation.insuranceFunds marketId) amounts → amounts.contribution = 0

structure Harmless (e : Engine) (trader : Address) (marketId price : Nat) (liquidator : Address) (market : Market)
    (position : Position) : Prop where
  idle : Idle e.state trader (e.state.getActiveOrdersByMarket marketId)
  settles : ∀ size amounts, reckon e.liquidation position market price = .ok (size,amounts) →
    Traceless e trader marketId liquidator market position size amounts

section Whole

theorem held_of_due (due : shouldLiquidate s trader marketId price market = .ok true) :
    ∃ position, s.getPosition trader marketId = some position ∧ position.size ≠ 0 := by
  unfold shouldLiquidate at due
  split at due
  · cases due
  · rename_i position found
    split at due
    · cases due
    · rename_i held
      exact ⟨position,found,held⟩

theorem settlement_unmoved_iff (worded : Worded (e.liquidation.insuranceFunds marketId))
    (found : e.state.getPosition trader marketId = some position) (held : position.size ≠ 0)
    (failed : exec (settleLiquidation trader marketId price liquidator market) e = (.error error,after)) :
    Unmoved e after ↔ ∀ size amounts, reckon e.liquidation position market price = .ok (size,amounts) →
      Traceless e trader marketId liquidator market position size amounts := by
  have quiet := quiets_settleLiquidation StateKey.ofOrders_unbalanced StateKey.ofOrders_spared trader marketId
    price liquidator market e
  rw [failed] at quiet
  rw [settleLiquidation_exec found] at failed
  cases reckoned : reckon e.liquidation position market price with
  | error error =>
    rw [reckoned] at failed
    cases failed
    refine iff_of_true ?_ (fun _ _ nothing => nomatch nothing)
    exact ⟨⟨fun _ => rfl,fun _ _ => rfl,fun _ _ => rfl,fun _ => rfl,fun _ => rfl⟩,fun _ => rfl⟩
  | ok computed =>
  obtain ⟨size,amounts⟩ := computed
  rw [reckoned] at failed
  obtain ⟨state,funds⟩ := distribute_broken held failed
  have balances := balances_left e trader marketId liquidator market position size amounts
  have positions := positions_left liquidator market size amounts found
  have fund := fund_left liquidator market position size amounts worded
  rw [← state] at balances positions
  constructor
  · rintro unmoved _ _ ⟨⟩
    have own := unmoved.funds marketId
    rw [funds,Function.update_self] at own
    exact ⟨(fund.mp own).1,positions.mp unmoved.positions,balances.mp unmoved.balances,(fund.mp own).2⟩
  · intro harmless
    obtain ⟨draws,seizes,rewards,contributes⟩ := harmless size amounts rfl
    refine ⟨⟨fun orderId => ?_,positions.mpr seizes,balances.mpr rewards,fun listed => ?_,fun slot => ?_⟩,fun read => ?_⟩
    · exact quiet.reads.getOrder rfl
    · exact quiet.reads.getActiveOrdersByMarket rfl
    · rw [quiet.orderbook]
    · rw [funds,fund.mpr ⟨draws,contributes⟩,Function.update_eq_self]

-- A liquidation that fails leaves no trace exactly if it fails before the first write, or
-- if no write up to the failing check made a difference.
theorem failed_unmoved_iff (worded : Worded (e.liquidation.insuranceFunds marketId))
    (failed : exec (liquidateWithIncentive trader marketId markPrice liquidator) e = (.error error,after)) :
    Unmoved e after ↔ ∀ market position, markPrice ≠ 0 → e.state.getMarket marketId = some market →
      e.state.getPosition trader marketId = some position →
      shouldLiquidate e.state trader marketId (market.normalizePrice markPrice) market = .ok true →
      Harmless e trader marketId (market.normalizePrice markPrice) liquidator market position := by
  have course := liquidateWithIncentive_liquidation failed
  generalize outcome : (Except.error error : Except EngineError (Option LiquidationResult)) = result at course
  cases course with
  | refused error undue =>
    refine iff_of_true ⟨⟨fun _ => rfl,fun _ _ => rfl,fun _ _ => rfl,fun _ => rfl,fun _ => rfl⟩,fun _ => rfl⟩ ?_
    intro market _ priced registered _ risky
    exact absurd risky (undue priced market registered)
  | spared registered safe => cases outcome
  | due priced registered risky settled =>
    rename_i market result
    cases result with
    | ok result => cases outcome
    | error error =>
    obtain ⟨position,found,held⟩ := held_of_due risky
    have harmless : (∀ market position, markPrice ≠ 0 → e.state.getMarket marketId = some market →
        e.state.getPosition trader marketId = some position →
        shouldLiquidate e.state trader marketId (market.normalizePrice markPrice) market = .ok true →
        Harmless e trader marketId (market.normalizePrice markPrice) liquidator market position) ↔
          Harmless e trader marketId (market.normalizePrice markPrice) liquidator market position := by
      constructor
      · intro all
        exact all market position priced registered found risky
      · intro here other another _ present stored _
        rw [registered] at present
        rw [found] at stored
        cases present
        cases stored
        exact here
    rw [harmless]
    by_cases idle : Idle e.state trader (e.state.getActiveOrdersByMarket marketId)
    · have same : withdrawn e trader marketId = e := by
        rw [withdrawn,cancelTraderOrders,exec_reads_bind,cancelListedOrders_idle idle]
      rw [same] at settled
      rw [settlement_unmoved_iff worded found held settled]
      exact ⟨fun settles => ⟨idle,settles⟩,fun here => here.settles⟩
    · refine iff_of_false (fun unmoved => ?_) fun here => idle here.idle
      have quiet := quiets_settleLiquidation StateKey.ofOrders_unbalanced StateKey.ofOrders_spared trader marketId
        (market.normalizePrice markPrice) liquidator market (withdrawn e trader marketId)
      rw [settled] at quiet
      apply idle
      intro orderId inside order present own active
      apply cancelListedOrders_hits marketId inside present own active
      have kept : after.state.getOrder orderId = (withdrawn e trader marketId).state.getOrder orderId :=
        quiet.reads.getOrder rfl
      exact kept.symm.trans ((unmoved.orders orderId).trans present)

end Whole

def brimming : Engine :=
  (Engine.new ((Bench.state.setPosition Bench.alice 0 ⟨10000,100,true,100000,0⟩).setBalance Bench.carol 0
    (2 ^ 128 - 1))).run [.placeOrder Bench.alice (Bench.limit true 45 2 .gtc)]

def overpaid : Engine := (exec (liquidateWithIncentive Bench.alice 0 92 Bench.carol) brimming).2

theorem brimming_fails : (exec (liquidateWithIncentive Bench.alice 0 92 Bench.carol) brimming).1 = .error .overflow := by
  decide +kernel

theorem failed_liquidation_seizes :
    (exec (liquidateWithIncentive Bench.alice 0 92 Bench.carol) brimming).1 = .error .overflow ∧
      (brimming.state.getOrder 0).map Order.status = some .active ∧
      (overpaid.state.getOrder 0).map Order.status = some .cancelled ∧
      brimming.state.getPosition Bench.alice 0 ≠ overpaid.state.getPosition Bench.alice 0 ∧
      ¬Unmoved brimming overpaid := by
  have moved : brimming.state.getPosition Bench.alice 0 ≠ overpaid.state.getPosition Bench.alice 0 := by decide +kernel
  refine ⟨brimming_fails,by decide +kernel,by decide +kernel,moved,?_⟩
  intro unmoved
  exact moved (unmoved.positions Bench.alice 0).symm

theorem failed_unmoved_on_bench :
    Unmoved brimming overpaid ↔ ∀ market position, 92 ≠ 0 → brimming.state.getMarket 0 = some market →
      brimming.state.getPosition Bench.alice 0 = some position →
      shouldLiquidate brimming.state Bench.alice 0 (market.normalizePrice 92) market = .ok true →
      Harmless brimming Bench.alice 0 (market.normalizePrice 92) Bench.carol market position :=
  failed_unmoved_iff ⟨by decide +kernel,by decide +kernel⟩ (exec_of_result brimming_fails)

end Interrupted
end Pranklin
