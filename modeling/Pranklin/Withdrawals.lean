import Pranklin.Atomicity
import Pranklin.Frame
import Pranklin.Supply
import Mathlib.Algebra.BigOperators.Group.Finset.Piecewise

namespace Pranklin
open Words Effect TransactionExecutor AccountService

inductive Outflow where
  | withdraw (request : WithdrawTx)
  | transfer (request : TransferTx)

namespace Outflow

def assetId : Outflow → Nat
  | withdraw request => request.assetId
  | transfer request => request.assetId

def amount : Outflow → Nat
  | withdraw request => request.amount
  | transfer request => request.amount

def process (sender : Address) : Outflow → EngineM Unit
  | withdraw request => AccountService.withdraw sender request
  | transfer request => AccountService.transfer sender request

end Outflow

namespace StateManager

def marginIn (s : StateManager) (account : Address) (assetId marketId : Nat) : Nat :=
  match s.getMarket marketId,s.getPosition account marketId with
  | some market,some position => if market.quoteAssetId = assetId then position.margin else 0
  | _,_ => 0

def lockedMargin (s : StateManager) (account : Address) (assetId : Nat) : Nat :=
  ∑ marketId ∈ Finset.range (2 ^ 32), s.marginIn account assetId marketId

def CoversMargin (s : StateManager) (account : Address) (assetId : Nat) : Prop :=
  s.lockedMargin account assetId ≤ s.getBalance account assetId

end StateManager

namespace Withdrawals
variable {e after : Engine} {s : StateManager} {sender account : Address} {assetId : Nat} {outflow : Outflow}

theorem lockedMargin_setBalance (s : StateManager) (address : Address) (read amount : Nat) (account : Address)
    (assetId : Nat) : (s.setBalance address read amount).lockedMargin account assetId = s.lockedMargin account assetId := by
  refine Finset.sum_congr rfl fun marketId _ => ?_
  have market : (s.setBalance address read amount).getMarket marketId = s.getMarket marketId :=
    StateManager.get_set_ne _ _ (by simp)
  have position : (s.setBalance address read amount).getPosition account marketId = s.getPosition account marketId :=
    StateManager.get_set_ne _ _ (by simp)
  rw [StateManager.marginIn,market,position,StateManager.marginIn]

structure Paid (e : Engine) (sender : Address) (assetId amount : Nat) (after : Engine) : Prop where
  covered : amount ≤ e.state.getBalance sender assetId
  debited : after.state.getBalance sender assetId = e.state.getBalance sender assetId - amount
  others : ∀ account, account ≠ sender → e.state.getBalance account assetId ≤ after.state.getBalance account assetId
  locked : ∀ account, after.state.lockedMargin account assetId = e.state.lockedMargin account assetId

theorem withdraw_paid {request : WithdrawTx} (ran : exec (withdraw sender request) e = (.ok (),after)) :
    Paid e sender request.assetId request.amount after := by
  rw [withdraw,updateBalance,exec_reads_bind] at ran
  obtain ⟨balance,computed,ran⟩ := exec_tries_ok ran
  rw [exec_writes_bind] at ran
  cases ran
  unfold newBalance at computed
  rw [if_neg Bool.false_ne_true] at computed
  split at computed
  · cases computed
  cases computed
  refine ⟨by omega,?_,fun account other => ?_,fun account => lockedMargin_setBalance ..⟩
  · dsimp only
    rw [Supply.getBalance_setBalance,if_pos ⟨rfl,rfl⟩]
  · dsimp only
    rw [Supply.getBalance_setBalance,if_neg fun same => other same.1]

theorem transfer_paid {request : TransferTx} (ran : exec (transfer sender request) e = (.ok (),after)) :
    Paid e sender request.assetId request.amount after := by
  have transfers := Supply.transfer_transfers sender request e
  rw [ran] at transfers
  cases transfers with
  | arrived passes small context =>
    refine ⟨passes.2.2,?_,fun account other => ?_,fun account => ?_⟩
    · dsimp only [Supply.credited,Supply.debited]
      rw [Supply.getBalance_setBalance,if_neg fun same => passes.1 same.1,Supply.getBalance_setBalance,if_pos ⟨rfl,rfl⟩]
    · dsimp only [Supply.credited,Supply.debited]
      rw [Supply.getBalance_setBalance]
      split
      · rename_i recipient
        rw [recipient.1]
        exact Nat.le_add_right _ _
      · rw [Supply.getBalance_setBalance,if_neg fun same => other same.1]
    · dsimp only [Supply.credited,Supply.debited]
      rw [lockedMargin_setBalance,lockedMargin_setBalance]

theorem outflow_paid (ran : exec (outflow.process sender) e = (.ok (),after)) :
    Paid e sender outflow.assetId outflow.amount after := by
  cases outflow with
  | withdraw request => exact withdraw_paid ran
  | transfer request => exact transfer_paid ran

-- The guard of the risk engine, which no caller asks, lets any amount pass that the balance covers.
theorem checkWithdrawAllowed_ok (state : StateManager) (trader : Address) (assetId amount : Nat) :
    RiskEngine.checkWithdrawAllowed state trader assetId amount = .ok () ↔ amount ≤ state.getBalance trader assetId := by
  unfold RiskEngine.checkWithdrawAllowed RiskEngine.calculateTotalLockedMargin
  dsimp only
  split
  · rename_i short
    simp only [throw,throwThe,MonadExceptOf.throw,reduceCtorEq,false_iff]
    omega
  · rename_i covered
    have room : ¬state.getBalance trader assetId - 0 < amount := by omega
    simp only [pure_bind,if_neg room]
    exact ⟨fun _ => by omega,fun _ => rfl⟩

theorem margin_stays_covered_iff (ran : exec (outflow.process sender) e = (.ok (),after)) :
    (∀ account, e.state.CoversMargin account outflow.assetId → after.state.CoversMargin account outflow.assetId) ↔
      (e.state.CoversMargin sender outflow.assetId →
        outflow.amount + e.state.lockedMargin sender outflow.assetId ≤ e.state.getBalance sender outflow.assetId) := by
  have paid := outflow_paid ran
  have covered := paid.covered
  unfold StateManager.CoversMargin
  constructor
  · intro stays before
    have left := stays sender before
    rw [paid.locked,paid.debited] at left
    omega
  · intro room account before
    rw [paid.locked]
    by_cases own : account = sender
    · subst own
      rw [paid.debited]
      have left := room before
      omega
    · exact before.trans (paid.others account own)

theorem lockedMargin_of_single (position : Position) (single : ∀ marketId, marketId ≠ 0 → s.getMarket marketId = none)
    (registered : s.getMarket 0 = some Bench.market) (found : s.getPosition account 0 = some position) :
    s.lockedMargin account 0 = position.margin := by
  unfold StateManager.lockedMargin
  rw [Finset.sum_eq_single_of_mem 0 (Finset.mem_range.mpr (Nat.two_pow_pos 32))]
  · rw [StateManager.marginIn,registered,found]
    rfl
  · intro marketId _ other
    rw [StateManager.marginIn,single marketId other]

def bought : Engine := (Engine.new Bench.state).run [.placeOrder Bench.alice Bench.ask,.placeOrder Bench.bob Bench.bid]

theorem bought_reachable : Reachable bought := Atomicity.reachable_run (.start Bench.noOrders) _

theorem bench_single (marketId : Nat) (other : marketId ≠ 0) : Bench.state.getMarket marketId = none := by
  have own : decide (StateKey.market 0 = .market marketId) = false := by simpa using Ne.symm other
  have spared : StateManager.Agree (· = .market marketId) Bench.fresh Bench.state :=
    ((((StateManager.Agree.refl _ Bench.fresh).setMarket own (by simp)).set (by simp)).set (by simp)).set (by simp)
  have empty : Bench.fresh.getMarket marketId = none := Storage.Db.getValueOption_empty 0 (StateKey.market marketId)
  exact (spared (.market marketId) (by simp)).trans empty

theorem bought_single (marketId : Nat) (other : marketId ≠ 0) : bought.state.getMarket marketId = none := by
  have kept : StateManager.Spared (Engine.new Bench.state).state bought.state := Frame.run_spared _ _
  exact (kept (.market marketId) rfl).trans (bench_single marketId other)

theorem bought_locked : bought.state.lockedMargin Bench.bob 0 = 50 :=
  lockedMargin_of_single ⟨5,100,true,50,0⟩ bought_single (by decide +kernel) (by decide +kernel)

def emptying : Outflow := .withdraw ⟨2 ^ 100,0,Bench.bob⟩

theorem margin_withdrawn :
    Reachable bought ∧ (exec (emptying.process Bench.bob) bought).1 = .ok () ∧
      bought.state.CoversMargin Bench.bob 0 ∧
      ¬(exec (emptying.process Bench.bob) bought).2.state.CoversMargin Bench.bob 0 ∧
      RiskEngine.checkWithdrawAllowed bought.state Bench.bob 0 (2 ^ 100) = .ok () := by
  have done : (exec (emptying.process Bench.bob) bought).1 = .ok () := by decide +kernel
  have paid : Paid bought Bench.bob 0 (2 ^ 100) (exec (emptying.process Bench.bob) bought).2 :=
    outflow_paid (exec_of_result done)
  have balance : bought.state.getBalance Bench.bob 0 = 2 ^ 100 := by decide +kernel
  refine ⟨bought_reachable,done,?_,fun covers => ?_,(checkWithdrawAllowed_ok _ _ _ _).mpr balance.ge⟩
  · rw [StateManager.CoversMargin,bought_locked,balance]
    decide
  · rw [StateManager.CoversMargin,paid.locked,paid.debited,bought_locked,balance] at covers
    omega

theorem margin_stays_covered_on_bench :
    let after := (exec (emptying.process Bench.bob) bought).2
    (∀ account, bought.state.CoversMargin account emptying.assetId → after.state.CoversMargin account emptying.assetId) ↔
      (bought.state.CoversMargin Bench.bob emptying.assetId → emptying.amount + bought.state.lockedMargin Bench.bob emptying.assetId ≤
        bought.state.getBalance Bench.bob emptying.assetId) := by
  have done : (exec (emptying.process Bench.bob) bought).1 = .ok () := by decide +kernel
  exact margin_stays_covered_iff (exec_of_result done)

end Withdrawals
end Pranklin
