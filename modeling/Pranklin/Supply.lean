import Mathlib.Algebra.BigOperators.Group.Finset.Piecewise
import Mathlib.Algebra.BigOperators.Ring.Finset
import Pranklin.Executor

namespace Pranklin
open Words Effect AccountService

inductive AccountCall where
  | deposit (sender : Address) (request : DepositTx)
  | withdraw (sender : Address) (request : WithdrawTx)
  | transfer (sender : Address) (request : TransferTx)
  | bridgeDeposit (operator : Address) (request : BridgeDepositTx)
  | bridgeWithdraw (operator : Address) (request : BridgeWithdrawTx)

namespace AccountCall

def perform : AccountCall → EngineM Unit
  | .deposit sender request => AccountService.deposit sender request
  | .withdraw sender request => AccountService.withdraw sender request
  | .transfer sender request => AccountService.transfer sender request
  | .bridgeDeposit operator request => AccountService.bridgeDeposit operator request
  | .bridgeWithdraw operator request => AccountService.bridgeWithdraw operator request

def succeeds (e : Engine) (call : AccountCall) : Bool := (exec call.perform e).1.isOk

def after (e : Engine) (call : AccountCall) : Engine := (exec call.perform e).2

def issues (assetId : Nat) : AccountCall → Int
  | .deposit _ request => if request.assetId = assetId then request.amount else 0
  | .withdraw _ request => if request.assetId = assetId then -request.amount else 0
  | .transfer _ _ => 0
  | .bridgeDeposit _ request => if request.assetId = assetId then request.amount else 0
  | .bridgeWithdraw _ request => if request.assetId = assetId then -request.amount else 0

-- A transfer of the asset passes every check up to the debit, and the credit leaves the word.
def Drains (e : Engine) (assetId : Nat) : AccountCall → Prop
  | .transfer sender request => request.assetId = assetId ∧ sender ≠ request.recipient ∧
    (e.state.getAsset assetId).any (·.isCollateral) ∧
    request.amount ≤ e.state.getBalance sender assetId ∧
    2 ^ 128 ≤ e.state.getBalance request.recipient assetId + request.amount
  | _ => False

instance (e : Engine) (assetId : Nat) : (call : AccountCall) → Decidable (call.Drains e assetId)
  | .transfer _ _ => inferInstanceAs (Decidable (_ ∧ _ ∧ _ ∧ _ ∧ _))
  | .deposit _ _ | .withdraw _ _ | .bridgeDeposit _ _ | .bridgeWithdraw _ _ => inferInstanceAs (Decidable False)

def loss (e : Engine) (assetId : Nat) (call : AccountCall) : Nat :=
  match call with
  | .transfer _ request => if call.Drains e assetId then request.amount else 0
  | _ => 0

end AccountCall

namespace Engine

def runAccounts (e : Engine) (calls : List AccountCall) : Engine := calls.foldl AccountCall.after e

def netIssued (e : Engine) (assetId : Nat) : List AccountCall → Int
  | [] => 0
  | call :: calls => (if call.succeeds e then call.issues assetId else 0) + (call.after e).netIssued assetId calls

def lost (e : Engine) (assetId : Nat) : List AccountCall → Nat
  | [] => 0
  | call :: calls => call.loss e assetId + (call.after e).lost assetId calls

def supply (e : Engine) (assetId : Nat) : Nat := ∑ address : Address, e.state.getBalance address assetId

def BalancesFit (e : Engine) : Prop := ∀ address assetId, e.state.getBalance address assetId < 2 ^ 128

end Engine

namespace Supply
variable {e after : Engine} {result : Except EngineError Unit}

theorem getBalance_setBalance (s : StateManager) (address : Address) (assetId amount : Nat) (owner : Address) (read : Nat) :
    (s.setBalance address assetId amount).getBalance owner read =
      if owner = address ∧ read = assetId then amount else s.getBalance owner read := by
  unfold StateManager.getBalance StateManager.setBalance
  split
  · rename_i same
    obtain ⟨rfl,rfl⟩ := same
    rw [StateManager.get_set_self]
    rfl
  · rename_i other
    rw [StateManager.get_set_ne]
    simpa using fun same => by simpa [same] using other

theorem sum_setBalance (s : StateManager) (address : Address) (assetId amount read : Nat) :
    (∑ owner : Address, (s.setBalance address assetId amount).getBalance owner read : Int) =
      (∑ owner : Address, s.getBalance owner read : Int) +
        (if read = assetId then (amount : Int) - s.getBalance address assetId else 0) := by
  by_cases same : read = assetId
  · subst same
    have split : ∀ owner : Address, ((s.setBalance address read amount).getBalance owner read : Int) =
        s.getBalance owner read + (if owner = address then (amount : Int) - s.getBalance address read else 0) := by
      intro owner
      rw [getBalance_setBalance]
      by_cases own : owner = address
      · subst own; simp
      · simp [own]
    rw [Finset.sum_congr rfl fun owner _ => split owner,Finset.sum_add_distrib,Finset.sum_ite_eq']
    simp
  · simp [getBalance_setBalance,same]

inductive Rewrites (e : Engine) (address : Address) (assetId : Nat) (change : Int) :
    Except EngineError Unit → Engine → Prop where
  | refused (error : EngineError) : Rewrites e address assetId change (.error error) e
  | written (balance : Nat) (exact_ : (balance : Int) = e.state.getBalance address assetId + change) (fits : balance < 2 ^ 128)
      (context : List Event) : Rewrites e address assetId change (.ok ())
        {e with state:=e.state.setBalance address assetId balance,context:=context}

theorem newBalance_exact (word : oldBalance < 2 ^ 128) (computed : newBalance oldBalance amount isCredit = .ok balance) :
    (balance : Int) = oldBalance + (if isCredit then (amount : Int) else -amount) ∧ balance < 2 ^ 128 := by
  unfold newBalance at computed
  split at computed
  · rename_i credit
    obtain ⟨small,rfl⟩ := checkedAdd_eq_some.mp (orOverflow_eq_ok.mp computed)
    exact ⟨by simp [credit],small⟩
  · rename_i debit
    split at computed
    · cases computed
    · cases computed
      refine ⟨?_,by omega⟩
      rw [if_neg debit]
      omega

theorem updateBalance_ran (e : Engine) (address : Address) (assetId amount : Nat) (isCredit : Bool) (reason : BalanceChangeReason) :
    (∃ error, exec (updateBalance address assetId amount isCredit reason) e = (.error error,e)) ∨
      ∃ balance context, newBalance (e.state.getBalance address assetId) amount isCredit = .ok balance ∧
        exec (updateBalance address assetId amount isCredit reason) e =
          (.ok (),{e with state:=e.state.setBalance address assetId balance,context:=context}) := by
  rw [updateBalance,exec_reads_bind]
  rw [exec_bind,exec_tries]
  cases newBalance (e.state.getBalance address assetId) amount isCredit with
  | error error => exact .inl ⟨error,rfl⟩
  | ok balance => exact .inr ⟨balance,_,rfl,rfl⟩

theorem updateBalance_rewrites (fits : e.BalancesFit) (address : Address) (assetId amount : Nat) (isCredit : Bool)
    (reason : BalanceChangeReason) :
    Rewrites e address assetId (if isCredit then amount else -amount)
      (exec (updateBalance address assetId amount isCredit reason) e).1
      (exec (updateBalance address assetId amount isCredit reason) e).2 := by
  obtain ⟨error,failed⟩ | ⟨balance,context,computed,ran⟩ := updateBalance_ran e address assetId amount isCredit reason
  · rw [failed]
    exact .refused error
  · obtain ⟨exact_,small⟩ := newBalance_exact (fits address assetId) computed
    rw [ran]
    exact .written balance exact_ small context

def Bridges (e : Engine) (operator : Address) (assetId : Nat) : Prop :=
  e.state.isBridgeOperator operator = true ∧ (e.state.getAsset assetId).isSome = true

instance (e : Engine) (operator : Address) (assetId : Nat) : Decidable (Bridges e operator assetId) :=
  inferInstanceAs (Decidable (_ ∧ _))

theorem checkBridge_passes (bridges : Bridges e operator assetId) : exec (checkBridge operator assetId) e = (.ok (),e) := by
  obtain ⟨asset,found⟩ := Option.isSome_iff_exists.mp bridges.2
  rw [checkBridge,exec_reads_bind]
  rw [bridges.1,if_neg (by decide),exec_reads_bind]
  rw [found]
  rfl

theorem checkBridge_refuses (outside : ¬Bridges e operator assetId) :
    ∃ error, exec (checkBridge operator assetId) e = (.error error,e) := by
  rw [checkBridge,exec_reads_bind]
  cases authorized : e.state.isBridgeOperator operator with
  | false => exact ⟨_,rfl⟩
  | true =>
    rw [if_neg (by decide),exec_reads_bind]
    cases found : e.state.getAsset assetId with
    | none => exact ⟨_,rfl⟩
    | some asset => exact absurd ⟨authorized,by rw [found]; rfl⟩ outside

theorem bridgeDeposit_refused (outside : ¬Bridges e operator request.assetId) :
    ∃ error, exec (bridgeDeposit operator request) e = (.error error,e) := by
  obtain ⟨error,failed⟩ := checkBridge_refuses outside
  rw [bridgeDeposit,exec_error_bind failed]
  exact ⟨error,rfl⟩

theorem bridgeWithdraw_refused (outside : ¬Bridges e operator request.assetId) :
    ∃ error, exec (bridgeWithdraw operator request) e = (.error error,e) := by
  obtain ⟨error,failed⟩ := checkBridge_refuses outside
  rw [bridgeWithdraw,exec_error_bind failed]
  exact ⟨error,rfl⟩

theorem bridgeDeposit_rewrites (operator : Address) (request : BridgeDepositTx) (e : Engine) :
    Rewrites e request.user request.assetId request.amount (exec (bridgeDeposit operator request) e).1
      (exec (bridgeDeposit operator request) e).2 := by
  by_cases bridges : Bridges e operator request.assetId
  case neg =>
    obtain ⟨error,failed⟩ := bridgeDeposit_refused bridges
    rw [failed]
    exact .refused error
  rw [bridgeDeposit,exec_ok_bind (checkBridge_passes bridges),exec_reads_bind,exec_bind]
  cases checked : checkedAdd 128 (e.state.getBalance request.user request.assetId) request.amount with
  | none => exact .refused _
  | some balance =>
    obtain ⟨small,rfl⟩ := checkedAdd_eq_some.mp checked
    exact .written _ (by simp) small _

theorem bridgeWithdraw_rewrites (fits : e.BalancesFit) (operator : Address) (request : BridgeWithdrawTx) :
    Rewrites e request.user request.assetId (-request.amount) (exec (bridgeWithdraw operator request) e).1
      (exec (bridgeWithdraw operator request) e).2 := by
  have word := fits request.user request.assetId
  by_cases bridges : Bridges e operator request.assetId
  case neg =>
    obtain ⟨error,failed⟩ := bridgeWithdraw_refused bridges
    rw [failed]
    exact .refused error
  rw [bridgeWithdraw,exec_ok_bind (checkBridge_passes bridges),exec_reads_bind]
  split
  · exact .refused _
  · exact .written _ (by omega) (by omega) _

def debited (s : StateManager) (sender : Address) (request : TransferTx) : StateManager :=
  s.setBalance sender request.assetId (s.getBalance sender request.assetId - request.amount)

def credited (s : StateManager) (sender : Address) (request : TransferTx) : StateManager :=
  (debited s sender request).setBalance request.recipient request.assetId
    (s.getBalance request.recipient request.assetId + request.amount)

def Transferable (e : Engine) (sender : Address) (request : TransferTx) : Prop :=
  sender ≠ request.recipient ∧ (e.state.getAsset request.assetId).any (·.isCollateral) ∧
    request.amount ≤ e.state.getBalance sender request.assetId

-- A transfer that is refused, that loses its amount on the way, or that arrives.
inductive Transfers (e : Engine) (sender : Address) (request : TransferTx) : Except EngineError Unit → Engine → Prop where
  | refused (error : EngineError) (refuses : ¬Transferable e sender request) : Transfers e sender request (.error error) e
  | drained (passes : Transferable e sender request)
      (exceeds : 2 ^ 128 ≤ e.state.getBalance request.recipient request.assetId + request.amount) :
      Transfers e sender request (.error .overflow) {e with state:=debited e.state sender request}
  | arrived (passes : Transferable e sender request)
      (small : e.state.getBalance request.recipient request.assetId + request.amount < 2 ^ 128) (context : List Event) :
      Transfers e sender request (.ok ()) {e with state:=credited e.state sender request,context:=context}

theorem transfer_transfers (sender : Address) (request : TransferTx) (e : Engine) :
    Transfers e sender request (exec (transfer sender request) e).1 (exec (transfer sender request) e).2 := by
  unfold transfer
  split
  · rename_i self
    exact .refused _ fun passes => passes.1 self
  rename_i apart
  rw [exec_reads_bind]
  rw [exec_bind]
  cases found : e.state.getAsset request.assetId with
  | none => exact .refused _ fun passes => by simpa [found] using passes.2.1
  | some asset =>
  rw [exec_orThrow_some]
  dsimp only
  split
  · rename_i locked
    exact .refused _ fun passes => by simp at locked; simpa [found,locked] using passes.2.1
  rename_i collateral
  rw [exec_reads_bind]
  split
  · rename_i short
    exact .refused _ fun passes => Nat.not_lt.mpr passes.2.2 short
  rename_i covered
  have passes : Transferable e sender request := ⟨apart,by simpa [found] using collateral,Nat.le_of_not_lt covered⟩
  have recipient : ∀ balance, (e.state.setBalance sender request.assetId balance).getBalance request.recipient
      request.assetId = e.state.getBalance request.recipient request.assetId := fun balance => by
    rw [getBalance_setBalance,if_neg fun same => apart same.1.symm]
  rw [exec_writes_bind]
  rw [exec_reads_bind]
  rw [recipient,exec_bind]
  cases checked : checkedAdd 128 (e.state.getBalance request.recipient request.assetId) request.amount with
  | none =>
    refine .drained passes ?_
    unfold checkedAdd at checked
    split at checked
    · cases checked
    · omega
  | some balance =>
    obtain ⟨small,rfl⟩ := checkedAdd_eq_some.mp checked
    exact .arrived passes small _

theorem setBalance_fits (fits : e.BalancesFit) (small : balance < 2 ^ 128) (address : Address) (assetId : Nat)
    (context : List Event) :
    Engine.BalancesFit {e with state:=e.state.setBalance address assetId balance,context:=context} := by
  intro owner read
  dsimp only
  rw [getBalance_setBalance]
  split
  · exact small
  · exact fits owner read

structure Accounts (e : Engine) (assetId : Nat) (succeeded : Bool) (amount : Int) (lost : Nat) (after : Engine) : Prop where
  supply : (after.supply assetId : Int) = e.supply assetId + (if succeeded then amount else 0) - lost
  fits : after.BalancesFit

theorem supply_same (e : Engine) (assetId : Nat) : (e.supply assetId : Int) = e.supply assetId + 0 - (0 : Nat) := by omega

theorem Rewrites.accounts (fits : e.BalancesFit) (rewrites : Rewrites e address assetId change result after) (read : Nat) :
    Accounts e read result.isOk (if assetId = read then change else 0) 0 after := by
  cases rewrites with
  | refused error => exact ⟨supply_same e read,fits⟩
  | written balance exact_ small context =>
    refine ⟨?_,setBalance_fits fits small address assetId context⟩
    simp only [Engine.supply,Nat.cast_sum,sum_setBalance,Except.isOk,Except.toBool,if_true,Nat.cast_zero,sub_zero]
    by_cases same : assetId = read
    · subst same
      rw [if_pos rfl,if_pos rfl,exact_]
      omega
    · rw [if_neg same,if_neg fun other => same other.symm]

theorem sum_debited {s : StateManager} (covered : request.amount ≤ s.getBalance sender request.assetId) (read : Nat) :
    (∑ owner : Address, (debited s sender request).getBalance owner read : Int) =
      (∑ owner : Address, s.getBalance owner read : Int) - (if request.assetId = read then request.amount else 0 : Nat) := by
  rw [debited,sum_setBalance]
  by_cases same : request.assetId = read
  · rw [if_pos same.symm,if_pos same]
    omega
  · rw [if_neg same,if_neg fun other => same other.symm]
    omega

theorem Transfers.accounts (fits : e.BalancesFit) (transfers : Transfers e sender request result after) (read : Nat) :
    Accounts e read result.isOk 0 (AccountCall.loss e read (.transfer sender request)) after := by
  have word := fits sender request.assetId
  cases transfers with
  | refused error refuses =>
    refine ⟨?_,fits⟩
    have lost : AccountCall.loss e read (.transfer sender request) = 0 := if_neg fun drains => by
      obtain ⟨rfl,apart,backed,covered,_⟩ := drains
      exact refuses ⟨apart,backed,covered⟩
    rw [lost]
    exact supply_same e read
  | drained passes exceeds =>
    obtain ⟨apart,backed,covered⟩ := passes
    refine ⟨?_,setBalance_fits fits (by omega) sender request.assetId e.context⟩
    have lost : AccountCall.loss e read (.transfer sender request) = if request.assetId = read then request.amount else 0 := by
      by_cases same : request.assetId = read
      · subst same
        rw [if_pos rfl]
        exact if_pos ⟨rfl,apart,backed,covered,exceeds⟩
      · rw [if_neg same]
        exact if_neg fun other => same other.1
    rw [lost]
    simp only [Engine.supply,Nat.cast_sum]
    rw [sum_debited covered read]
    simp
  | arrived passes small context =>
    obtain ⟨apart,_,covered⟩ := passes
    have debitedFits := setBalance_fits fits (show e.state.getBalance sender request.assetId - request.amount < 2 ^ 128 by omega)
      sender request.assetId e.context
    refine ⟨?_,setBalance_fits debitedFits small request.recipient request.assetId context⟩
    have lost : AccountCall.loss e read (.transfer sender request) = 0 := if_neg fun drains => by
      obtain ⟨rfl,_,_,_,exceeds⟩ := drains
      exact Nat.not_lt.mpr exceeds small
    have recipient : (debited e.state sender request).getBalance request.recipient request.assetId =
        e.state.getBalance request.recipient request.assetId := by
      rw [debited,getBalance_setBalance,if_neg fun same => apart same.1.symm]
    rw [lost]
    simp only [Engine.supply,Nat.cast_sum,credited]
    rw [sum_setBalance,sum_debited covered read,recipient]
    by_cases same : request.assetId = read
    · rw [if_pos same,if_pos same.symm]
      simp
    · rw [if_neg same,if_neg fun other => same other.symm]
      simp

theorem after_accounts (fits : e.BalancesFit) (call : AccountCall) (assetId : Nat) :
    Accounts e assetId (call.succeeds e) (call.issues assetId) (call.loss e assetId) (call.after e) := by
  cases call with
  | deposit sender request =>
    exact (updateBalance_rewrites fits sender request.assetId request.amount true .deposit).accounts fits assetId
  | withdraw sender request =>
    exact (updateBalance_rewrites fits sender request.assetId request.amount false .withdraw).accounts fits assetId
  | transfer sender request => exact (transfer_transfers sender request e).accounts fits assetId
  | bridgeDeposit operator request => exact (bridgeDeposit_rewrites operator request e).accounts fits assetId
  | bridgeWithdraw operator request => exact (bridgeWithdraw_rewrites fits operator request).accounts fits assetId

theorem loss_pos_iff (fits : e.BalancesFit) (call : AccountCall) (assetId : Nat) :
    call.loss e assetId ≠ 0 ↔ call.Drains e assetId := by
  cases call with
  | transfer sender request =>
    have word := fits request.recipient assetId
    unfold AccountCall.loss
    dsimp only
    split
    · rename_i drains
      have exceeds := drains.2.2.2.2
      exact ⟨fun _ => drains,fun _ => by omega⟩
    · rename_i kept
      exact ⟨fun lost => absurd rfl lost,fun drains => absurd drains kept⟩
  | deposit sender request | withdraw sender request | bridgeDeposit operator request | bridgeWithdraw operator request =>
    exact ⟨fun lost => absurd rfl lost,fun drains => drains.elim⟩

theorem run_supply (fits : e.BalancesFit) (calls : List AccountCall) (assetId : Nat) :
    ((e.runAccounts calls).supply assetId : Int) = e.supply assetId + e.netIssued assetId calls - e.lost assetId calls := by
  induction calls generalizing e with
  | nil => exact supply_same e assetId
  | cons call calls ih =>
    obtain ⟨step,later⟩ := after_accounts fits call assetId
    have rest := ih later
    change ((Engine.runAccounts (call.after e) calls).supply assetId : Int) = _
    rw [rest,step,Engine.netIssued,Engine.lost]
    push_cast
    omega

theorem lost_eq_zero_iff (fits : e.BalancesFit) (calls : List AccountCall) (assetId : Nat) :
    e.lost assetId calls = 0 ↔
      ∀ before call, before ++ [call] <+: calls → ¬call.Drains (e.runAccounts before) assetId := by
  induction calls generalizing e with
  | nil => simp [Engine.lost]
  | cons first calls ih =>
    have later := ih (after_accounts fits first assetId).fits
    have now := not_congr (loss_pos_iff fits first assetId)
    rw [Engine.lost,Nat.add_eq_zero_iff,later,← not_ne_iff,now]
    constructor
    · rintro ⟨kept,rest⟩ before call earlier
      cases before with
      | nil =>
        obtain rfl : call = first := by simpa using earlier
        exact kept
      | cons other before =>
        obtain ⟨rfl,shorter⟩ := List.cons_prefix_cons.mp earlier
        exact rest before call shorter
    · intro kept
      refine ⟨kept [] first (by simp),fun before call earlier => ?_⟩
      exact kept (first :: before) call (List.cons_prefix_cons.mpr ⟨rfl,earlier⟩)

-- After a run the supply of an asset is what it was and what the successful calls have added
-- and taken, exactly when no transfer of it has failed between its debit and its credit.
theorem supply_conserved_iff (fits : e.BalancesFit) (calls : List AccountCall) (assetId : Nat) :
    ((e.runAccounts calls).supply assetId : Int) = e.supply assetId + e.netIssued assetId calls ↔
      ∀ before call, before ++ [call] <+: calls → ¬call.Drains (e.runAccounts before) assetId := by
  rw [run_supply fits,← lost_eq_zero_iff fits]
  omega

def listed : StateManager := Bench.fresh.set (.assetInfo 0) ⟨0,"USDC","USD Coin",6,true,10000⟩

theorem listed_fits : (Engine.new listed).BalancesFit := by
  intro address assetId
  have absent : listed.get (.balance address assetId) = none :=
    (StateManager.get_set_ne _ _ (by simp)).trans (Storage.Db.getValueOption_empty 0 _)
  change (listed.get (.balance address assetId)).getD 0 < 2 ^ 128
  rw [absent]
  exact Nat.two_pow_pos 128

theorem supply_conserved_iff_transfer :
    let calls : List AccountCall := [.deposit Bench.alice ⟨10,0⟩,.withdraw Bench.alice ⟨11,0,Bench.alice⟩,
      .transfer Bench.alice ⟨Bench.bob,4,0⟩,.withdraw Bench.bob ⟨3,0,Bench.bob⟩]
    let e := Engine.new listed
    e.netIssued 0 calls = 7 ∧ ((e.runAccounts calls).supply 0 : Int) = e.supply 0 + e.netIssued 0 calls := by
  intro calls e
  refine ⟨by decide +kernel,(supply_conserved_iff listed_fits calls 0).mpr ?_⟩
  exact (lost_eq_zero_iff listed_fits calls 0).mp (by decide +kernel)

-- The second account sends its one unit to an account that is full: the transfer fails, and
-- the unit is gone.
theorem overflowing_transfer_burns :
    let calls : List AccountCall := [.deposit Bench.alice ⟨2 ^ 128 - 1,0⟩,.deposit Bench.bob ⟨1,0⟩,
      .transfer Bench.bob ⟨Bench.alice,1,0⟩]
    let e := Engine.new listed
    (calls.map fun call => call.issues 0) = [2 ^ 128 - 1,1,0] ∧
      (exec (transfer Bench.bob ⟨Bench.alice,1,0⟩) (e.runAccounts (calls.take 2))).1 = .error .overflow ∧
      (e.runAccounts calls).state.getBalance Bench.bob 0 = 0 ∧
      ((e.runAccounts calls).supply 0 : Int) ≠ e.supply 0 + e.netIssued 0 calls := by
  intro calls e
  refine ⟨by decide +kernel,by decide +kernel,by decide +kernel,?_⟩
  have lost : e.lost 0 calls = 1 := by decide +kernel
  have supply := run_supply listed_fits calls 0
  rw [lost] at supply
  intro conserved
  have same : (e.supply 0 : Int) + e.netIssued 0 calls - 1 = e.supply 0 + e.netIssued 0 calls := supply.symm.trans conserved
  omega

end Supply
end Pranklin
