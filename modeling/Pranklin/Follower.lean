import Pranklin.Atomicity
import Pranklin.Nonces
import Pranklin.Replicas

namespace Pranklin
open Words Effect OrderService TransactionExecutor

namespace ReadOnlyExecutor

def beginTx (e : Engine) : Engine := {e with context:=[]}

def takeEvents (e : Engine) : Engine := {e with context:=[]}

-- The fetched transactions one after another: the first that fails ends the replay.
def replay : List Transaction → Eff Engine TxExecutionError Unit
  | [] => pure ()
  | tx :: rest => do
    writes beginTx
    executeTxPayloadReadonly tx
    writes takeEvents
    replay rest

def syncFromLeader (blocks : List (List Transaction)) : Eff Engine TxExecutionError Unit := replay blocks.flatten

end ReadOnlyExecutor

-- States in which every service finds the same. Where one has never written a balance the
-- other may hold a zero.
structure SameReads (s t : StateManager) : Prop where
  version : t.version = s.version
  reads : ∀ key, key.read → !key.ofBalances → t.get key = s.get key
  committed : ∀ key, key.read → !key.ofBalances → t.committed key = s.committed key
  balances : ∀ address assetId, t.getBalance address assetId = s.getBalance address assetId

namespace SameReads
variable {s t u : StateManager}

theorem refl (s : StateManager) : SameReads s s := ⟨rfl,fun _ _ _ => rfl,fun _ _ _ => rfl,fun _ _ => rfl⟩

theorem trans (left : SameReads s t) (right : SameReads t u) : SameReads s u where
  version := right.version.trans left.version
  reads key seen other := (right.reads key seen other).trans (left.reads key seen other)
  committed key seen other := (right.committed key seen other).trans (left.committed key seen other)
  balances address assetId := (right.balances address assetId).trans (left.balances address assetId)

theorem symm (same : SameReads s t) : SameReads t s where
  version := same.version.symm
  reads key seen other := (same.reads key seen other).symm
  committed key seen other := (same.committed key seen other).symm
  balances address assetId := (same.balances address assetId).symm

theorem of_reads (version : t.version = s.version) (reads : ∀ key, key.read → t.get key = s.get key)
    (committed : ∀ key, t.committed key = s.committed key) : SameReads s t where
  version := version
  reads key seen _ := reads key seen
  committed key _ _ := committed key
  balances address assetId := by rw [StateManager.getBalance,reads _ rfl,StateManager.getBalance]

theorem blind : IndexBlind SameReads where
  symm := symm
  trans := trans
  cached _ _ _ := of_reads rfl (fun _ _ => rfl) fun _ => rfl
  stored _ marketId _ :=
    of_reads rfl (fun _ seen => StateManager.get_set_ne _ _ (ne_positionIndex seen marketId)) fun _ => rfl
  erased _ marketId :=
    of_reads rfl (fun _ seen => StateManager.get_delete_ne _ (ne_positionIndex seen marketId)) fun _ => rfl

theorem set (same : SameReads s t) (key : StateKey) (value : key.Value) : SameReads (s.set key value) (t.set key value) where
  version := same.version
  reads read seen other := by
    by_cases own : read = key
    · subst own; rw [StateManager.get_set_self,StateManager.get_set_self]
    · rw [StateManager.get_set_ne _ _ own,StateManager.get_set_ne _ _ own,same.reads read seen other]
  committed read seen other := same.committed read seen other
  balances address assetId := by
    have balances := same.balances address assetId
    unfold StateManager.getBalance at *
    by_cases own : StateKey.balance address assetId = key
    · subst own; rw [StateManager.get_set_self,StateManager.get_set_self]
    · rw [StateManager.get_set_ne _ _ own,StateManager.get_set_ne _ _ own,balances]

theorem delete (same : SameReads s t) (key : StateKey) (seen : key.read) (other : !key.ofBalances) :
    SameReads (s.delete key) (t.delete key) where
  version := same.version
  reads read readable apart := by
    by_cases own : read = key
    · subst own; rw [StateManager.get_delete_self,StateManager.get_delete_self,same.committed read readable apart]
    · rw [StateManager.get_delete_ne _ own,StateManager.get_delete_ne _ own,same.reads read readable apart]
  committed read readable apart := same.committed read readable apart
  balances address assetId := by
    have own : StateKey.balance address assetId ≠ key := by rintro rfl; cases other
    have balances := same.balances address assetId
    unfold StateManager.getBalance at *
    rw [StateManager.get_delete_ne _ own,StateManager.get_delete_ne _ own,balances]

theorem observes : Observes SameReads where
  reads same := same.reads
  getBalance same := same.balances
  version same := same.version
  set same key value _ := same.set key value
  delete same := same.delete
  setPosition same _ _ _ := blind.setPosition (same.set _ _)
  deletePosition same _ _ := blind.deletePosition (same.delete _ rfl rfl)

theorem setBalance_getBalance (s : StateManager) (address : Address) (assetId : Nat) :
    SameReads s (s.setBalance address assetId (s.getBalance address assetId)) where
  version := rfl
  reads key _ other := StateManager.get_set_ne _ _ (by rintro rfl; cases other)
  committed _ _ _ := rfl
  balances owner read := by
    rw [Supply.getBalance_setBalance]
    split
    · rename_i same; rw [same.1,same.2]
    · rfl

end SameReads

abbrev Alike : Engine → Engine → Prop := Loose SameReads

theorem alike_refl (e : Engine) : Alike e e := ⟨.refl _,rfl⟩

theorem alike_trans (left : Alike e f) (right : Alike f g) : Alike e g :=
  ⟨left.state.trans right.state,right.levels.trans left.levels⟩

theorem kin_alike : Kin SameReads Alike := kin_loose SameReads.observes

section Payload
variable {R : StateManager → StateManager → Prop} {W : Engine → Engine → Prop}

theorem lockstep_asTx {call : EngineM α} (both : Lockstep W call) : Lockstep W (asTx call) := by
  intro e f alike
  obtain ⟨result,after⟩ := both e f alike
  rw [exec_asTx_result,exec_asTx_result,exec_asTx_state,exec_asTx_state,result]
  exact ⟨rfl,after⟩

theorem lockstep_payload (kin : Kin R W) (tx : Transaction) : Lockstep W (executeTxPayloadReadonly tx) := by
  unfold executeTxPayloadReadonly
  cases tx.payload with
  | deposit request | withdraw request => exact lockstep_asTx (lockstep_updateBalance kin _ _ _ _ _)
  | transfer request => exact lockstep_asTx (lockstep_transfer kin _ _)
  | placeOrder request => exact lockstep_asTx (.bind (lockstep_placeOrder kin _ _) fun _ => .pure ())
  | cancelOrder cancel => exact lockstep_asTx (lockstep_cancelOrder kin _ _)
  | closePosition close => exact lockstep_asTx (lockstep_closePosition kin _ _)
  | setAgent agent | removeAgent agent => exact lockstep_asTx (lockstep_emit kin _)
  | bridgeDeposit request => exact lockstep_asTx (lockstep_bridgeDeposit kin _ _)
  | bridgeWithdraw request => exact lockstep_asTx (lockstep_bridgeWithdraw kin _ _)
  | modifyOrder modify => exact .throw _

end Payload

structure Agrees (leader follower : Engine) : Prop where
  balances : ∀ address assetId, follower.state.getBalance address assetId = leader.state.getBalance address assetId
  nonces : ∀ address, follower.state.getNonce address = leader.state.getNonce address
  positions : ∀ address marketId, follower.state.getPosition address marketId = leader.state.getPosition address marketId
  orders : ∀ orderId, follower.state.getOrder orderId = leader.state.getOrder orderId
  active : ∀ marketId, follower.state.getActiveOrdersByMarket marketId = leader.state.getActiveOrdersByMarket marketId

def Idle (e : Engine) (tx : Transaction) : Prop :=
  match tx.payload with
  | .setAgent _ | .removeAgent _ => True
  | .deposit request => request.amount = 0
  | .withdraw request => request.amount = 0
  | .transfer request => request.amount = 0 ∧ tx.sender ≠ request.recipient ∧
    (e.state.getAsset request.assetId).any (·.isCollateral)
  | .bridgeDeposit request => request.amount = 0 ∧ Supply.Bridges e tx.sender request.assetId
  | .bridgeWithdraw request => request.amount = 0 ∧ Supply.Bridges e tx.sender request.assetId
  | .placeOrder _ | .cancelOrder _ | .closePosition _ | .modifyOrder _ => False

namespace Follower
open ReadOnlyExecutor
variable {codec : Codec} {node : Node} {e f after : Engine} {ledger : Ledger} {tx : Transaction}

theorem alike_agrees (alike : Alike e f) : Agrees e f where
  balances := alike.state.balances
  nonces := SameReads.observes.getNonce alike.state
  positions := SameReads.observes.getPosition alike.state
  orders := SameReads.observes.getOrder alike.state
  active := SameReads.observes.getActiveOrdersByMarket alike.state

theorem alike_of_rewrites {result : Except EngineError Unit} (rewrites : Supply.Rewrites e address assetId change result after)
    (nothing : change = 0) : Alike e after := by
  cases rewrites with
  | refused error => exact alike_refl e
  | written balance exact_ fits context =>
    obtain rfl : balance = e.state.getBalance address assetId := by omega
    exact ⟨SameReads.setBalance_getBalance _ _ _,rfl⟩

section Idles
open AccountService Supply

theorem updateBalance_zero (fits : e.BalancesFit) (address : Address) (assetId : Nat) (isCredit : Bool)
    (reason : BalanceChangeReason) :
    (exec (updateBalance address assetId 0 isCredit reason) e).1 = .ok () ∧
      Alike e (exec (updateBalance address assetId 0 isCredit reason) e).2 := by
  refine ⟨?_,alike_of_rewrites (updateBalance_rewrites fits address assetId 0 isCredit reason) (by simp)⟩
  have computed : newBalance (e.state.getBalance address assetId) 0 isCredit = .ok (e.state.getBalance address assetId) := by
    have word := fits address assetId
    cases isCredit with
    | false => simp [newBalance]
    | true =>
      have sum : checkedAdd 128 (e.state.getBalance address assetId) 0 = some (e.state.getBalance address assetId) := if_pos word
      simp only [newBalance,if_true,sum]
      rfl
  rw [updateBalance,exec_reads_bind]
  rw [exec_bind,exec_tries,computed]
  rfl

theorem transfer_zero (fits : e.BalancesFit) (request : TransferTx) (zero : request.amount = 0)
    (apart : sender ≠ request.recipient) (backed : (e.state.getAsset request.assetId).any (·.isCollateral)) :
    (exec (transfer sender request) e).1 = .ok () ∧ Alike e (exec (transfer sender request) e).2 := by
  have transfers := transfer_transfers sender request e
  cases result : exec (transfer sender request) e with
  | mk outcome after =>
  rw [result] at transfers
  cases transfers with
  | refused error refuses => exact absurd ⟨apart,backed,by omega⟩ refuses
  | drained passes exceeds =>
    have word := fits request.recipient request.assetId
    omega
  | arrived passes small context =>
    refine ⟨rfl,?_,rfl⟩
    have debit : debited e.state sender request =
        e.state.setBalance sender request.assetId (e.state.getBalance sender request.assetId) := by
      rw [debited,zero,Nat.sub_zero]
    have credit : credited e.state sender request = (debited e.state sender request).setBalance request.recipient
        request.assetId ((debited e.state sender request).getBalance request.recipient request.assetId) := by
      rw [credited,zero,Nat.add_zero,debited,getBalance_setBalance,if_neg fun same => apart same.1.symm]
    rw [credit]
    refine SameReads.trans ?_ (SameReads.setBalance_getBalance _ _ _)
    rw [debit]
    exact SameReads.setBalance_getBalance _ _ _

theorem bridgeDeposit_zero (fits : e.BalancesFit) (request : BridgeDepositTx) (zero : request.amount = 0)
    (bridges : Bridges e operator request.assetId) :
    (exec (bridgeDeposit operator request) e).1 = .ok () ∧ Alike e (exec (bridgeDeposit operator request) e).2 := by
  refine ⟨?_,alike_of_rewrites (bridgeDeposit_rewrites operator request e) (by simp [zero])⟩
  have sum : checkedAdd 128 (e.state.getBalance request.user request.assetId) request.amount =
      some (e.state.getBalance request.user request.assetId) := by
    rw [zero]
    exact if_pos (fits _ _)
  rw [bridgeDeposit,exec_ok_bind (checkBridge_passes bridges),exec_reads_bind,sum]
  rfl

theorem bridgeWithdraw_zero (fits : e.BalancesFit) (request : BridgeWithdrawTx) (zero : request.amount = 0)
    (bridges : Bridges e operator request.assetId) :
    (exec (bridgeWithdraw operator request) e).1 = .ok () ∧ Alike e (exec (bridgeWithdraw operator request) e).2 := by
  refine ⟨?_,alike_of_rewrites (bridgeWithdraw_rewrites fits operator request) (by simp [zero])⟩
  rw [bridgeWithdraw,exec_ok_bind (checkBridge_passes bridges),exec_reads_bind,if_neg (by omega)]
  rfl

theorem idle_runs (fits : e.BalancesFit) (idle : Idle e tx) :
    (exec (executeTxPayloadReadonly tx) e).1 = .ok () ∧ Alike e (exec (executeTxPayloadReadonly tx) e).2 := by
  have lift : ∀ {m : EngineM Unit}, ((exec m e).1 = .ok () ∧ Alike e (exec m e).2) →
      (exec (asTx m) e).1 = .ok () ∧ Alike e (exec (asTx m) e).2 := by
    rintro m ⟨result,after⟩
    rw [exec_asTx_result,exec_asTx_state,result]
    exact ⟨rfl,after⟩
  unfold Idle at idle
  unfold executeTxPayloadReadonly
  cases payload : tx.payload with
  | setAgent agent | removeAgent agent => exact ⟨rfl,.refl e.state,rfl⟩
  | deposit request | withdraw request =>
    rw [payload] at idle
    have zero : request.amount = 0 := idle
    refine lift ?_
    simp only [AccountService.deposit,AccountService.withdraw,zero]
    exact updateBalance_zero fits _ _ _ _
  | transfer request =>
    rw [payload] at idle
    exact lift (transfer_zero fits request idle.1 idle.2.1 idle.2.2)
  | bridgeDeposit request =>
    rw [payload] at idle
    exact lift (bridgeDeposit_zero fits request idle.1 idle.2)
  | bridgeWithdraw request =>
    rw [payload] at idle
    exact lift (bridgeWithdraw_zero fits request idle.1 idle.2)
  | placeOrder request | cancelOrder request | closePosition request | modifyOrder request =>
    rw [payload] at idle
    exact idle.elim

end Idles

section Effects
open AccountService Supply

theorem zero_of_rewrites (rewrites : Rewrites e address assetId change (.ok ()) after) (agrees : Agrees e after) :
    change = 0 := by
  cases rewrites with
  | written balance exact_ fits context =>
    have same := agrees.balances address assetId
    dsimp only at same
    rw [getBalance_setBalance,if_pos ⟨rfl,rfl⟩] at same
    omega

theorem zero_of_updateBalance (fits : e.BalancesFit)
    (ran : exec (updateBalance address assetId amount isCredit reason) e = (.ok (),after)) (agrees : Agrees e after) :
    amount = 0 := by
  have rewrites := updateBalance_rewrites fits address assetId amount isCredit reason
  rw [ran] at rewrites
  have zero := zero_of_rewrites rewrites agrees
  cases isCredit <;> simpa using zero

theorem zero_of_transfers (transfers : Transfers e sender request (.ok ()) after) (agrees : Agrees e after) :
    request.amount = 0 ∧ Transferable e sender request := by
  cases transfers with
  | arrived passes small context =>
    have same := agrees.balances sender request.assetId
    dsimp only [credited,debited] at same
    rw [getBalance_setBalance,if_neg fun own => passes.1 own.1,getBalance_setBalance,if_pos ⟨rfl,rfl⟩] at same
    have covered := passes.2.2
    exact ⟨by omega,passes⟩

theorem placement_new (shown : Represents e.desk ledger) (placement : Placement e trader request (.ok orderId) after)
    (agrees : Agrees e after) : False := by
  cases placement with
  | settled matched ran ended =>
    obtain ⟨_,_,status,reads⟩ := settleOrder_stores ended
    have own : e.state.orderCounter = (remainder e trader request).id := rfl
    have stored := reads e.state.orderCounter
    rw [if_pos own,agrees.orders,getOrder_counter shown] at stored
    cases stored

theorem cancellation_new (cancellation : Cancellation e trader cancel (.ok ()) after) (agrees : Agrees e after) : False := by
  cases cancellation with
  | cancelled order found active =>
    have same := agrees.orders cancel.orderId
    dsimp only at same
    rw [StateManager.getOrder_removeActiveOrder,StateManager.getOrder_setOrder,if_pos rfl,found] at same
    have status := congrArg Order.status (Option.some_inj.mp same)
    rw [active] at status
    cases status

theorem exec_asTx_ok {m : EngineM α} (ran : exec (asTx m) e = (.ok value,after)) : exec m e = (.ok value,after) := by
  have result := exec_asTx_result m e
  have state := exec_asTx_state m e
  rw [ran] at result state
  cases direct : exec m e with
  | mk outcome last =>
    rw [direct] at result state
    cases outcome with
    | error error => cases result
    | ok _ =>
      cases result
      obtain rfl : after = last := state
      rfl

theorem placed_new (shown : Represents e.desk ledger)
    (ran : exec (OrderService.placeOrder trader request >>= fun _ => pure () : EngineM Unit) e = (.ok (),after))
    (agrees : Agrees e after) : False := by
  obtain ⟨orderId,last,placed,done⟩ := exec_bind_ok ran
  cases done
  exact placement_new shown (placeOrder_placement shown.toQueued placed) agrees

theorem closed_new (shown : Represents e.desk ledger)
    (ran : exec (PositionService.closePosition trader close) e = (.ok (),after)) (agrees : Agrees e after) : False := by
  cases found : e.state.getPosition trader close.marketId with
  | none =>
    rw [PositionService.closePosition_none found] at ran
    cases ran
  | some position =>
    rw [PositionService.closePosition_some found] at ran
    exact placed_new shown ran agrees

theorem runs_idle (shown : Represents e.desk ledger) (fits : e.BalancesFit)
    (ran : exec (executeTxPayloadReadonly tx) e = (.ok (),after)) (agrees : Agrees e after) : Idle e tx := by
  unfold executeTxPayloadReadonly at ran
  unfold Idle
  cases payload : tx.payload with
  | setAgent agent | removeAgent agent => trivial
  | deposit request | withdraw request =>
    rw [payload] at ran
    exact zero_of_updateBalance fits (exec_asTx_ok ran) agrees
  | transfer request =>
    rw [payload] at ran
    have transfers := transfer_transfers tx.sender request e
    rw [exec_asTx_ok ran] at transfers
    obtain ⟨zero,apart,backed,_⟩ := zero_of_transfers transfers agrees
    exact ⟨zero,apart,backed⟩
  | bridgeDeposit request =>
    rw [payload] at ran
    have rewrites := bridgeDeposit_rewrites tx.sender request e
    rw [exec_asTx_ok ran] at rewrites
    have zero := zero_of_rewrites rewrites agrees
    refine ⟨by omega,Decidable.by_contra fun outside => ?_⟩
    obtain ⟨error,failed⟩ := bridgeDeposit_refused outside
    cases failed.symm.trans (exec_asTx_ok ran)
  | bridgeWithdraw request =>
    rw [payload] at ran
    have rewrites := bridgeWithdraw_rewrites fits tx.sender request
    rw [exec_asTx_ok ran] at rewrites
    have zero := zero_of_rewrites rewrites agrees
    refine ⟨by omega,Decidable.by_contra fun outside => ?_⟩
    obtain ⟨error,failed⟩ := bridgeWithdraw_refused outside
    cases failed.symm.trans (exec_asTx_ok ran)
  | placeOrder request =>
    rw [payload] at ran
    exact placed_new shown (exec_asTx_ok ran) agrees
  | cancelOrder cancel =>
    rw [payload] at ran
    exact cancellation_new (cancelOrder_cancellation (exec_asTx_ok ran)) agrees
  | closePosition close =>
    rw [payload] at ran
    exact closed_new shown (exec_asTx_ok ran) agrees
  | modifyOrder modify => rw [payload] at ran; cases ran

end Effects

-- The leader turns the transaction away, and its payload would change nothing.
structure Harmless (codec : Codec) (node : Node) (tx : Transaction) : Prop where
  rejected : ¬Accepted codec tx node
  idle : Idle node.engine tx

structure Keeps (codec : Codec) (encode : Transaction → List UInt8) (node : Node) (blocks : List (List Transaction)) :
    Prop where
  completes : (exec (syncFromLeader blocks) node.engine).1 = .ok ()
  agrees : Agrees (runBatches codec node (blocks.map (·.map encode))).engine (exec (syncFromLeader blocks) node.engine).2

section Runs
variable {encode : Transaction → List UInt8} {front back txs : List Transaction} {blocks : List (List Transaction)}

theorem replay_cons (tx : Transaction) (rest : List Transaction) (e : Engine) :
    exec (replay (tx :: rest)) e =
      match exec (executeTxPayloadReadonly tx) (beginTx e) with
      | (.ok _,after) => exec (replay rest) (takeEvents after)
      | (.error error,after) => (.error error,after) := by
  rw [replay,exec_writes_bind]
  rw [exec_bind]
  cases exec (executeTxPayloadReadonly tx) (beginTx e) with
  | mk outcome after => cases outcome <;> rfl

theorem replay_append (front back : List Transaction) (e : Engine) :
    exec (replay (front ++ back)) e =
      match exec (replay front) e with
      | (.ok _,after) => exec (replay back) after
      | (.error error,after) => (.error error,after) := by
  induction front generalizing e with
  | nil => rfl
  | cons tx front ih =>
    rw [List.cons_append,replay_cons,replay_cons]
    cases exec (executeTxPayloadReadonly tx) (beginTx e) with
    | mk outcome after =>
      cases outcome with
      | error error => rfl
      | ok _ => exact ih _

theorem after_encoded (decodes : Transaction.decode codec (encode tx) = .ok tx) :
    TransactionExecutor.after codec node (encode tx) = (exec (execute codec tx) node).2 := by
  rw [TransactionExecutor.after,executeBytes,exec_bind,exec_tries,decodes]

theorem runBatches_encoded (blocks : List (List Transaction)) :
    runBatches codec node (blocks.map (·.map encode)) =
      (blocks.flatten.map encode).foldl (TransactionExecutor.after codec) node := by
  rw [Nonces.runBatches_flatten,List.map_flatten]

theorem follows_of_harmless (fits : node.engine.BalancesFit)
    (decodes : ∀ tx ∈ txs, Transaction.decode codec (encode tx) = .ok tx) (harmless : ∀ tx ∈ txs, Harmless codec node tx)
    (alike : Alike node.engine f) :
    (txs.map encode).foldl (TransactionExecutor.after codec) node = node ∧
      (exec (replay txs) f).1 = .ok () ∧ Alike node.engine (exec (replay txs) f).2 := by
  induction txs generalizing f with
  | nil => exact ⟨rfl,rfl,alike⟩
  | cons tx txs ih =>
    obtain ⟨rejected,idle⟩ := harmless tx List.mem_cons_self
    obtain ⟨error,failed⟩ := execute_rejected rejected
    have stays : TransactionExecutor.after codec node (encode tx) = node := by
      rw [after_encoded (decodes tx List.mem_cons_self),failed]
    obtain ⟨result,kept⟩ := idle_runs fits idle
    have begun : Alike node.engine (beginTx f) := ⟨alike.state,alike.levels⟩
    obtain ⟨same,both⟩ := lockstep_payload kin_alike tx node.engine (beginTx f) begun
    rw [replay_cons,List.map_cons,List.foldl_cons,stays]
    cases ran : exec (executeTxPayloadReadonly tx) (beginTx f) with
    | mk outcome after =>
      rw [ran] at same both
      obtain rfl : outcome = .ok () := same.symm.trans result
      have taken : Alike node.engine (takeEvents after) := ⟨(alike_trans kept both).state,(alike_trans kept both).levels⟩
      exact ih (fun tx inside => decodes tx (List.mem_cons_of_mem _ inside))
        (fun tx inside => harmless tx (List.mem_cons_of_mem _ inside)) taken

theorem harmless_of_keeps (shown : Represents node.engine.desk ledger) (fits : node.engine.BalancesFit)
    (decodes : Transaction.decode codec (encode tx) = .ok tx) (alike : Alike node.engine f)
    (completes : (exec (replay [tx]) f).1 = .ok ())
    (agrees : Agrees (TransactionExecutor.after codec node (encode tx)).engine (exec (replay [tx]) f).2) :
    Harmless codec node tx := by
  rw [replay_cons] at completes agrees
  have begun : Alike node.engine (beginTx f) := ⟨alike.state,alike.levels⟩
  obtain ⟨same,both⟩ := lockstep_payload kin_alike tx node.engine (beginTx f) begun
  cases ran : exec (executeTxPayloadReadonly tx) (beginTx f) with
  | mk outcome after =>
  rw [ran] at same both completes agrees
  cases outcome with
  | error error => cases completes
  | ok _ =>
  cases ledRan : exec (executeTxPayloadReadonly tx) node.engine with
  | mk outcome led =>
  rw [ledRan] at same both
  obtain rfl : outcome = .ok () := same
  have agrees : Agrees (TransactionExecutor.after codec node (encode tx)).engine after :=
    ⟨agrees.balances,agrees.nonces,agrees.positions,agrees.orders,agrees.active⟩
  rw [after_encoded decodes] at agrees
  have served := alike_agrees both
  by_cases accepted : Accepted codec tx node
  · -- The leader counts the transaction, the follower does not.
    rw [execute_accepted accepted,ledRan] at agrees
    have counted := agrees.nonces tx.sender
    rw [served.nonces] at counted
    change led.state.getNonce tx.sender = (led.state.incrementNonce tx.sender).getNonce tx.sender at counted
    rw [Nonces.getNonce_incrementNonce,if_pos rfl,addWrap] at counted
    omega
  · obtain ⟨error,failed⟩ := execute_rejected accepted
    rw [failed] at agrees
    refine ⟨accepted,runs_idle shown fits ledRan ⟨?_,?_,?_,?_,?_⟩⟩
    · exact fun address assetId => (served.balances address assetId).symm.trans (agrees.balances address assetId)
    · exact fun address => (served.nonces address).symm.trans (agrees.nonces address)
    · exact fun address marketId => (served.positions address marketId).symm.trans (agrees.positions address marketId)
    · exact fun orderId => (served.orders orderId).symm.trans (agrees.orders orderId)
    · exact fun marketId => (served.active marketId).symm.trans (agrees.active marketId)

-- What holds of the last transaction of every initial part whose others are harmless holds
-- of all of them.
theorem all_harmless
    (last : ∀ front tx, front ++ [tx] <+: txs → (∀ tx ∈ front, Harmless codec node tx) → Harmless codec node tx)
    (part : front <+: txs) : ∀ tx ∈ front, Harmless codec node tx := by
  induction front using List.reverseRecOn with
  | nil => simp
  | append_singleton front tx ih =>
    have earlier := ih ((List.prefix_append front [tx]).trans part)
    intro other inside
    rcases List.mem_append.mp inside with inside | inside
    · exact earlier other inside
    · obtain rfl := List.mem_singleton.mp inside
      exact last front other part earlier

-- From every engine that calls can lead to: the replay completes and agrees with the leader
-- after every transaction exactly when every transaction is harmless.
theorem replay_keeps_iff (codec : Codec) (encode : Transaction → List UInt8) (node : Node) (reached : Reachable node.engine)
    (fits : node.engine.BalancesFit) (blocks : List (List Transaction))
    (decodes : ∀ tx ∈ blocks.flatten, Transaction.decode codec (encode tx) = .ok tx) :
    (∀ part : List (List Transaction), part.flatten <+: blocks.flatten → Keeps codec encode node part) ↔
      ∀ front tx, front ++ [tx] <+: blocks.flatten → Harmless codec (runBatches codec node [front.map encode]) tx := by
  obtain ⟨ledger,shown⟩ := Atomicity.reachable_represents reached
  have led : ∀ front : List Transaction,
      runBatches codec node [front.map encode] = (front.map encode).foldl (TransactionExecutor.after codec) node := by
    intro front
    rw [Nonces.runBatches_flatten,List.flatten_singleton]
  have follow : ∀ front, front <+: blocks.flatten → (∀ tx ∈ front, Harmless codec node tx) → _ := fun front part harmless =>
    follows_of_harmless fits (fun tx inside => decodes tx (part.subset inside)) harmless (alike_refl node.engine)
  constructor
  · intro keeps front tx part
    have others : ∀ other ∈ front ++ [tx], Harmless codec node other := by
      refine all_harmless (fun front tx part earlier => ?_) part
      obtain ⟨stays,done,alike⟩ := follow front ((List.prefix_append front [tx]).trans part) earlier
      obtain ⟨completes,agrees⟩ := keeps [front ++ [tx]] (by simpa using part)
      rw [runBatches_encoded] at agrees
      simp only [syncFromLeader,List.flatten_singleton,replay_append] at completes agrees
      cases ran : exec (replay front) node.engine with
      | mk outcome f =>
      rw [ran] at done alike completes agrees
      obtain rfl : outcome = .ok () := done
      rw [List.map_append,List.foldl_append,stays] at agrees
      exact harmless_of_keeps shown fits (decodes tx (part.subset (by simp))) alike completes agrees
    have part' := (List.prefix_append front [tx]).trans part
    rw [led,(follow front part' fun other inside => others other (List.mem_append_left _ inside)).1]
    exact others tx (by simp)
  · intro harmless part within
    have all : ∀ tx ∈ part.flatten, Harmless codec node tx := by
      refine all_harmless (fun front tx part earlier => ?_) within
      have own := harmless front tx part
      rwa [led,(follow front ((List.prefix_append front [tx]).trans part) earlier).1] at own
    obtain ⟨stays,done,alike⟩ := follow part.flatten within all
    refine ⟨done,?_⟩
    rw [runBatches_encoded,stays]
    exact alike_agrees alike

end Runs

def genesis : Node := Node.new Bench.fresh.storage .keep

theorem genesis_reachable : Reachable genesis.engine := .start ⟨fun _ => rfl,fun _ => rfl⟩

theorem genesis_fits : genesis.engine.BalancesFit := fun _ _ => Nat.two_pow_pos 128

def early : Transaction := ⟨7,Bench.alice,.removeAgent ⟨Bench.bob⟩,.rawBorsh 0⟩

theorem replay_keeps_iff_early : Keeps Bench.trusting Bench.written genesis [[early],[]] := by
  have harmless : ∀ front tx, front ++ [tx] <+: [[early],[]].flatten →
      Harmless Bench.trusting (runBatches Bench.trusting genesis [front.map Bench.written]) tx := by
    intro front tx part
    obtain ⟨rfl,rfl⟩ : front = [] ∧ tx = early := by
      cases front with
      | nil => simpa using part
      | cons first front => simp at part
    exact ⟨fun accepted => absurd accepted.next (by decide +kernel),trivial⟩
  have decodes : ∀ tx ∈ [[early],[]].flatten, Transaction.decode Bench.trusting (Bench.written tx) = .ok tx := by
    intro tx inside
    obtain rfl : tx = early := by simpa using inside
    exact Bench.decode_written (by decide +kernel) (by decide +kernel)
  exact (replay_keeps_iff Bench.trusting Bench.written genesis genesis_reachable genesis_fits [[early],[]] decodes).mpr harmless _
    (List.prefix_refl _)

-- One deposit: the leader counts it, the query node does not.
theorem replay_leaves_nonce :
    (exec (syncFromLeader [[Nonces.deposit 0]]) genesis.engine).1 = .ok () ∧
      (runBatches Bench.trusting genesis [[Bench.written (Nonces.deposit 0)]]).engine.state.getNonce Bench.alice = 1 ∧
      (exec (syncFromLeader [[Nonces.deposit 0]]) genesis.engine).2.state.getNonce Bench.alice = 0 ∧
      ¬Keeps Bench.trusting Bench.written genesis [[Nonces.deposit 0]] := by
  have completes : (exec (syncFromLeader [[Nonces.deposit 0]]) genesis.engine).1 = .ok () := by decide +kernel
  have led : (runBatches Bench.trusting genesis [[Bench.written (Nonces.deposit 0)]]).engine.state.getNonce Bench.alice = 1 := by
    decide +kernel
  have followed : (exec (syncFromLeader [[Nonces.deposit 0]]) genesis.engine).2.state.getNonce Bench.alice = 0 := by
    decide +kernel
  refine ⟨completes,led,followed,fun keeps => ?_⟩
  have same := keeps.agrees.nonces Bench.alice
  rw [followed] at same
  exact absurd (same.trans led) (by decide)

end Follower
end Pranklin
