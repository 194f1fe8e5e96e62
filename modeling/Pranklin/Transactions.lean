import Pranklin.Frame
import Pranklin.Supply

namespace Pranklin
open Words Effect

namespace TransactionExecutor

def asTx (m : EngineM α) : Eff Engine TxExecutionError α := fun e =>
  match exec m e with
  | (.ok value,e) => (.ok value,e)
  | (.error error,e) => (.error (.engine error),e)

-- The payload without the agents, as the query nodes run it.
def executeTxPayloadReadonly (tx : Transaction) : Eff Engine TxExecutionError Unit :=
  match tx.payload with
  | .deposit deposit => asTx (AccountService.deposit tx.sender deposit)
  | .withdraw withdraw => asTx (AccountService.withdraw tx.sender withdraw)
  | .transfer transfer => asTx (AccountService.transfer tx.sender transfer)
  | .placeOrder order => asTx do
    let _ ← OrderService.placeOrder tx.sender order
    return ()
  | .cancelOrder cancel => asTx (OrderService.cancelOrder tx.sender cancel)
  | .closePosition close => asTx (PositionService.closePosition tx.sender close)
  | .setAgent agent => asTx (AgentService.setAgent tx.sender agent)
  | .removeAgent agent => asTx (AgentService.removeAgent tx.sender agent)
  | .bridgeDeposit deposit => asTx (AccountService.bridgeDeposit tx.sender deposit)
  | .bridgeWithdraw withdraw => asTx (AccountService.bridgeWithdraw tx.sender withdraw)
  | .modifyOrder _ => throw (.notImplemented "ModifyOrder")

def agentsAfter (tx : Transaction) (agents : AgentRegistry) : AgentRegistry :=
  match tx.payload with
  | .setAgent agent => agents.setAgent tx.sender agent.agent agent.permissions
  | .removeAgent agent => agents.removeAgent tx.sender agent.agent
  | _ => agents

structure Accepted (codec : Codec) (tx : Transaction) (node : Node) : Prop where
  signed : recoverSigner codec tx = .ok tx.sender
  next : tx.nonce = node.engine.state.getNonce tx.sender

section Outcome
variable {codec : Codec} {tx : Transaction} {node : Node}

theorem exec_onEngine (m : EngineM α) (node : Node) :
    exec (onEngine m) node = ((exec (asTx m) node.engine).1,{node with engine:=(exec (asTx m) node.engine).2}) := by
  change onEngine m node = ((asTx m node.engine).1,{node with engine:=(asTx m node.engine).2})
  unfold onEngine asTx
  cases exec m node.engine with
  | mk result e => cases result <;> rfl

theorem exec_asTx_state (m : EngineM α) (e : Engine) : (exec (asTx m) e).2 = (exec m e).2 := by
  change (asTx m e).2 = _
  unfold asTx
  cases exec m e with
  | mk result e => cases result <;> rfl

theorem exec_asTx_result (m : EngineM α) (e : Engine) : (exec (asTx m) e).1 = (exec m e).1.mapError .engine := by
  change (asTx m e).1 = _
  unfold asTx
  cases exec m e with
  | mk result e => cases result <;> rfl

theorem verifyTxOwner_exec (signed : recoverSigner codec tx = .ok tx.sender) :
    exec (verifyTxOwner codec tx) node = (.ok (),node) := by
  rw [verifyTxOwner,exec_bind,exec_tries,signed]
  dsimp only
  rw [if_pos rfl]
  rfl

-- Behind the check of the signature the two forms of the payload agree.
theorem executePayload_exec (signed : recoverSigner codec tx = .ok tx.sender) :
    exec (executePayload codec tx) node = ((exec (executeTxPayloadReadonly tx) node.engine).1,
      ⟨(exec (executeTxPayloadReadonly tx) node.engine).2,agentsAfter tx node.auth⟩) := by
  unfold executePayload executeTxPayloadReadonly agentsAfter
  cases tx.payload with
  | setAgent agent | removeAgent agent =>
    dsimp only
    rw [exec_ok_bind (verifyTxOwner_exec signed),exec_writes_bind]
    exact exec_onEngine _ _
  | modifyOrder modify => rfl
  | deposit | withdraw | transfer | placeOrder | cancelOrder | closePosition | bridgeDeposit | bridgeWithdraw =>
    exact exec_onEngine _ _

theorem verifyTransaction_exec (signed : recoverSigner codec tx = .ok tx.sender) :
    exec (verifyTransaction codec tx) node = (.ok (),node) := by
  rw [verifyTransaction,exec_bind,exec_tries,signed]
  dsimp only
  rw [if_pos rfl]
  rfl

theorem verifyTransaction_fails (unsigned : recoverSigner codec tx ≠ .ok tx.sender) (node : Node) :
    ∃ error, exec (verifyTransaction codec tx) node = (.error error,node) := by
  rw [verifyTransaction,exec_bind,exec_tries]
  cases recovered : recoverSigner codec tx with
  | error error => exact ⟨error,rfl⟩
  | ok signer =>
    have other : signer ≠ tx.sender := fun same => unsigned (same ▸ recovered)
    dsimp only
    rw [if_neg other]
    exact ⟨_,rfl⟩

theorem verifyNonce_exec (next : tx.nonce = node.engine.state.getNonce tx.sender) :
    exec (verifyNonce tx) node = (.ok (),node) := by
  rw [verifyNonce,exec_reads_bind]
  rw [if_neg (by omega),if_neg (by omega)]
  rfl

theorem verifyNonce_fails (off : tx.nonce ≠ node.engine.state.getNonce tx.sender) :
    ∃ error, exec (verifyNonce tx) node = (.error error,node) := by
  rw [verifyNonce,exec_reads_bind]
  by_cases early : tx.nonce < node.engine.state.getNonce tx.sender
  · rw [if_pos early]
    exact ⟨_,rfl⟩
  · rw [if_neg early,if_pos (by omega)]
    exact ⟨_,rfl⟩

theorem execute_rejected (rejected : ¬Accepted codec tx node) :
    ∃ error, exec (execute codec tx) node = (.error error,node) := by
  by_cases signed : recoverSigner codec tx = .ok tx.sender
  case neg =>
    obtain ⟨error,failed⟩ := verifyTransaction_fails signed node
    rw [execute,exec_error_bind failed]
    exact ⟨error,rfl⟩
  have off : tx.nonce ≠ node.engine.state.getNonce tx.sender := fun next => rejected ⟨signed,next⟩
  obtain ⟨error,failed⟩ := verifyNonce_fails off
  rw [execute,exec_ok_bind (verifyTransaction_exec signed),exec_error_bind failed]
  exact ⟨error,rfl⟩

theorem execute_accepted (accepted : Accepted codec tx node) :
    exec (execute codec tx) node =
      match exec (executeTxPayloadReadonly tx) node.engine with
      | (.ok _,e) => (.ok (),⟨{e with state:=e.state.incrementNonce tx.sender},agentsAfter tx node.auth⟩)
      | (.error error,e) => (.error error,⟨e,agentsAfter tx node.auth⟩) := by
  rw [execute,exec_ok_bind (verifyTransaction_exec accepted.signed),exec_ok_bind (verifyNonce_exec accepted.next),
    exec_bind,executePayload_exec accepted.signed]
  cases exec (executeTxPayloadReadonly tx) node.engine with
  | mk result e => cases result <;> rfl

end Outcome

section Spared
open Pranklin.Frame AccountService StateManager
variable {keys : StateKey → Bool}

theorem sparing_emit (event : Event) : Sparing keys (emit event) := fun _ => .refl _ _

theorem sparing_checkBridge (operator : Address) (assetId : Nat) : Sparing keys (checkBridge operator assetId) := by
  refine sparing_bind (.reads spared_refl _) fun authorized => ?_
  split
  · exact .throw spared_refl _
  · refine sparing_bind (.reads spared_refl _) fun found => sparing_bind (.orThrow spared_refl _ _) fun _ => ?_
    exact .pure spared_refl _

theorem sparing_setBalance (outside : keys (.balance address assetId) = false) (amount : Nat) :
    Sparing keys (writes fun e => {e with state:=e.state.setBalance address assetId amount} : EngineM Unit) :=
  fun _ => (Agree.refl _ _).set outside

theorem sparing_updateBalance (outside : keys (.balance address assetId) = false) (amount : Nat) (isCredit : Bool)
    (reason : BalanceChangeReason) : Sparing keys (updateBalance address assetId amount isCredit reason) := by
  refine sparing_bind (.reads spared_refl _) fun oldBalance => sparing_bind (.tries spared_refl _) fun balance => ?_
  exact sparing_bind (sparing_setBalance outside _) fun _ => sparing_emit _

theorem sparing_transfer (debits : keys (.balance sender request.assetId) = false)
    (credits : keys (.balance request.recipient request.assetId) = false) : Sparing keys (transfer sender request) := by
  unfold transfer
  split
  · exact .throw spared_refl _
  · refine sparing_bind (.reads spared_refl _) fun found => sparing_bind (.orThrow spared_refl _ _) fun asset => ?_
    split
    · exact .throw spared_refl _
    · refine sparing_bind (.reads spared_refl _) fun senderBalance => ?_
      split
      · exact .throw spared_refl _
      · refine sparing_bind (sparing_setBalance debits _) fun _ => sparing_bind (.reads spared_refl _) fun balance => ?_
        refine sparing_bind (.orThrow spared_refl _ _) fun credited => ?_
        exact sparing_bind (sparing_setBalance credits _) fun _ => sparing_emit _

theorem sparing_bridgeDeposit (operator : Address) {request : BridgeDepositTx}
    (outside : keys (.balance request.user request.assetId) = false) : Sparing keys (bridgeDeposit operator request) := by
  refine sparing_bind (sparing_checkBridge _ _) fun _ => sparing_bind (.reads spared_refl _) fun oldBalance => ?_
  refine sparing_bind (.orThrow spared_refl _ _) fun balance => ?_
  exact sparing_bind (sparing_setBalance outside _) fun _ => sparing_emit _

theorem sparing_bridgeWithdraw (operator : Address) {request : BridgeWithdrawTx}
    (outside : keys (.balance request.user request.assetId) = false) : Sparing keys (bridgeWithdraw operator request) := by
  refine sparing_bind (sparing_checkBridge _ _) fun _ => sparing_bind (.reads spared_refl _) fun oldBalance => ?_
  split
  · exact .throw spared_refl _
  · exact sparing_bind (sparing_setBalance outside _) fun _ => sparing_emit _

theorem asTx_agree {m : EngineM α} (sparing : Sparing keys m) (e : Engine) : Agree keys e.state (exec (asTx m) e).2.state := by
  rw [exec_asTx_state]
  exact sparing e

theorem payload_spared (tx : Transaction) (e : Engine) : Spared e.state (exec (executeTxPayloadReadonly tx) e).2.state := by
  unfold executeTxPayloadReadonly
  cases tx.payload with
  | deposit request | withdraw request => exact asTx_agree (sparing_updateBalance rfl _ _ _) e
  | transfer request => exact asTx_agree (sparing_transfer rfl rfl) e
  | placeOrder request =>
    exact asTx_agree (sparing_bind (sparing_placeOrder clear_trading _ _) fun _ => .pure spared_refl _) e
  | cancelOrder cancel => exact asTx_agree (sparing_cancelOrder clear_trading _ _) e
  | closePosition close => exact asTx_agree (sparing_closePosition clear_trading _ _) e
  | setAgent agent | removeAgent agent => exact asTx_agree (sparing_emit _) e
  | bridgeDeposit request => exact asTx_agree (sparing_bridgeDeposit _ rfl) e
  | bridgeWithdraw request => exact asTx_agree (sparing_bridgeWithdraw _ rfl) e
  | modifyOrder modify => exact .refl _ _

theorem payload_getNonce (tx : Transaction) (e : Engine) (address : Address) :
    (exec (executeTxPayloadReadonly tx) e).2.state.getNonce address = e.state.getNonce address :=
  congrArg (Option.getD · 0) (payload_spared tx e (.nonce address) rfl)

end Spared
end TransactionExecutor
end Pranklin
