import Pranklin.Calls

namespace Pranklin
open Words Effect

structure DepositTx where
  amount : Nat
  assetId : Nat
deriving DecidableEq

structure WithdrawTx where
  amount : Nat
  assetId : Nat
  recipient : Address
deriving DecidableEq

structure TransferTx where
  recipient : Address
  amount : Nat
  assetId : Nat
deriving DecidableEq

structure BridgeDepositTx where
  user : Address
  amount : Nat
  assetId : Nat
  externalTxHash : Nat
deriving DecidableEq

structure BridgeWithdrawTx where
  user : Address
  amount : Nat
  assetId : Nat
  destination : Address
  externalTxHash : Nat
deriving DecidableEq

structure ModifyOrderTx where
  orderId : Nat
  newPrice : Nat
  newSize : Nat
deriving DecidableEq

structure SetAgentTx where
  agent : Address
  permissions : Nat
deriving DecidableEq

structure RemoveAgentTx where
  agent : Address
deriving DecidableEq

inductive TxPayload where
  | deposit (deposit : DepositTx)
  | withdraw (withdraw : WithdrawTx)
  | placeOrder (order : PlaceOrderTx)
  | cancelOrder (cancel : CancelOrderTx)
  | modifyOrder (modify : ModifyOrderTx)
  | closePosition (close : ClosePositionTx)
  | setAgent (agent : SetAgentTx)
  | removeAgent (agent : RemoveAgentTx)
  | transfer (transfer : TransferTx)
  | bridgeDeposit (deposit : BridgeDepositTx)
  | bridgeWithdraw (withdraw : BridgeWithdrawTx)
deriving DecidableEq

structure TypedDataDomain where
  name : String := "Pranklin"
  version : String := "1"
  chainId : Nat := 1337
  verifyingContract : Option Address := none
deriving DecidableEq

inductive TxSignature where
  | eip712 (domain : TypedDataDomain) (signature : BitVec 520)
  | rawBorsh (signature : BitVec 520)
deriving DecidableEq

structure Transaction where
  nonce : Nat
  sender : Address
  payload : TxPayload
  signature : TxSignature
deriving DecidableEq

namespace AccountService

def newBalance (oldBalance amount : Nat) (isCredit : Bool) : Except EngineError Nat :=
  if isCredit then orOverflow (checkedAdd 128 oldBalance amount)
  else if oldBalance < amount then .error .insufficientBalance
  else .ok (oldBalance - amount)

def updateBalance (address : Address) (assetId amount : Nat) (isCredit : Bool) (reason : BalanceChangeReason) :
    EngineM Unit := do
  let oldBalance ← reads fun e => e.state.getBalance address assetId
  let balance ← tries fun _ => newBalance oldBalance amount isCredit
  writes fun e => {e with state:=e.state.setBalance address assetId balance}
  emit (.balanceChanged address assetId oldBalance balance reason)

def deposit (sender : Address) (deposit : DepositTx) : EngineM Unit :=
  updateBalance sender deposit.assetId deposit.amount true .deposit

def withdraw (sender : Address) (withdraw : WithdrawTx) : EngineM Unit :=
  updateBalance sender withdraw.assetId withdraw.amount false .withdraw

def transfer (sender : Address) (transfer : TransferTx) : EngineM Unit := do
  if sender = transfer.recipient then throw (.other "Cannot transfer to self")
  else
    let found ← reads fun e => e.state.getAsset transfer.assetId
    let asset ← orThrow found (.other "Asset not found")
    if !asset.isCollateral then throw (.other "Asset not transferrable")
    else
      let senderBalance ← reads fun e => e.state.getBalance sender transfer.assetId
      if senderBalance < transfer.amount then throw .insufficientBalance
      else
        writes fun e => {e with state:=e.state.setBalance sender transfer.assetId (senderBalance - transfer.amount)}
        let recipientBalance ← reads fun e => e.state.getBalance transfer.recipient transfer.assetId
        let newRecipientBalance ← orThrow (checkedAdd 128 recipientBalance transfer.amount) .overflow
        writes fun e => {e with state:=e.state.setBalance transfer.recipient transfer.assetId newRecipientBalance}
        emit (.transfer sender transfer.recipient transfer.assetId transfer.amount)

def checkBridge (operator : Address) (assetId : Nat) : EngineM Unit := do
  let authorized ← reads fun e => e.state.isBridgeOperator operator
  if !authorized then throw .unauthorized
  else
    let found ← reads fun e => e.state.getAsset assetId
    let _ ← orThrow found (.other "Asset not found")
    return ()

def bridgeDeposit (operator : Address) (deposit : BridgeDepositTx) : EngineM Unit := do
  checkBridge operator deposit.assetId
  let oldBalance ← reads fun e => e.state.getBalance deposit.user deposit.assetId
  let newBalance ← orThrow (checkedAdd 128 oldBalance deposit.amount) .overflow
  writes fun e => {e with state:=e.state.setBalance deposit.user deposit.assetId newBalance}
  emit (.bridgeDeposit operator deposit.user deposit.assetId deposit.amount deposit.externalTxHash)

def bridgeWithdraw (operator : Address) (withdraw : BridgeWithdrawTx) : EngineM Unit := do
  checkBridge operator withdraw.assetId
  let oldBalance ← reads fun e => e.state.getBalance withdraw.user withdraw.assetId
  if oldBalance < withdraw.amount then throw .insufficientBalance
  else
    writes fun e => {e with state:=e.state.setBalance withdraw.user withdraw.assetId (oldBalance - withdraw.amount)}
    emit (.bridgeWithdraw operator withdraw.user withdraw.assetId withdraw.amount withdraw.destination
      withdraw.externalTxHash)

end AccountService

namespace AgentService

def setAgent (account : Address) (setAgent : SetAgentTx) : EngineM Unit :=
  emit (.agentSet account setAgent.agent setAgent.permissions)

def removeAgent (account : Address) (removeAgent : RemoveAgentTx) : EngineM Unit :=
  emit (.agentRemoved account removeAgent.agent)

end AgentService

-- An account without an entry has no agents; the entry goes with its last agent.
abbrev AgentRegistry := Address → Address → Option Nat

def AgentRegistry.setAgent (agents : AgentRegistry) (account agent : Address) (permissions : Nat) : AgentRegistry :=
  Function.update agents account (Function.update (agents account) agent (some permissions))

def AgentRegistry.removeAgent (agents : AgentRegistry) (account agent : Address) : AgentRegistry :=
  Function.update agents account (Function.update (agents account) agent none)

inductive AuthError where
  | invalidSignature (message : String)
  | unauthorized (signer account : Address)
deriving DecidableEq

inductive TxExecutionError where
  | auth (error : AuthError)
  | engine (error : EngineError)
  | decode (message : String)
  | invalidNonce (expected got : Nat)
  | nonceGap (expected got : Nat)
  | notImplemented (operation : String)
  | unauthorized
deriving DecidableEq

-- Borsh and the recovery of a signer from a signature, which the node takes from
-- libraries.
structure Codec where
  fromSlice : List UInt8 → Except String Transaction
  recoverAddress : Transaction → Except String Address

def maxTxSize : Nat := 100000

def Transaction.decode (codec : Codec) (data : List UInt8) : Except TxExecutionError Transaction :=
  if maxTxSize < data.length then
    .error (.decode ("Transaction too large: " ++ toString data.length ++ " bytes (max: " ++ toString maxTxSize ++ " bytes)"))
  else (codec.fromSlice data).mapError .decode

structure Node where
  engine : Engine
  auth : AgentRegistry

abbrev NodeM := Eff Node TxExecutionError

namespace TransactionExecutor

-- An engine call of a transaction: what it has written stays when it fails.
def onEngine (m : EngineM α) : NodeM α := fun node =>
  match exec m node.engine with
  | (.ok value,e) => (.ok value,{node with engine:=e})
  | (.error error,e) => (.error (.engine error),{node with engine:=e})

def recoverSigner (codec : Codec) (tx : Transaction) : Except TxExecutionError Address :=
  (codec.recoverAddress tx).mapError fun message => .auth (.invalidSignature message)

def verifyTransaction (codec : Codec) (tx : Transaction) : NodeM Unit := do
  let signer ← tries fun _ => recoverSigner codec tx
  if signer = tx.sender then pure () else throw (.auth (.unauthorized signer tx.sender))

def verifyTxOwner (codec : Codec) (tx : Transaction) : NodeM Unit := do
  let signer ← tries fun _ => recoverSigner codec tx
  if signer = tx.sender then pure () else throw .unauthorized

def verifyNonce (tx : Transaction) : NodeM Unit := do
  let currentNonce ← reads fun node => node.engine.state.getNonce tx.sender
  if tx.nonce < currentNonce then throw (.invalidNonce currentNonce tx.nonce)
  else if currentNonce < tx.nonce then throw (.nonceGap currentNonce tx.nonce)
  else pure ()

def executePayload (codec : Codec) (tx : Transaction) : NodeM Unit :=
  match tx.payload with
  | .setAgent agent => do
    verifyTxOwner codec tx
    writes fun node => {node with auth:=node.auth.setAgent tx.sender agent.agent agent.permissions}
    onEngine (AgentService.setAgent tx.sender agent)
  | .removeAgent agent => do
    verifyTxOwner codec tx
    writes fun node => {node with auth:=node.auth.removeAgent tx.sender agent.agent}
    onEngine (AgentService.removeAgent tx.sender agent)
  | .deposit deposit => onEngine (AccountService.deposit tx.sender deposit)
  | .withdraw withdraw => onEngine (AccountService.withdraw tx.sender withdraw)
  | .transfer transfer => onEngine (AccountService.transfer tx.sender transfer)
  | .placeOrder order => onEngine do
    let _ ← OrderService.placeOrder tx.sender order
    return ()
  | .cancelOrder cancel => onEngine (OrderService.cancelOrder tx.sender cancel)
  | .closePosition close => onEngine (PositionService.closePosition tx.sender close)
  | .bridgeDeposit deposit => onEngine (AccountService.bridgeDeposit tx.sender deposit)
  | .bridgeWithdraw withdraw => onEngine (AccountService.bridgeWithdraw tx.sender withdraw)
  | .modifyOrder _ => throw (.notImplemented "ModifyOrder")

def incrementNonce (address : Address) : NodeM Unit :=
  writes fun node => {node with engine:={node.engine with state:=node.engine.state.incrementNonce address}}

-- The mempool, from which the transaction is dropped last, is no part of the state.
def execute (codec : Codec) (tx : Transaction) : NodeM Unit := do
  verifyTransaction codec tx
  verifyNonce tx
  executePayload codec tx
  incrementNonce tx.sender

def executeBytes (codec : Codec) (data : List UInt8) : NodeM Unit := do
  let tx ← tries fun _ => Transaction.decode codec data
  execute codec tx

structure TxExecutionStats where
  successful : Nat := 0
  failed : Nat := 0
deriving DecidableEq

def executeBatch (codec : Codec) (stats : TxExecutionStats) (node : Node) : List (List UInt8) → TxExecutionStats × Node
  | [] => (stats,node)
  | data :: rest =>
    match exec (executeBytes codec data) node with
    | (.ok _,after) => executeBatch codec {stats with successful:=stats.successful + 1} after rest
    | (.error _,after) => executeBatch codec {stats with failed:=stats.failed + 1} after rest

end TransactionExecutor

structure Block where
  height : Nat
  txs : List (List UInt8)

namespace Node
open Storage

-- A process on an opened store: nothing but the store survives from the one before.
def new (storage : StateStorage) (hashOrder : HashOrder) : Node :=
  ⟨Engine.new (StateManager.new storage hashOrder),fun _ _ => none⟩

def execute (codec : Codec) (node : Node) (block : Block) : Node :=
  (TransactionExecutor.executeBatch codec {}
    {node with engine:={node.engine with state:=node.engine.state.beginBlock block.height}} block.txs).2

-- `execute_txs`: the root that is returned, and the node after it.
def executeTxs (hasher : TreeHasher StateKey StateKey.Value B256) (codec : Codec) (node : Node) (block : Block) :
    B256 × Node :=
  let executed := node.execute codec block
  let (root,state) := executed.engine.state.commit hasher
  (root,{executed with engine:={executed.engine with state:=state}})

end Node
end Pranklin
