import Pranklin.Fronts
import Pranklin.Nonces
import Pranklin.Sourcing

namespace Pranklin
open Words Effect TransactionExecutor AccountService Sourcing

structure Books where
  balances : Address → Nat → Nat
  agents : AgentRegistry

namespace Books

def ofNode (node : Node) : Books := ⟨node.engine.state.getBalance,node.auth⟩

def setBalance (books : Books) (address : Address) (assetId amount : Nat) : Books :=
  {books with balances:=fun owner read => if owner = address ∧ read = assetId then amount else books.balances owner read}

def credit (books : Books) (address : Address) (assetId amount : Nat) : Books :=
  books.setBalance address assetId (books.balances address assetId + amount)

def debit (books : Books) (address : Address) (assetId amount : Nat) : Option Books :=
  if amount ≤ books.balances address assetId then
    some (books.setBalance address assetId (books.balances address assetId - amount))
  else none

-- A change of a balance says what it found, and a debit has to be covered.
def post (books : Books) : Event → Option Books
  | .balanceChanged address assetId oldBalance newBalance _ =>
    if books.balances address assetId = oldBalance then some (books.setBalance address assetId newBalance) else none
  | .transfer sender recipient assetId amount =>
    (books.debit sender assetId amount).map fun debited => debited.credit recipient assetId amount
  | .bridgeDeposit _ user assetId amount _ => some (books.credit user assetId amount)
  | .bridgeWithdraw _ user assetId amount _ _ => books.debit user assetId amount
  | .agentSet account agent permissions => some {books with agents:=books.agents.setAgent account agent permissions}
  | .agentRemoved account agent => some {books with agents:=books.agents.removeAgent account agent}
  | _ => some books

def measure (place : Address × Nat) (books : Books) : Int := books.balances place.1 place.2

end Books

def Event.weight (place : Address × Nat) : Event → Int
  | .balanceChanged address assetId oldBalance newBalance _ =>
    if place.1 = address ∧ place.2 = assetId then (newBalance : Int) - oldBalance else 0
  | .transfer sender recipient assetId amount =>
    (if place.1 = recipient ∧ place.2 = assetId then (amount : Int) else 0) -
      (if place.1 = sender ∧ place.2 = assetId then (amount : Int) else 0)
  | .bridgeDeposit _ user assetId amount _ => if place.1 = user ∧ place.2 = assetId then (amount : Int) else 0
  | .bridgeWithdraw _ user assetId amount _ _ => if place.1 = user ∧ place.2 = assetId then -(amount : Int) else 0
  | _ => 0

namespace TransactionExecutor

instance (codec : Codec) (tx : Transaction) (node : Node) : Decidable (Accepted codec tx node) :=
  decidable_of_iff (recoverSigner codec tx = .ok tx.sender ∧ tx.nonce = node.engine.state.getNonce tx.sender)
    ⟨fun both => ⟨both.1,both.2⟩,fun accepted => ⟨accepted.signed,accepted.next⟩⟩

def payloadLoss (e : Engine) (tx : Transaction) (place : Address × Nat) : Nat :=
  match tx.payload with
  | .transfer request =>
    if place = (tx.sender,request.assetId) then (AccountCall.transfer tx.sender request).loss e request.assetId else 0
  | _ => 0

def bytesLoss (codec : Codec) (node : Node) (data : List UInt8) (place : Address × Nat) : Nat :=
  match Transaction.decode codec data with
  | .ok tx => if Accepted codec tx node then payloadLoss node.engine tx place else 0
  | .error _ => 0

-- The bytes are a transfer that is accepted and debits its sender, and its recipient's balance
-- cannot take the amount.
def Burns (codec : Codec) (node : Node) (data : List UInt8) : Prop :=
  ∃ tx request, Transaction.decode codec data = .ok tx ∧ Accepted codec tx node ∧ tx.payload = .transfer request ∧
    (AccountCall.transfer tx.sender request).Drains node.engine request.assetId

end TransactionExecutor

namespace Journal
variable {codec : Codec} {tx : Transaction} {node next : Node} {e : Engine}

abbrev Told (before last : Node) : Prop := Tells Books.post (·.engine.context) Books.ofNode before last

theorem post_weight (place : Address × Nat) (books : Books) (event : Event) (next : Books)
    (posted : books.post event = some next) : next.measure place = books.measure place + event.weight place := by
  obtain ⟨owner,read⟩ := place
  have debited : ∀ {address assetId amount} {next : Books}, books.debit address assetId amount = some next →
      (next.balances owner read : Int) = books.balances owner read -
        (if owner = address ∧ read = assetId then (amount : Int) else 0) := by
    intro address assetId amount next debited
    unfold Books.debit at debited
    split at debited
    · rename_i covered
      cases debited
      simp only [Books.setBalance]
      split
      · rename_i own
        obtain ⟨rfl,rfl⟩ := own
        omega
      · simp
    · cases debited
  have credited : ∀ (books : Books) address assetId amount, ((books.credit address assetId amount).balances owner read : Int) =
      books.balances owner read + (if owner = address ∧ read = assetId then (amount : Int) else 0) := by
    intro books address assetId amount
    simp only [Books.credit,Books.setBalance]
    split
    · rename_i own
      obtain ⟨rfl,rfl⟩ := own
      omega
    · simp
  unfold Books.measure
  dsimp only
  cases event with
  | balanceChanged address assetId oldBalance newBalance reason =>
    simp only [Books.post] at posted
    split at posted
    · rename_i found
      cases posted
      simp only [Books.setBalance,Event.weight]
      split
      · rename_i own
        obtain ⟨rfl,rfl⟩ := own
        omega
      · simp
    · cases posted
  | transfer sender recipient assetId amount =>
    obtain ⟨middle,taken,rfl⟩ := Option.map_eq_some_iff.mp posted
    rw [credited,debited taken,Event.weight]
    dsimp only
    omega
  | bridgeDeposit operator user assetId amount externalTxHash =>
    cases posted
    exact credited books user assetId amount
  | bridgeWithdraw operator user assetId amount destination externalTxHash =>
    rw [debited posted,Event.weight]
    dsimp only
    split <;> omega
  | _ => cases posted; simp [Event.weight]

theorem ofNode_setBalance (agents : next.auth = node.auth)
    (written : next.engine.state = node.engine.state.setBalance address assetId amount) :
    Books.ofNode next = (Books.ofNode node).setBalance address assetId amount := by
  unfold Books.ofNode Books.setBalance
  rw [agents,written]
  congr 1
  funext owner read
  exact Supply.getBalance_setBalance _ _ _ _ _ _

section Accounts

theorem updateBalance_told (node : Node) (address : Address) (assetId amount : Nat) (isCredit : Bool)
    (reason : BalanceChangeReason) :
    Told node {node with engine:=(exec (updateBalance address assetId amount isCredit reason) node.engine).2} := by
  rw [updateBalance,exec_reads_bind,exec_bind,exec_tries]
  cases newBalance (node.engine.state.getBalance address assetId) amount isCredit with
  | error error => exact .refl node
  | ok balance =>
    refine .entry rfl ((if_pos rfl).trans ?_)
    exact congrArg some (ofNode_setBalance (by rfl) (by rfl)).symm

theorem transfer_noted (ran : exec (transfer sender request) e = (.ok (),last)) :
    last.context = e.context ++ [.transfer sender request.recipient request.assetId request.amount] := by
  unfold transfer at ran
  split at ran
  · cases ran
  rw [exec_reads_bind] at ran
  obtain ⟨asset,_,ran⟩ := exec_orThrow_ok ran
  split at ran
  · cases ran
  rw [exec_reads_bind] at ran
  split at ran
  · cases ran
  rw [exec_writes_bind,exec_reads_bind] at ran
  obtain ⟨balance,_,ran⟩ := exec_orThrow_ok ran
  cases ran
  rfl

theorem bridgeDeposit_noted (ran : exec (bridgeDeposit operator request) e = (.ok (),last)) :
    last.context = e.context ++
      [.bridgeDeposit operator request.user request.assetId request.amount request.externalTxHash] := by
  by_cases bridges : Supply.Bridges e operator request.assetId
  · rw [bridgeDeposit,exec_ok_bind (Supply.checkBridge_passes bridges),exec_reads_bind] at ran
    obtain ⟨balance,_,ran⟩ := exec_orThrow_ok ran
    cases ran
    rfl
  · obtain ⟨error,failed⟩ := Supply.bridgeDeposit_refused bridges
    rw [failed] at ran
    cases ran

theorem bridgeWithdraw_noted (ran : exec (bridgeWithdraw operator request) e = (.ok (),last)) :
    last.context = e.context ++ [.bridgeWithdraw operator request.user request.assetId request.amount
      request.destination request.externalTxHash] := by
  by_cases bridges : Supply.Bridges e operator request.assetId
  · rw [bridgeWithdraw,exec_ok_bind (Supply.checkBridge_passes bridges),exec_reads_bind] at ran
    split at ran
    · cases ran
    · cases ran
      rfl
  · obtain ⟨error,failed⟩ := Supply.bridgeWithdraw_refused bridges
    rw [failed] at ran
    cases ran

theorem transfer_told (node : Node) (sender : Address) (request : TransferTx)
    (kept : ¬(AccountCall.transfer sender request).Drains node.engine request.assetId) :
    Told node {node with engine:=(exec (transfer sender request) node.engine).2} := by
  have transfers := Supply.transfer_transfers sender request node.engine
  cases ran : exec (transfer sender request) node.engine with
  | mk result last =>
  rw [ran] at transfers
  cases transfers with
  | refused error refuses => exact .refl node
  | drained passes exceeds => exact absurd ⟨rfl,passes.1,passes.2.1,passes.2.2,exceeds⟩ kept
  | arrived passes small context =>
    let middle : Node := ⟨{node.engine with state:=Supply.debited node.engine.state sender request},node.auth⟩
    have debits : (Books.ofNode node).debit sender request.assetId request.amount = some (Books.ofNode middle) :=
      (if_pos passes.2.2).trans (congrArg some (ofNode_setBalance (by rfl) (by rfl)).symm)
    have found : (Books.ofNode middle).balances request.recipient request.assetId =
        node.engine.state.getBalance request.recipient request.assetId :=
      (Supply.getBalance_setBalance ..).trans (if_neg fun same => passes.1 same.1.symm)
    refine .entry (transfer_noted ran) ?_
    rw [Books.post,debits,Option.map_some,Books.credit,found]
    exact congrArg some (ofNode_setBalance (by rfl) (by rfl)).symm

theorem bridgeDeposit_told (node : Node) (operator : Address) (request : BridgeDepositTx) :
    Told node {node with engine:=(exec (bridgeDeposit operator request) node.engine).2} := by
  have rewrites := Supply.bridgeDeposit_rewrites operator request node.engine
  cases ran : exec (bridgeDeposit operator request) node.engine with
  | mk result last =>
  rw [ran] at rewrites
  cases rewrites with
  | refused error => exact .refl node
  | written balance raised small context =>
    refine .entry (bridgeDeposit_noted ran) ?_
    obtain rfl : balance = node.engine.state.getBalance request.user request.assetId + request.amount := by omega
    exact congrArg some (ofNode_setBalance (by rfl) (by rfl)).symm

theorem bridgeWithdraw_told (node : Node) (fits : node.engine.BalancesFit) (operator : Address) (request : BridgeWithdrawTx) :
    Told node {node with engine:=(exec (bridgeWithdraw operator request) node.engine).2} := by
  have rewrites := Supply.bridgeWithdraw_rewrites fits operator request
  cases ran : exec (bridgeWithdraw operator request) node.engine with
  | mk result last =>
  rw [ran] at rewrites
  cases rewrites with
  | refused error => exact .refl node
  | written balance lowered small context =>
    refine .entry (bridgeWithdraw_noted ran) ?_
    have covered : request.amount ≤ node.engine.state.getBalance request.user request.assetId := by omega
    obtain rfl : balance = node.engine.state.getBalance request.user request.assetId - request.amount := by omega
    exact (if_pos covered).trans (congrArg some (ofNode_setBalance (by rfl) (by rfl)).symm)

end Accounts

section Orders
open OrderService Pranklin.Frame

def Adds (e last : Engine) : Prop :=
  ∃ entries, last.context = e.context ++ entries ∧ ∀ entry ∈ entries, ∀ books, Books.post books entry = some books

theorem adds_of_context {e last : Engine} (kept : last.context = e.context) : Adds e last :=
  ⟨[],kept.trans (List.append_nil _).symm,fun _ none => absurd none List.not_mem_nil⟩

theorem adds_refl (e : Engine) : Adds e e := adds_of_context rfl

theorem adds_trans (a b c : Engine) (first : Adds a b) (second : Adds b c) : Adds a c := by
  obtain ⟨front,noted,passed⟩ := first
  obtain ⟨back,later,passedLater⟩ := second
  refine ⟨front ++ back,by rw [later,noted,List.append_assoc],fun entry inside => ?_⟩
  rcases List.mem_append.mp inside with inside | inside
  · exact passed entry inside
  · exact passedLater entry inside

abbrev Adding (m : EngineM α) : Prop := Guarantees Adds m

theorem adding_bind {m : EngineM α} {next : α → EngineM β} (first : Adding m) (rest : ∀ value, Adding (next value)) :
    Adding (m >>= next) := .bind adds_trans first rest

theorem adding_writes {write : Engine → Engine} (kept : ∀ e, (write e).context = e.context) :
    Adding (writes write : EngineM Unit) := fun e => adds_of_context (kept e)

theorem adding_emit {event : Event} (passed : ∀ books, Books.post books event = some books) : Adding (emit event) :=
  fun _ => ⟨[event],rfl,fun _ inside => List.mem_singleton.mp inside ▸ passed⟩

theorem adding_updatePosition (trader : Address) (marketId size price : Nat) (isBuy : Bool) (bps : Nat) :
    Adding (PositionManager.updatePosition trader marketId size price isBuy bps) := by
  refine adding_bind (.tries adds_refl _) fun updated => ?_
  cases updated with
  | some position => exact adding_writes fun _ => rfl
  | none => exact adding_writes fun _ => rfl

theorem adding_processFills (market : Market) (fills : List Fill) : Adding (processFills market fills) := by
  induction fills with
  | nil => exact .pure adds_refl ()
  | cons fill fills ih =>
    refine adding_bind (adding_bind (adding_updatePosition _ _ _ _ _ _) fun _ => ?_) fun _ => ih
    exact adding_bind (adding_updatePosition _ _ _ _ _ _) fun _ => adding_emit fun _ => rfl

theorem adding_takeOrderId : Adding takeOrderId := by
  refine .attempts adds_refl fun e orderId last ran => ?_
  split at ran
  · cases ran
  · cases ran
    exact adds_of_context rfl

theorem adding_matchIncoming (order : Order) : Adding (matchIncoming order) := by
  refine .attempts adds_refl fun e fills last ran => ?_
  split at ran
  · cases ran
  · cases ran
    exact adds_of_context rfl

theorem adding_settleOrder (order : Order) (timeInForce : TimeInForce) : Adding (settleOrder order timeInForce) := by
  unfold settleOrder
  split
  · exact adding_writes fun _ => rfl
  · cases timeInForce with
    | gtc | postOnly => exact adding_writes fun _ => rfl
    | ioc => exact adding_writes fun _ => rfl
    | fok => exact .throw adds_refl _

theorem adding_placeOrder (trader : Address) (request : PlaceOrderTx) : Adding (placeOrder trader request) := by
  refine adding_bind (.tries adds_refl _) fun market => adding_bind adding_takeOrderId fun orderId => ?_
  refine adding_bind (.reads adds_refl _) fun createdAt => adding_bind (adding_matchIncoming _) fun fills => ?_
  refine adding_bind (adding_processFills market fills) fun _ => adding_bind (adding_emit fun _ => rfl) fun _ => ?_
  exact adding_bind (adding_settleOrder _ _) fun _ => .pure adds_refl _

theorem adding_cancelOrder (trader : Address) (cancel : CancelOrderTx) : Adding (OrderService.cancelOrder trader cancel) := by
  refine adding_bind (.reads adds_refl _) fun found => adding_bind (.orThrow adds_refl _ _) fun order => ?_
  split
  · exact .throw adds_refl _
  · split
    · exact .throw adds_refl _
    · refine adding_bind (adding_writes fun _ => rfl) fun _ => adding_bind (adding_writes fun _ => rfl) fun _ => ?_
      exact adding_emit fun _ => rfl

theorem adding_closePosition (trader : Address) (close : ClosePositionTx) :
    Adding (PositionService.closePosition trader close) := by
  refine adding_bind (.reads adds_refl _) fun found => adding_bind (.orThrow adds_refl _ _) fun position => ?_
  exact adding_bind (adding_placeOrder _ _) fun _ => .pure adds_refl _

def ofAccounts : StateKey → Bool
  | .balance _ _ => true
  | _ => false

theorem clear_ofAccounts : Clear ofAccounts := by
  intro key chosen
  cases key <;> first | rfl | cases chosen

theorem trading_told {m : EngineM α} (adding : Adding m) (sparing : Sparing ofAccounts m) (node : Node) :
    Told node {node with engine:=(exec m node.engine).2} := by
  obtain ⟨entries,noted,passed⟩ := adding node.engine
  refine ⟨entries,noted,?_⟩
  rw [rebuild_ignored passed]
  unfold Books.ofNode
  congr 2
  funext address assetId
  exact (congrArg (Option.getD · 0) (sparing node.engine (.balance address assetId) rfl)).symm

end Orders

section Payloads
open OrderService Pranklin.Frame

theorem payload_told (fits : node.engine.BalancesFit)
    (kept : ∀ request, tx.payload = .transfer request →
      ¬(AccountCall.transfer tx.sender request).Drains node.engine request.assetId) :
    Told node ⟨(exec (executeTxPayloadReadonly tx) node.engine).2,agentsAfter tx node.auth⟩ := by
  unfold executeTxPayloadReadonly agentsAfter
  have clear := clear_ofAccounts
  cases payload : tx.payload with
  | deposit request | withdraw request => dsimp only; rw [exec_asTx_state]; exact updateBalance_told node _ _ _ _ _
  | transfer request => dsimp only; rw [exec_asTx_state]; exact transfer_told node _ _ (kept request payload)
  | bridgeDeposit request => dsimp only; rw [exec_asTx_state]; exact bridgeDeposit_told node _ _
  | bridgeWithdraw request => dsimp only; rw [exec_asTx_state]; exact bridgeWithdraw_told node fits _ _
  | placeOrder request =>
    dsimp only
    rw [exec_asTx_state]
    refine trading_told (adding_bind (adding_placeOrder _ _) fun _ => .pure adds_refl _) ?_ node
    exact sparing_bind (sparing_placeOrder clear _ _) fun _ => .pure spared_refl _
  | cancelOrder cancel =>
    dsimp only
    rw [exec_asTx_state]
    exact trading_told (adding_cancelOrder _ _) (sparing_cancelOrder clear _ _) node
  | closePosition close =>
    dsimp only
    rw [exec_asTx_state]
    exact trading_told (adding_closePosition _ _) (sparing_closePosition clear _ _) node
  | setAgent agent | removeAgent agent => exact .entry rfl rfl
  | modifyOrder modify => exact .refl node

theorem transfer_burned (drains : (AccountCall.transfer tx.sender request).Drains node.engine request.assetId) :
    (exec (transfer tx.sender request) node.engine).2.context = node.engine.context ∧
      ∀ place, (Books.measure place (Books.ofNode {node with engine:=(exec (transfer tx.sender request) node.engine).2})) =
        Books.measure place (Books.ofNode node) -
          (if place = (tx.sender,request.assetId) then request.amount else 0 : Nat) := by
  obtain ⟨_,apart,backed,covered,exceeds⟩ := drains
  have transfers := Supply.transfer_transfers tx.sender request node.engine
  cases ran : exec (transfer tx.sender request) node.engine with
  | mk result last =>
  rw [ran] at transfers
  cases transfers with
  | refused error refuses => exact absurd ⟨apart,backed,covered⟩ refuses
  | arrived passes small context => exact absurd small (Nat.not_lt.mpr exceeds)
  | drained passes exceeds =>
    refine ⟨rfl,fun place => ?_⟩
    obtain ⟨owner,read⟩ := place
    unfold Books.measure Books.ofNode
    dsimp only
    rw [Supply.debited,Supply.getBalance_setBalance]
    simp only [Prod.mk.injEq]
    split
    · rename_i own
      obtain ⟨rfl,rfl⟩ := own
      omega
    · simp

theorem payloadLoss_drains (payload : tx.payload = .transfer request)
    (drains : (AccountCall.transfer tx.sender request).Drains e request.assetId) (place : Address × Nat) :
    payloadLoss e tx place = if place = (tx.sender,request.assetId) then request.amount else 0 := by
  unfold payloadLoss AccountCall.loss
  rw [payload]
  dsimp only
  rw [if_pos drains]

theorem payloadLoss_kept (kept : ∀ request, tx.payload = .transfer request →
      ¬(AccountCall.transfer tx.sender request).Drains e request.assetId) (place : Address × Nat) :
    payloadLoss e tx place = 0 := by
  unfold payloadLoss
  split
  · rename_i request payload
    rw [AccountCall.loss,if_neg (kept request payload),ite_self]
  · rfl

theorem payload_writes (fits : node.engine.BalancesFit) (tx : Transaction) :
    Writes Books.post (fun node : Node => node.engine.context) Books.ofNode Books.measure Event.weight
      (payloadLoss node.engine tx) node ⟨(exec (executeTxPayloadReadonly tx) node.engine).2,agentsAfter tx node.auth⟩ := by
  by_cases drains : ∃ request, tx.payload = .transfer request ∧
      (AccountCall.transfer tx.sender request).Drains node.engine request.assetId
  · obtain ⟨request,payload,drains⟩ := drains
    have lost := payloadLoss_drains payload drains
    obtain ⟨silent,burned⟩ := transfer_burned drains
    have ran : (⟨(exec (executeTxPayloadReadonly tx) node.engine).2,agentsAfter tx node.auth⟩ : Node) =
        {node with engine:=(exec (transfer tx.sender request) node.engine).2} := by
      unfold executeTxPayloadReadonly agentsAfter
      rw [payload]
      dsimp only
      rw [exec_asTx_state]
    rw [ran]
    refine ⟨fun none => ?_,[],by rw [List.append_nil]; exact silent,fun place => ?_⟩
    · -- What is lost does not fit the recipient's balance, so it is not nothing.
      have amount := none (tx.sender,request.assetId)
      rw [lost,if_pos rfl] at amount
      have word := fits request.recipient request.assetId
      have exceeds := drains.2.2.2.2
      omega
    · rw [burned,lost]
      simp
  · have kept : ∀ request, tx.payload = .transfer request →
        ¬(AccountCall.transfer tx.sender request).Drains node.engine request.assetId :=
      fun request payload one => drains ⟨request,payload,one⟩
    rw [show payloadLoss node.engine tx = fun _ => 0 from funext (payloadLoss_kept kept)]
    exact (payload_told fits kept).writes post_weight

theorem payload_fits (fits : e.BalancesFit) (tx : Transaction) : (exec (executeTxPayloadReadonly tx) e).2.BalancesFit := by
  have account : ∀ call : AccountCall, (exec call.perform e).2.BalancesFit := fun call => (Supply.after_accounts fits call 0).fits
  have trading : ∀ {m : EngineM Unit}, Sparing ofAccounts m → (exec (asTx m) e).2.BalancesFit := by
    intro m sparing address assetId
    rw [exec_asTx_state]
    have kept : (exec m e).2.state.getBalance address assetId = e.state.getBalance address assetId :=
      congrArg (Option.getD · 0) (sparing e (.balance address assetId) rfl)
    rw [kept]
    exact fits address assetId
  have clear := clear_ofAccounts
  unfold executeTxPayloadReadonly
  cases tx.payload with
  | deposit request => dsimp only; rw [exec_asTx_state]; exact account (.deposit tx.sender request)
  | withdraw request => dsimp only; rw [exec_asTx_state]; exact account (.withdraw tx.sender request)
  | transfer request => dsimp only; rw [exec_asTx_state]; exact account (.transfer tx.sender request)
  | bridgeDeposit request => dsimp only; rw [exec_asTx_state]; exact account (.bridgeDeposit tx.sender request)
  | bridgeWithdraw request => dsimp only; rw [exec_asTx_state]; exact account (.bridgeWithdraw tx.sender request)
  | placeOrder request => exact trading (sparing_bind (sparing_placeOrder clear _ _) fun _ => .pure spared_refl _)
  | cancelOrder cancel => exact trading (sparing_cancelOrder clear _ _)
  | closePosition close => exact trading (sparing_closePosition clear _ _)
  | setAgent agent | removeAgent agent => exact trading (sparing_emit _)
  | modifyOrder modify => exact fits

theorem getBalance_incrementNonce (s : StateManager) (address : Address) : (s.incrementNonce address).getBalance = s.getBalance := by
  funext owner assetId
  exact congrArg (Option.getD · 0) (StateManager.get_set_ne _ _ (by simp))

end Payloads

section Bytes

theorem after_payload (codec : Codec) (node : Node) (data : List UInt8) :
    after codec node data = node ∧ (∀ place, bytesLoss codec node data place = 0) ∨
      ∃ tx, Transaction.decode codec data = .ok tx ∧ Accepted codec tx node ∧
        bytesLoss codec node data = payloadLoss node.engine tx ∧
        (after codec node data).engine.context = (exec (executeTxPayloadReadonly tx) node.engine).2.context ∧
        (after codec node data).engine.state.getBalance = (exec (executeTxPayloadReadonly tx) node.engine).2.state.getBalance ∧
        (after codec node data).auth = agentsAfter tx node.auth := by
  unfold after bytesLoss
  rw [executeBytes,exec_bind,exec_tries]
  cases Transaction.decode codec data with
  | error error => exact .inl ⟨rfl,fun _ => rfl⟩
  | ok tx =>
  dsimp only
  by_cases accepted : Accepted codec tx node
  case neg =>
    obtain ⟨error,failed⟩ := execute_rejected accepted
    rw [failed]
    exact .inl ⟨rfl,fun _ => if_neg accepted⟩
  refine .inr ⟨tx,rfl,accepted,funext fun _ => if_pos accepted,?_⟩
  rw [execute_accepted accepted]
  cases exec (executeTxPayloadReadonly tx) node.engine with
  | mk result e =>
    cases result with
    | error error => exact ⟨rfl,rfl,rfl⟩
    | ok _ => exact ⟨rfl,getBalance_incrementNonce _ _,rfl⟩

theorem after_fits (fits : node.engine.BalancesFit) (data : List UInt8) : (after codec node data).engine.BalancesFit := by
  rcases after_payload codec node data with ⟨same,_⟩ | ⟨tx,_,_,_,_,balances,_⟩
  · rwa [same]
  · intro address assetId
    rw [balances]
    exact payload_fits fits tx address assetId

theorem after_writes (fits : node.engine.BalancesFit) (data : List UInt8) :
    Writes Books.post (fun node : Node => node.engine.context) Books.ofNode Books.measure Event.weight
      (bytesLoss codec node data) node (after codec node data) := by
  rcases after_payload codec node data with ⟨same,none⟩ | ⟨tx,_,_,loss,context,balances,agents⟩
  · rw [same,show bytesLoss codec node data = fun _ => 0 from funext none]
    exact (Tells.refl node).writes post_weight
  · obtain ⟨told,entries,noted,moved⟩ := payload_writes fits tx
    have held : Books.ofNode (after codec node data) =
        Books.ofNode ⟨(exec (executeTxPayloadReadonly tx) node.engine).2,agentsAfter tx node.auth⟩ := by
      unfold Books.ofNode
      rw [balances,agents]
    rw [loss]
    refine ⟨fun none => ?_,entries,context.trans noted,by rw [held]; exact moved⟩
    obtain ⟨events,read,rebuilt⟩ := told none
    exact ⟨events,context.trans read,by rw [held]; exact rebuilt⟩

theorem bytesLoss_iff (fits : node.engine.BalancesFit) (data : List UInt8) :
    (∀ place, bytesLoss codec node data place = 0) ↔ ¬Burns codec node data := by
  constructor
  · intro none ⟨tx,request,decoded,accepted,payload,drains⟩
    have amount := none (tx.sender,request.assetId)
    unfold bytesLoss at amount
    rw [decoded] at amount
    dsimp only at amount
    rw [if_pos accepted,payloadLoss_drains payload drains,if_pos rfl] at amount
    have word := fits request.recipient request.assetId
    have exceeds := drains.2.2.2.2
    omega
  · intro kept place
    unfold bytesLoss
    split
    · rename_i tx decoded
      split
      · rename_i accepted
        exact payloadLoss_kept (fun request payload drains => kept ⟨tx,request,decoded,accepted,payload,drains⟩) place
      · rfl
    · rfl

-- Whatever the batches hold: from the events they add, a reader that starts with the balances
-- and agents of the first node comes to those of the last, exactly when no transfer on the way
-- has ended between its debit and its credit.
theorem batches_told_iff (codec : Codec) (node : Node) (fits : node.engine.BalancesFit) (batches : List (List (List UInt8))) :
    Told node (runBatches codec node batches) ↔
      ∀ front data, front ++ [data] <+: batches.flatten → ¬Burns codec (front.foldl (after codec) node) data := by
  rw [Nonces.runBatches_flatten]
  have keeps : ∀ (node : Node) (data : List UInt8), node.engine.BalancesFit → (after codec node data).engine.BalancesFit :=
    fun _ data fits => after_fits fits data
  refine (tells_foldl_iff post_weight keeps (fun _ data fits => after_writes fits data) node fits _).trans ?_
  have sound : ∀ front : List (List UInt8), (front.foldl (after codec) node).engine.BalancesFit := by
    intro front
    induction front using List.reverseRecOn with
    | nil => exact fits
    | append_singleton front data ih => rw [List.foldl_append]; exact after_fits ih data
  constructor
  · exact fun none front data part => (bytesLoss_iff (sound front) data).mp (none front data part)
  · exact fun kept front data part => (bytesLoss_iff (sound front) data).mpr (kept front data part)

theorem burns_read {data : List UInt8} (read : Transaction.decode codec data = .ok tx) (burns : Burns codec node data) :
    ∃ request, tx.payload = .transfer request ∧
      (AccountCall.transfer tx.sender request).Drains node.engine request.assetId := by
  obtain ⟨_,request,decoded,_,payload,drains⟩ := burns
  cases read.symm.trans decoded
  exact ⟨request,payload,drains⟩

namespace Bench
open Pranklin.Bench

def deposits : Transaction := ⟨0,alice,.deposit ⟨10,0⟩,.rawBorsh 0⟩
def pays : Transaction := ⟨1,alice,.transfer ⟨bob,4,0⟩,.rawBorsh 0⟩
def names : Transaction := ⟨2,alice,.setAgent ⟨carol,3⟩,.rawBorsh 0⟩

def told : List (List (List UInt8)) := [[written deposits,[9]],[written pays,written pays,written names]]

-- Alice fills her balance, and bob deposits one and pays it to her.
def saturates : Transaction := ⟨0,alice,.deposit ⟨2 ^ 128 - 1,0⟩,.rawBorsh 0⟩
def adds : Transaction := ⟨0,bob,.deposit ⟨1,0⟩,.rawBorsh 0⟩
def burning : Transaction := ⟨1,bob,.transfer ⟨alice,1,0⟩,.rawBorsh 0⟩

def ledgerNode : Node := ⟨Engine.new Supply.listed,fun _ _ => none⟩

theorem told_kept : ∀ front data, front ++ [data] <+: told.flatten →
    ¬Burns trusting (front.foldl (after trusting) ledgerNode) data := by
  have named : ∀ tx ∈ [deposits,pays,names], Transaction.decode trusting (written tx) = .ok tx := by decide +kernel
  simp only [List.forall_mem_cons] at named
  obtain ⟨deposited,paid,agreed,_⟩ := named
  have unreadable : (Transaction.decode trusting [9]).toOption = none := by decide +kernel
  have arrives : ∀ node, ¬(AccountCall.transfer alice ⟨bob,4,0⟩).Drains node.engine 0 → ¬Burns trusting node (written pays) := by
    intro node dry burns
    obtain ⟨_,payload,drains⟩ := burns_read paid burns
    cases payload
    exact dry drains
  have whole : told.flatten = [written deposits,[9],written pays,written pays,written names] := rfl
  simp only [whole,Fronts.forall_step_cons]
  refine ⟨?_,?_,arrives _ (by decide +kernel),arrives _ (by decide +kernel),?_,Fronts.forall_step_nil⟩
  · intro burns
    obtain ⟨_,payload,_⟩ := burns_read deposited burns
    cases payload
  · intro ⟨tx,_,decoded,_⟩
    rw [decoded] at unreadable
    cases unreadable
  · intro burns
    obtain ⟨_,payload,_⟩ := burns_read agreed burns
    cases payload

end Bench

-- The first run is told whole, with a byte string that does not decode and one that comes twice;
-- of the second the transfer is not.
theorem batches_told_ledger :
    Told Bench.ledgerNode (runBatches Pranklin.Bench.trusting Bench.ledgerNode Bench.told) ∧
      (runBatches Pranklin.Bench.trusting Bench.ledgerNode Bench.told).engine.state.getBalance Pranklin.Bench.bob 0 = 4 ∧
      ¬Told Bench.ledgerNode (runBatches Pranklin.Bench.trusting Bench.ledgerNode
        [[Bench.saturates,Bench.adds,Bench.burning].map Pranklin.Bench.written]) := by
  refine ⟨(batches_told_iff _ _ Supply.listed_fits _).mpr Bench.told_kept,by decide +kernel,fun told => ?_⟩
  refine (batches_told_iff _ _ Supply.listed_fits _).mp told [Pranklin.Bench.written Bench.saturates,Pranklin.Bench.written Bench.adds]
    (Pranklin.Bench.written Bench.burning) List.prefix_rfl ?_
  exact ⟨_,_,Pranklin.Bench.decode_written (by decide +kernel) (by decide +kernel),by decide +kernel,rfl,by decide +kernel⟩

end Bytes

end Journal
end Pranklin
