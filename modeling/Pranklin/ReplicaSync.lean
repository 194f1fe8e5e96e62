import Pranklin.Follower
import Pranklin.Retrying

namespace Pranklin
open Words Effect TransactionExecutor

structure BlockData where
  height : Nat
  transactions : List Transaction

-- What the network answers in the course of one sync: the leader's height, and the blocks
-- of a range.
structure Leader where
  blockHeight : Except String Nat
  blocks : Nat → Nat → Except String (List BlockData)

inductive ReadOnlyError where
  | networkError (message : String)
  | executionError (error : TxExecutionError)
deriving DecidableEq

structure SyncResult where
  syncedBlocks : Nat
  newHeight : Nat
  isSynced : Bool
deriving DecidableEq

structure Replica where
  engine : Engine
  blockHeight : Nat

namespace Replica
open ReadOnlyExecutor

def fetchLeaderHeight (leader : Leader) : Except ReadOnlyError Nat := leader.blockHeight.mapError .networkError

def fetchTransactions (leader : Leader) (fromHeight toHeight : Nat) : Except ReadOnlyError (List (Nat × Transaction)) :=
  match leader.blocks fromHeight toHeight with
  | .ok blocks => .ok (blocks.flatMap fun block => block.transactions.map (block.height,·))
  | .error message => .error (.networkError message)

-- What the replay has written stays written when it fails.
def onReplica (m : Eff Engine TxExecutionError α) : Eff Replica ReadOnlyError α := fun replica =>
  match exec m replica.engine with
  | (.ok value,e) => (.ok value,{replica with engine:=e})
  | (.error error,e) => (.error (.executionError error),{replica with engine:=e})

def batchEnd (batchSize leaderHeight current : Nat) : Nat := min (subWrap 64 (addWrap 64 current batchSize) 1) leaderHeight

-- The loop over the batches, cut off where it would go round once more than `fuel` times.
def syncBatches (leader : Leader) (batchSize leaderHeight fuel current syncedBlocks : Nat) :
    Eff Replica ReadOnlyError (Option Nat) :=
  if current ≤ leaderHeight then
    match fuel with
    | 0 => pure none
    | fuel + 1 => do
      let last := batchEnd batchSize leaderHeight current
      let txs ← tries fun _ => fetchTransactions leader current last
      onReplica (replay (txs.map (·.2)))
      syncBatches leader batchSize leaderHeight fuel (addWrap 64 last 1)
        (addWrap 64 syncedBlocks (addWrap 64 (subWrap 64 last current) 1))
  else pure (some syncedBlocks)

-- Nothing comes of it as long as the loop goes round.
def syncFromLeader (leader : Leader) (batchSize fuel : Nat) : Eff Replica ReadOnlyError (Option SyncResult) := do
  let currentHeight ← reads (·.blockHeight)
  let leaderHeight ← tries fun _ => fetchLeaderHeight leader
  if leaderHeight ≤ currentHeight then return some ⟨0,currentHeight,true⟩
  else
    match ← syncBatches leader batchSize leaderHeight fuel (addWrap 64 currentHeight 1) 0 with
    | none => return none
    | some syncedBlocks =>
      writes fun replica => {replica with blockHeight:=leaderHeight}
      return some ⟨syncedBlocks,leaderHeight,true⟩

def replayTx (tx : Transaction) (e : Engine) : Except TxExecutionError Unit × Engine :=
  match exec (executeTxPayloadReadonly tx) (beginTx e) with
  | (.ok _,after) => (.ok (),takeEvents after)
  | (.error error,after) => (.error error,after)

def batchesHanded (leader : Leader) (batchSize leaderHeight fuel current : Nat) : List Transaction :=
  if current ≤ leaderHeight then
    match fuel with
    | 0 => []
    | fuel + 1 =>
      let last := batchEnd batchSize leaderHeight current
      match fetchTransactions leader current last with
      | .ok txs => txs.map (·.2) ++ batchesHanded leader batchSize leaderHeight fuel (addWrap 64 last 1)
      | .error _ => []
  else []

def handed (leader : Leader) (batchSize fuel currentHeight : Nat) : List Transaction :=
  match fetchLeaderHeight leader with
  | .ok leaderHeight =>
    if leaderHeight ≤ currentHeight then []
    else batchesHanded leader batchSize leaderHeight fuel (addWrap 64 currentHeight 1)
  | .error _ => []

structure Recovers (leader later : Leader) : Prop where
  height : ∀ height, leader.blockHeight = .ok height → later.blockHeight = .ok height
  blocks : ∀ fromHeight toHeight blocks, leader.blocks fromHeight toHeight = .ok blocks →
    later.blocks fromHeight toHeight = .ok blocks

end Replica

def TxPayload.Weightless : TxPayload → Prop
  | .setAgent _ | .removeAgent _ => True
  | .deposit request => request.amount = 0
  | .withdraw request => request.amount = 0
  | .transfer request => request.amount = 0
  | .bridgeDeposit request => request.amount = 0
  | .bridgeWithdraw request => request.amount = 0
  | .placeOrder _ | .cancelOrder _ | .closePosition _ | .modifyOrder _ => False

instance : DecidablePred TxPayload.Weightless
  | .setAgent _ | .removeAgent _ => inferInstanceAs (Decidable True)
  | .deposit request => inferInstanceAs (Decidable (request.amount = 0))
  | .withdraw request => inferInstanceAs (Decidable (request.amount = 0))
  | .transfer request => inferInstanceAs (Decidable (request.amount = 0))
  | .bridgeDeposit request => inferInstanceAs (Decidable (request.amount = 0))
  | .bridgeWithdraw request => inferInstanceAs (Decidable (request.amount = 0))
  | .placeOrder _ | .cancelOrder _ | .closePosition _ | .modifyOrder _ => inferInstanceAs (Decidable False)

namespace ReplicaSync
open ReadOnlyExecutor Replica Follower AccountService
variable {e f after : Engine} {tx : Transaction} {address : Address} {assetId amount : Nat}
  {result : Except EngineError Unit}

inductive Shifts (e : Engine) (address : Address) (assetId amount : Nat) : Except EngineError Unit → Engine → Prop where
  | refused (error : EngineError) : Shifts e address assetId amount (.error error) e
  | moved (balance : Nat) (by_ : balance = e.state.getBalance address assetId + amount ∨
      e.state.getBalance address assetId = balance + amount) (context : List Event) :
      Shifts e address assetId amount (.ok ()) {e with state:=e.state.setBalance address assetId balance,context:=context}

section Shift

theorem newBalance_moves (computed : newBalance oldBalance amount isCredit = .ok balance) :
    balance = oldBalance + amount ∨ oldBalance = balance + amount := by
  unfold newBalance at computed
  split at computed
  · exact .inl (checkedAdd_eq_some.mp (orOverflow_eq_ok.mp computed)).2
  · split at computed
    · cases computed
    · cases computed
      omega

theorem updateBalance_shifts (e : Engine) (address : Address) (assetId amount : Nat) (isCredit : Bool)
    (reason : BalanceChangeReason) :
    Shifts e address assetId amount (exec (updateBalance address assetId amount isCredit reason) e).1
      (exec (updateBalance address assetId amount isCredit reason) e).2 := by
  obtain ⟨error,failed⟩ | ⟨balance,context,computed,ran⟩ := Supply.updateBalance_ran e address assetId amount isCredit reason
  · rw [failed]
    exact .refused error
  · rw [ran]
    exact .moved balance (newBalance_moves computed) context

theorem bridgeDeposit_shifts (operator : Address) (request : BridgeDepositTx) (e : Engine) :
    Shifts e request.user request.assetId request.amount (exec (bridgeDeposit operator request) e).1
      (exec (bridgeDeposit operator request) e).2 := by
  have rewrites := Supply.bridgeDeposit_rewrites operator request e
  cases ran : exec (bridgeDeposit operator request) e with
  | mk outcome after =>
    rw [ran] at rewrites
    cases rewrites with
    | refused error => exact .refused error
    | written balance exact_ fits context => exact .moved balance (by omega) context

theorem bridgeWithdraw_shifts (operator : Address) (request : BridgeWithdrawTx) (e : Engine) :
    Shifts e request.user request.assetId request.amount (exec (bridgeWithdraw operator request) e).1
      (exec (bridgeWithdraw operator request) e).2 := by
  by_cases bridges : Supply.Bridges e operator request.assetId
  case neg =>
    obtain ⟨error,failed⟩ := Supply.bridgeWithdraw_refused bridges
    rw [failed]
    exact .refused error
  rw [bridgeWithdraw,exec_ok_bind (Supply.checkBridge_passes bridges),exec_reads_bind]
  split
  · exact .refused _
  · exact .moved _ (by omega) _

theorem Shifts.still (shifts : Shifts e address assetId amount result after) (nothing : amount = 0) : Alike e after := by
  cases shifts with
  | refused error => exact alike_refl e
  | moved balance by_ context =>
    obtain rfl : balance = e.state.getBalance address assetId := by omega
    exact ⟨SameReads.setBalance_getBalance _ _ _,rfl⟩

theorem Shifts.nothing (shifts : Shifts e address assetId amount (.ok ()) after) (agrees : Agrees e after) : amount = 0 := by
  cases shifts with
  | moved balance by_ context =>
    have same := agrees.balances address assetId
    dsimp only at same
    rw [Supply.getBalance_setBalance,if_pos ⟨rfl,rfl⟩] at same
    omega

theorem nothing_of_updateBalance (ran : exec (updateBalance address assetId amount isCredit reason) e = (.ok (),after))
    (agrees : Agrees e after) : amount = 0 := by
  have shifts := updateBalance_shifts e address assetId amount isCredit reason
  rw [ran] at shifts
  exact shifts.nothing agrees

theorem Shifts.reachable (shifts : Shifts e address assetId amount result after) (reached : Reachable e) : Reachable after := by
  cases shifts with
  | refused error => exact reached
  | moved balance by_ context => exact reached.elsewhere ⟨(StateManager.Agree.refl _ _).set rfl,rfl,rfl⟩

theorem debited_still (zero : request.amount = 0) (s : StateManager) (sender : Address) :
    SameReads s (Supply.debited s sender request) := by
  rw [Supply.debited,zero,Nat.sub_zero]
  exact SameReads.setBalance_getBalance _ _ _

theorem transfers_still (transfers : Supply.Transfers e sender request result after) (zero : request.amount = 0) :
    Alike e after := by
  cases transfers with
  | refused error refuses => exact alike_refl e
  | drained passes exceeds => exact ⟨debited_still zero e.state sender,rfl⟩
  | arrived passes small context =>
    have credit : Supply.credited e.state sender request = (Supply.debited e.state sender request).setBalance request.recipient
        request.assetId ((Supply.debited e.state sender request).getBalance request.recipient request.assetId) := by
      rw [Supply.credited,zero,Nat.add_zero,Supply.debited,Supply.getBalance_setBalance,if_neg fun same => passes.1 same.1.symm]
    refine ⟨SameReads.trans (debited_still zero e.state sender) ?_,rfl⟩
    dsimp only
    rw [credit]
    exact SameReads.setBalance_getBalance _ _ _

theorem transfers_reachable (transfers : Supply.Transfers e sender request result after) (reached : Reachable e) :
    Reachable after := by
  cases transfers with
  | refused error refuses => exact reached
  | drained passes exceeds => exact reached.elsewhere ⟨(StateManager.Agree.refl _ _).set rfl,rfl,rfl⟩
  | arrived passes small context =>
    exact reached.elsewhere ⟨((StateManager.Agree.refl _ _).set rfl).set rfl,rfl,rfl⟩

end Shift

section Payload

-- Even where a weightless payload fails it leaves the reads as they were.
theorem payload_still (e : Engine) (weightless : tx.payload.Weightless) : Alike e (exec (executeTxPayloadReadonly tx) e).2 := by
  unfold executeTxPayloadReadonly
  cases payload : tx.payload with
  | setAgent agent | removeAgent agent => exact ⟨.refl e.state,rfl⟩
  | deposit request | withdraw request =>
    rw [payload] at weightless
    rw [exec_asTx_state]
    exact (updateBalance_shifts e _ _ _ _ _).still weightless
  | transfer request =>
    rw [payload] at weightless
    rw [exec_asTx_state]
    exact transfers_still (Supply.transfer_transfers _ _ e) weightless
  | bridgeDeposit request =>
    rw [payload] at weightless
    rw [exec_asTx_state]
    exact (bridgeDeposit_shifts _ _ e).still weightless
  | bridgeWithdraw request =>
    rw [payload] at weightless
    rw [exec_asTx_state]
    exact (bridgeWithdraw_shifts _ _ e).still weightless
  | placeOrder request | cancelOrder request | closePosition request | modifyOrder request =>
    rw [payload] at weightless
    exact weightless.elim

theorem payload_weightless (reached : Reachable e) (ran : exec (executeTxPayloadReadonly tx) e = (.ok (),after))
    (agrees : Agrees e after) : tx.payload.Weightless := by
  obtain ⟨ledger,shown⟩ := Atomicity.reachable_represents reached
  unfold executeTxPayloadReadonly at ran
  cases payload : tx.payload with
  | setAgent agent | removeAgent agent => trivial
  | deposit request | withdraw request =>
    rw [payload] at ran
    exact nothing_of_updateBalance (exec_asTx_ok ran) agrees
  | transfer request =>
    rw [payload] at ran
    have transfers := Supply.transfer_transfers tx.sender request e
    rw [exec_asTx_ok ran] at transfers
    exact (zero_of_transfers transfers agrees).1
  | bridgeDeposit request =>
    rw [payload] at ran
    have shifts := bridgeDeposit_shifts tx.sender request e
    rw [exec_asTx_ok ran] at shifts
    exact shifts.nothing agrees
  | bridgeWithdraw request =>
    rw [payload] at ran
    have shifts := bridgeWithdraw_shifts tx.sender request e
    rw [exec_asTx_ok ran] at shifts
    exact shifts.nothing agrees
  | placeOrder request =>
    rw [payload] at ran
    exact placed_new shown (exec_asTx_ok ran) agrees
  | cancelOrder cancel =>
    rw [payload] at ran
    exact cancellation_new (OrderService.cancelOrder_cancellation (exec_asTx_ok ran)) agrees
  | closePosition close =>
    rw [payload] at ran
    exact closed_new shown (exec_asTx_ok ran) agrees
  | modifyOrder modify => rw [payload] at ran; cases ran

theorem payload_reachable (tx : Transaction) (reached : Reachable e) : Reachable (exec (executeTxPayloadReadonly tx) e).2 := by
  unfold executeTxPayloadReadonly
  cases tx.payload with
  | setAgent agent | removeAgent agent => exact reached.elsewhere ⟨.refl _ _,rfl,rfl⟩
  | deposit request | withdraw request =>
    rw [exec_asTx_state]
    exact (updateBalance_shifts e _ _ _ _ _).reachable reached
  | transfer request =>
    rw [exec_asTx_state]
    exact transfers_reachable (Supply.transfer_transfers _ _ e) reached
  | bridgeDeposit request =>
    rw [exec_asTx_state]
    exact (bridgeDeposit_shifts _ _ e).reachable reached
  | bridgeWithdraw request =>
    rw [exec_asTx_state]
    exact (bridgeWithdraw_shifts _ _ e).reachable reached
  | placeOrder request =>
    have call := reached.call (.placeOrder tx.sender request)
    rw [Engine.after,Call.perform,exec_bind_pure_state] at call
    rwa [exec_asTx_state,exec_bind_pure_state]
  | cancelOrder cancel =>
    have call := reached.call (.cancelOrder tx.sender cancel)
    rw [Engine.after,Call.perform,exec_bind_pure_state] at call
    rwa [exec_asTx_state]
  | closePosition close =>
    have call := reached.call (.closePosition tx.sender close)
    rw [Engine.after,Call.perform,exec_bind_pure_state] at call
    rwa [exec_asTx_state]
  | modifyOrder modify => exact reached

end Payload

section Sync
open Retrying
variable {leader later : Leader} {batchSize leaderHeight fuel again current syncedBlocks : Nat} {replica middle last : Replica}

theorem replay_run (txs : List Transaction) (e : Engine) : exec (replay txs) e = run replayTx txs e := by
  induction txs generalizing e with
  | nil => rfl
  | cons tx rest ih =>
    rw [replay_cons,run,replayTx]
    cases exec (executeTxPayloadReadonly tx) (beginTx e) with
    | mk outcome after =>
      cases outcome with
      | error error => rfl
      | ok _ => exact ih _

theorem replayTx_result (tx : Transaction) (e : Engine) :
    (replayTx tx e).1 = (exec (executeTxPayloadReadonly tx) (beginTx e)).1 := by
  unfold replayTx
  cases exec (executeTxPayloadReadonly tx) (beginTx e) with
  | mk outcome after => cases outcome <;> rfl

theorem replayTx_alike (tx : Transaction) (e : Engine) :
    Alike (exec (executeTxPayloadReadonly tx) (beginTx e)).2 (replayTx tx e).2 := by
  unfold replayTx
  cases exec (executeTxPayloadReadonly tx) (beginTx e) with
  | mk outcome after => cases outcome <;> exact ⟨.refl after.state,rfl⟩

theorem beginTx_alike (e : Engine) : Alike e (beginTx e) := ⟨.refl e.state,rfl⟩

theorem alike_symm (alike : Alike e f) : Alike f e := ⟨alike.state.symm,alike.levels.symm⟩

theorem replayTx_discerning : Discerning replayTx Alike Reachable (·.payload.Weightless) where
  refl := alike_refl
  trans := alike_trans
  lockstep {tx e f} alike := by
    have begun := alike_trans (alike_trans (alike_symm (beginTx_alike e)) alike) (beginTx_alike f)
    rw [replayTx_result,replayTx_result]
    exact (lockstep_payload kin_alike tx _ _ begun).1
  kept {tx e} reached := by
    have begun : Reachable (beginTx e) := reached.elsewhere ⟨.refl _ _,rfl,rfl⟩
    have done := payload_reachable tx begun
    unfold replayTx
    cases ran : exec (executeTxPayloadReadonly tx) (beginTx e) with
    | mk outcome after =>
      rw [ran] at done
      cases outcome with
      | error error => exact done
      | ok _ => exact done.elsewhere ⟨.refl _ _,rfl,rfl⟩
  still {tx e} weightless := alike_trans (beginTx_alike e) (alike_trans (payload_still _ weightless) (replayTx_alike tx e))
  moves {tx e} reached result alike := by
    have begun : Reachable (beginTx e) := reached.elsewhere ⟨.refl _ _,rfl,rfl⟩
    rw [replayTx_result] at result
    refine payload_weightless begun (exec_of_result result) (alike_agrees ?_)
    exact alike_trans (alike_symm (beginTx_alike e)) (alike_trans alike (alike_symm (replayTx_alike tx e)))

theorem exec_onReplica (txs : List Transaction) (replica : Replica) :
    exec (onReplica (replay txs)) replica =
      match run replayTx txs replica.engine with
      | (.ok _,e) => (.ok (),{replica with engine:=e})
      | (.error error,e) => (.error (.executionError error),{replica with engine:=e}) := by
  rw [← replay_run]
  change onReplica (replay txs) replica = _
  unfold onReplica
  cases exec (replay txs) replica.engine with
  | mk outcome e => cases outcome <;> rfl

section Round
variable (within : current ≤ leaderHeight)
include within

theorem batchesHanded_answered
    (fetched : fetchTransactions leader current (batchEnd batchSize leaderHeight current) = .ok txs) :
    batchesHanded leader batchSize leaderHeight (fuel + 1) current = txs.map (·.2) ++
      batchesHanded leader batchSize leaderHeight fuel (addWrap 64 (batchEnd batchSize leaderHeight current) 1) := by
  rw [batchesHanded,if_pos within]
  dsimp only
  rw [fetched]

theorem batchesHanded_unanswered
    (fetched : fetchTransactions leader current (batchEnd batchSize leaderHeight current) = .error error) :
    batchesHanded leader batchSize leaderHeight (fuel + 1) current = [] := by
  rw [batchesHanded,if_pos within]
  dsimp only
  rw [fetched]

theorem syncBatches_answered
    (fetched : fetchTransactions leader current (batchEnd batchSize leaderHeight current) = .ok txs) :
    exec (syncBatches leader batchSize leaderHeight (fuel + 1) current syncedBlocks) replica =
      match run replayTx (txs.map (·.2)) replica.engine with
      | (.ok _,e) =>
        exec (syncBatches leader batchSize leaderHeight fuel (addWrap 64 (batchEnd batchSize leaderHeight current) 1)
          (addWrap 64 syncedBlocks (addWrap 64 (subWrap 64 (batchEnd batchSize leaderHeight current) current) 1)))
          {replica with engine:=e}
      | (.error error,e) => (.error (.executionError error),{replica with engine:=e}) := by
  rw [syncBatches,if_pos within]
  dsimp only
  rw [exec_bind,exec_tries,fetched]
  dsimp only
  rw [exec_bind,exec_onReplica]
  cases run replayTx (txs.map (·.2)) replica.engine with
  | mk outcome e => cases outcome <;> rfl

theorem syncBatches_unanswered
    (fetched : fetchTransactions leader current (batchEnd batchSize leaderHeight current) = .error error) :
    exec (syncBatches leader batchSize leaderHeight (fuel + 1) current syncedBlocks) replica = (.error error,replica) := by
  rw [syncBatches,if_pos within]
  dsimp only
  rw [exec_bind,exec_tries,fetched]

end Round

-- What a stretch of a sync comes to: the engine is where the replay of the transactions
-- leaves it, the height is as it was, and unless it fails all of them went through.
structure Replays (txs : List Transaction) (replica : Replica) (result : Except ReadOnlyError α) (after : Replica) : Prop where
  engine : after.engine = (run replayTx txs replica.engine).2
  height : after.blockHeight = replica.blockHeight
  through : ∀ value, result = .ok value → (run replayTx txs replica.engine).1 = .ok ()

theorem Replays.nothing (result : Except ReadOnlyError α) (replica : Replica) : Replays [] replica result replica :=
  ⟨rfl,rfl,fun _ _ => rfl⟩

theorem syncBatches_replays (leader : Leader) (batchSize leaderHeight fuel current syncedBlocks : Nat) (replica : Replica) :
    Replays (batchesHanded leader batchSize leaderHeight fuel current) replica
      (exec (syncBatches leader batchSize leaderHeight fuel current syncedBlocks) replica).1
      (exec (syncBatches leader batchSize leaderHeight fuel current syncedBlocks) replica).2 := by
  induction fuel generalizing current syncedBlocks replica with
  | zero =>
    unfold syncBatches batchesHanded
    split <;> exact .nothing _ _
  | succ fuel ih =>
    by_cases within : current ≤ leaderHeight
    case neg =>
      unfold syncBatches batchesHanded
      rw [if_neg within,if_neg within]
      exact .nothing _ _
    cases fetched : fetchTransactions leader current (batchEnd batchSize leaderHeight current) with
    | error error =>
      rw [batchesHanded_unanswered within fetched,syncBatches_unanswered within fetched]
      exact .nothing _ _
    | ok txs =>
      rw [batchesHanded_answered within fetched,syncBatches_answered within fetched]
      cases ran : run replayTx (txs.map (·.2)) replica.engine with
      | mk outcome e =>
        cases outcome with
        | error error => exact ⟨by rw [run_append,ran],rfl,by simp⟩
        | ok _ =>
          obtain ⟨engine,height,through⟩ := ih (addWrap 64 (batchEnd batchSize leaderHeight current) 1)
            (addWrap 64 syncedBlocks (addWrap 64 (subWrap 64 (batchEnd batchSize leaderHeight current) current) 1))
            {replica with engine:=e}
          exact ⟨by rw [run_append,ran]; exact engine,height,by rw [run_append,ran]; exact through⟩

theorem syncFromLeader_replays {result : Except ReadOnlyError (Option SyncResult)} (leader : Leader) (batchSize fuel : Nat)
    (ran : exec (Replica.syncFromLeader leader batchSize fuel) replica = (result,last)) :
    last.engine = (run replayTx (handed leader batchSize fuel replica.blockHeight) replica.engine).2 ∧
      (∀ value, result = .ok value → (run replayTx (handed leader batchSize fuel replica.blockHeight) replica.engine).1 = .ok ()) ∧
      (∀ error, result = .error error → last.blockHeight = replica.blockHeight) := by
  unfold Replica.syncFromLeader at ran
  unfold handed
  rw [exec_reads_bind] at ran
  rw [exec_bind,exec_tries] at ran
  cases height : fetchLeaderHeight leader with
  | error error => rw [height] at ran; cases ran; exact ⟨rfl,fun _ _ => rfl,fun _ _ => rfl⟩
  | ok leaderHeight =>
    rw [height] at ran
    dsimp only at ran ⊢
    split at ran
    · rename_i level
      rw [if_pos level]
      cases ran
      exact ⟨rfl,fun _ _ => rfl,fun _ _ => rfl⟩
    · rename_i behind
      rw [if_neg behind]
      obtain ⟨engine,height,through⟩ :=
        syncBatches_replays leader batchSize leaderHeight fuel (addWrap 64 replica.blockHeight 1) 0 replica
      rw [exec_bind] at ran
      cases batches : exec (syncBatches leader batchSize leaderHeight fuel (addWrap 64 replica.blockHeight 1) 0) replica with
      | mk outcome middle =>
        rw [batches] at ran engine height through
        rcases outcome with error | _ | total <;> cases ran
        · exact ⟨engine,by simp,fun _ _ => height⟩
        · exact ⟨engine,fun _ _ => through _ rfl,by simp⟩
        · exact ⟨engine,fun _ _ => through _ rfl,by simp⟩

theorem recovers_fetched (recovers : Recovers leader later) (fetched : fetchTransactions leader fromHeight toHeight = .ok txs) :
    fetchTransactions later fromHeight toHeight = .ok txs := by
  unfold fetchTransactions at fetched ⊢
  cases answer : leader.blocks fromHeight toHeight with
  | error message => rw [answer] at fetched; cases fetched
  | ok blocks =>
    rw [answer] at fetched
    rw [recovers.blocks _ _ _ answer]
    exact fetched

theorem batchesHanded_prefix (recovers : Recovers leader later)
    (completes : exec (syncBatches later batchSize leaderHeight again current syncedBlocks) replica = (.ok (some total),last)) :
    batchesHanded leader batchSize leaderHeight fuel current <+: batchesHanded later batchSize leaderHeight again current := by
  induction fuel generalizing again current syncedBlocks replica with
  | zero =>
    unfold batchesHanded
    split <;> exact List.nil_prefix
  | succ fuel ih =>
    by_cases within : current ≤ leaderHeight
    case neg =>
      unfold batchesHanded
      rw [if_neg within,if_neg within]
    cases fetched : fetchTransactions leader current (batchEnd batchSize leaderHeight current) with
    | error error =>
      rw [batchesHanded_unanswered within fetched]
      exact List.nil_prefix
    | ok txs =>
      have refetched := recovers_fetched recovers fetched
      cases again with
      | zero => rw [syncBatches,if_pos within] at completes; cases completes
      | succ again =>
        rw [batchesHanded_answered within fetched,batchesHanded_answered within refetched]
        rw [syncBatches_answered within refetched] at completes
        cases ran : run replayTx (txs.map (·.2)) replica.engine with
        | mk outcome e =>
          rw [ran] at completes
          cases outcome with
          | error error => cases completes
          | ok _ => exact (List.prefix_append_right_inj _).mpr (ih completes)

theorem handed_prefix {result : SyncResult} (recovers : Recovers leader later)
    (completes : exec (Replica.syncFromLeader later batchSize again) replica = (.ok (some result),last)) :
    handed leader batchSize fuel replica.blockHeight <+: handed later batchSize again replica.blockHeight := by
  unfold handed
  cases height : leader.blockHeight with
  | error message => rw [fetchLeaderHeight,height]; exact List.nil_prefix
  | ok leaderHeight =>
    have same := recovers.height _ height
    rw [fetchLeaderHeight,fetchLeaderHeight,height,same]
    dsimp only [Except.mapError]
    by_cases level : leaderHeight ≤ replica.blockHeight
    · rw [if_pos level,if_pos level]
    · rw [if_neg level,if_neg level]
      unfold Replica.syncFromLeader at completes
      rw [exec_reads_bind] at completes
      rw [exec_bind,exec_tries,fetchLeaderHeight,same] at completes
      dsimp only [Except.mapError] at completes
      rw [if_neg level] at completes
      obtain ⟨total,middle,batches,done⟩ := exec_bind_ok completes
      cases total with
      | none => cases done
      | some total => exact batchesHanded_prefix recovers batches

-- A sync fails in some place, and a second one gets to the end: whatever the leader handed
-- over was applied once exactly when nothing with a weight came before the failure.
theorem applied_once_iff (leader later : Leader) (recovers : Recovers leader later) (batchSize fuel again : Nat)
    (replica middle last : Replica) (reached : Reachable replica.engine) (error : ReadOnlyError) (result : SyncResult)
    (failed : exec (Replica.syncFromLeader leader batchSize fuel) replica = (.error error,middle))
    (completed : exec (Replica.syncFromLeader later batchSize again) middle = (.ok (some result),last)) :
    AppliedOnce Alike (handed later batchSize again middle.blockHeight)
        (takings replayTx (handed leader batchSize fuel replica.blockHeight) replica.engine)
        (takings replayTx (handed later batchSize again middle.blockHeight) middle.engine) ↔
      ∀ tx ∈ handed leader batchSize fuel replica.blockHeight, tx.payload.Weightless := by
  obtain ⟨left,_,height⟩ := syncFromLeader_replays leader batchSize fuel failed
  obtain ⟨_,through,_⟩ := syncFromLeader_replays later batchSize again completed
  obtain ⟨back,whole⟩ : handed leader batchSize fuel middle.blockHeight <+: _ := handed_prefix recovers completed
  rw [height error rfl] at whole through ⊢
  have completes := through _ rfl
  rw [← whole,left] at completes ⊢
  exact appliedOnce_iff replayTx_discerning reached _ _ completes

end Sync

section Bench
open Retrying

def serving (tx : Transaction) (second : Except String (List BlockData)) : Leader where
  blockHeight := .ok 2
  blocks fromHeight _ := if fromHeight = 1 then .ok [⟨1,[tx]⟩] else second

def behind : Replica := ⟨genesis.engine,0⟩

def halfway (tx : Transaction) : Replica :=
  (exec (Replica.syncFromLeader (serving tx (.error "connection reset")) 1 3) behind).2

def completing (tx : Transaction) : Except ReadOnlyError (Option SyncResult) × Replica :=
  exec (Replica.syncFromLeader (serving tx (.ok [⟨2,[]⟩])) 1 3) (halfway tx)

theorem serving_recovers (tx : Transaction) :
    Recovers (serving tx (.error "connection reset")) (serving tx (.ok [⟨2,[]⟩])) where
  height _ same := same
  blocks fromHeight toHeight blocks answered := by
    unfold serving at answered ⊢
    dsimp only at answered ⊢
    split at answered
    · rename_i first; rwa [if_pos first]
    · cases answered

theorem applied_once_iff_early :
    AppliedOnce Alike (handed (serving early (.ok [⟨2,[]⟩])) 1 3 (halfway early).blockHeight)
      (takings replayTx (handed (serving early (.error "connection reset")) 1 3 0) genesis.engine)
      (takings replayTx (handed (serving early (.ok [⟨2,[]⟩])) 1 3 (halfway early).blockHeight) (halfway early).engine) := by
  have failed : (exec (Replica.syncFromLeader (serving early (.error "connection reset")) 1 3) behind).1 =
      .error (.networkError "connection reset") := by decide +kernel
  have completed : (completing early).1 = .ok (some ⟨2,2,true⟩) := by decide +kernel
  refine (applied_once_iff _ _ (serving_recovers early) 1 3 3 behind (halfway early) (completing early).2
    genesis_reachable _ _ (exec_of_result failed) (exec_of_result completed)).mpr ?_
  decide +kernel

-- The deposit of the first block is credited by the sync that fails and by the one that
-- completes.
theorem deposit_credited_twice :
    (exec (Replica.syncFromLeader (serving (Nonces.deposit 0) (.error "connection reset")) 1 3) behind).1 =
        .error (.networkError "connection reset") ∧
      (completing (Nonces.deposit 0)).1 = .ok (some ⟨2,2,true⟩) ∧
      (exec (Replica.syncFromLeader (serving (Nonces.deposit 0) (.ok [⟨2,[]⟩])) 1 3) behind).2.engine.state.getBalance
        Bench.alice 0 = 5 ∧
      (completing (Nonces.deposit 0)).2.engine.state.getBalance Bench.alice 0 = 10 ∧
      ¬AppliedOnce Alike (handed (serving (Nonces.deposit 0) (.ok [⟨2,[]⟩])) 1 3 (halfway (Nonces.deposit 0)).blockHeight)
        (takings replayTx (handed (serving (Nonces.deposit 0) (.error "connection reset")) 1 3 0) genesis.engine)
        (takings replayTx (handed (serving (Nonces.deposit 0) (.ok [⟨2,[]⟩])) 1 3 (halfway (Nonces.deposit 0)).blockHeight)
          (halfway (Nonces.deposit 0)).engine) := by
  refine ⟨by decide +kernel,by decide +kernel,by decide +kernel,by decide +kernel,fun once => ?_⟩
  obtain ⟨later,found,_,_,apart⟩ := once 0 (Nonces.deposit 0) rfl
  have earlier := apart _ rfl
  cases found
  rcases earlier with same | same
  · exact absurd (same.state.balances Bench.alice 0) (by decide +kernel)
  · exact absurd (same.state.balances Bench.alice 0) (by decide +kernel)

end Bench

end ReplicaSync
end Pranklin
