import Pranklin.Commit
import Pranklin.Executor
import Pranklin.TxCodec
import Pranklin.Twins

namespace Pranklin
open Words Effect Storage TransactionExecutor

structure NodeTwin (R : StateManager → StateManager → Prop) (n m : Node) : Prop where
  engine : Twin R n.engine m.engine
  auth : m.auth = n.auth

structure NodeKin (W : Engine → Engine → Prop) (V : Node → Node → Prop) : Prop where
  engine : ∀ {n m}, V n m → W n.engine m.engine
  update : ∀ {n m}, V n m → ∀ {e f}, W e f → V {n with engine:=e} {m with engine:=f}
  agents : ∀ {n m}, V n m → ∀ write : AgentRegistry → AgentRegistry,
    V {n with auth:=write n.auth} {m with auth:=write m.auth}

section Transactions
variable {R : StateManager → StateManager → Prop} {W : Engine → Engine → Prop} {V : Node → Node → Prop}

theorem nodeKin_twin : NodeKin (Twin R) (NodeTwin R) where
  engine twin := twin.engine
  update twin _ _ engine := ⟨engine,twin.auth⟩
  agents twin write := ⟨twin.engine,congrArg write twin.auth⟩

theorem lockstep_onEngine (nodes : NodeKin W V) {call : EngineM α} (both : Lockstep W call) : Lockstep V (onEngine call) := by
  intro n m alike
  obtain ⟨result,after⟩ := both _ _ (nodes.engine alike)
  change (TransactionExecutor.onEngine call n).1 = (TransactionExecutor.onEngine call m).1 ∧
    V (TransactionExecutor.onEngine call n).2 (TransactionExecutor.onEngine call m).2
  unfold TransactionExecutor.onEngine
  cases left : exec call n.engine with
  | mk outcome e =>
    cases right : exec call m.engine with
    | mk outcome' f =>
      rw [left,right] at result after
      obtain rfl : outcome = outcome' := result
      cases outcome <;> exact ⟨rfl,nodes.update alike after⟩

variable (kin : Kin R W)

section Accounts
open AccountService
include kin

theorem lockstep_setBalance (address : Address) (assetId amount : Nat) :
    Lockstep W (writes fun e => {e with state:=e.state.setBalance address assetId amount} : EngineM Unit) :=
  lockstep_state kin (·.setBalance address assetId amount) fun _ _ related => kin.setBalance related _ _ _

theorem lockstep_readBalance (address : Address) (assetId : Nat) :
    Lockstep W (reads fun e => e.state.getBalance address assetId : EngineM Nat) :=
  .reads fun _ _ alike => (kin.getBalance (kin.state alike) _ _).symm

theorem lockstep_updateBalance (address : Address) (assetId amount : Nat) (isCredit : Bool)
    (reason : BalanceChangeReason) : Lockstep W (updateBalance address assetId amount isCredit reason) := by
  refine .bind (lockstep_readBalance kin _ _) fun oldBalance => .bind (.tries fun _ _ _ => rfl) fun balance => ?_
  exact .bind (lockstep_setBalance kin _ _ _) fun _ => lockstep_emit kin _

theorem lockstep_transfer (sender : Address) (request : TransferTx) : Lockstep W (transfer sender request) := by
  unfold transfer
  split
  · exact .throw _
  · refine .bind (.reads fun _ _ alike => (kin.getAsset (kin.state alike) _).symm) fun found => ?_
    refine .bind (.orThrow _ _) fun asset => ?_
    split
    · exact .throw _
    · refine .bind (lockstep_readBalance kin _ _) fun senderBalance => ?_
      split
      · exact .throw _
      · refine .bind (lockstep_setBalance kin _ _ _) fun _ => .bind (lockstep_readBalance kin _ _) fun _ => ?_
        exact .bind (.orThrow _ _) fun _ => .bind (lockstep_setBalance kin _ _ _) fun _ => lockstep_emit kin _

theorem lockstep_checkBridge (operator : Address) (assetId : Nat) : Lockstep W (checkBridge operator assetId) := by
  refine .bind (.reads fun _ _ alike => (kin.isBridgeOperator (kin.state alike) _).symm) fun authorized => ?_
  split
  · exact .throw _
  · refine .bind (.reads fun _ _ alike => (kin.getAsset (kin.state alike) _).symm) fun found => ?_
    exact .bind (.orThrow _ _) fun _ => .pure ()

theorem lockstep_bridgeDeposit (operator : Address) (request : BridgeDepositTx) :
    Lockstep W (bridgeDeposit operator request) := by
  refine .bind (lockstep_checkBridge kin _ _) fun _ => .bind (lockstep_readBalance kin _ _) fun _ => ?_
  exact .bind (.orThrow _ _) fun _ => .bind (lockstep_setBalance kin _ _ _) fun _ => lockstep_emit kin _

theorem lockstep_bridgeWithdraw (operator : Address) (request : BridgeWithdrawTx) :
    Lockstep W (bridgeWithdraw operator request) := by
  refine .bind (lockstep_checkBridge kin _ _) fun _ => .bind (lockstep_readBalance kin _ _) fun _ => ?_
  split
  · exact .throw _
  · exact .bind (lockstep_setBalance kin _ _ _) fun _ => lockstep_emit kin _

end Accounts

variable (codec : Codec)

theorem lockstep_verifyTransaction (tx : Transaction) : Lockstep V (verifyTransaction codec tx) := by
  refine .bind (.tries fun _ _ _ => rfl) fun signer => ?_
  split
  · exact .pure ()
  · exact .throw _

theorem lockstep_verifyTxOwner (tx : Transaction) : Lockstep V (verifyTxOwner codec tx) := by
  refine .bind (.tries fun _ _ _ => rfl) fun signer => ?_
  split
  · exact .pure ()
  · exact .throw _

variable (nodes : NodeKin W V)

include kin nodes in
theorem lockstep_verifyNonce (tx : Transaction) : Lockstep V (verifyNonce tx) := by
  refine .bind (.reads fun n m alike => (kin.getNonce (kin.state (nodes.engine alike)) _).symm) fun currentNonce => ?_
  split
  · exact .throw _
  · split
    · exact .throw _
    · exact .pure ()

include nodes in
theorem lockstep_agents (write : AgentRegistry → AgentRegistry) {call : EngineM Unit} (both : Lockstep W call)
    (tx : Transaction) :
    Lockstep V (do
      verifyTxOwner codec tx
      writes fun node => {node with auth:=write node.auth}
      onEngine call) := by
  refine .bind (lockstep_verifyTxOwner codec tx) fun _ => .bind (.writes fun n m alike => ?_) fun _ =>
    lockstep_onEngine nodes both
  exact nodes.agents alike write

include kin nodes

theorem lockstep_executePayload (tx : Transaction) : Lockstep V (executePayload codec tx) := by
  unfold executePayload
  cases tx.payload with
  | setAgent agent =>
    exact lockstep_agents codec nodes (·.setAgent tx.sender agent.agent agent.permissions) (lockstep_emit kin _) tx
  | removeAgent agent => exact lockstep_agents codec nodes (·.removeAgent tx.sender agent.agent) (lockstep_emit kin _) tx
  | deposit deposit => exact lockstep_onEngine nodes (lockstep_updateBalance kin _ _ _ _ _)
  | withdraw withdraw => exact lockstep_onEngine nodes (lockstep_updateBalance kin _ _ _ _ _)
  | transfer transfer => exact lockstep_onEngine nodes (lockstep_transfer kin _ _)
  | placeOrder order => exact lockstep_onEngine nodes (.bind (lockstep_placeOrder kin _ _) fun _ => .pure ())
  | cancelOrder cancel => exact lockstep_onEngine nodes (lockstep_cancelOrder kin _ _)
  | closePosition close => exact lockstep_onEngine nodes (lockstep_closePosition kin _ _)
  | bridgeDeposit deposit => exact lockstep_onEngine nodes (lockstep_bridgeDeposit kin _ _)
  | bridgeWithdraw withdraw => exact lockstep_onEngine nodes (lockstep_bridgeWithdraw kin _ _)
  | modifyOrder modify => exact .throw _

theorem lockstep_executeBytes (data : List UInt8) : Lockstep V (executeBytes codec data) := by
  refine .bind (.tries fun _ _ _ => rfl) fun tx => .bind (lockstep_verifyTransaction codec tx) fun _ => ?_
  refine .bind (lockstep_verifyNonce kin nodes tx) fun _ => .bind (lockstep_executePayload kin codec nodes tx) fun _ => ?_
  refine .writes fun n m alike => nodes.update alike (kin.update (nodes.engine alike) ?_ (kin.levels (nodes.engine alike)))
  unfold StateManager.incrementNonce
  rw [kin.getNonce (kin.state (nodes.engine alike))]
  exact kin.set (kin.state (nodes.engine alike)) _ _ rfl

theorem executeBatch_twin {n m : Node} (alike : V n m) (stats : TxExecutionStats) (txs : List (List UInt8)) :
    (executeBatch codec stats m txs).1 = (executeBatch codec stats n txs).1 ∧
      V (executeBatch codec stats n txs).2 (executeBatch codec stats m txs).2 := by
  induction txs generalizing n m stats with
  | nil => exact ⟨rfl,alike⟩
  | cons data txs ih =>
    obtain ⟨result,after⟩ := lockstep_executeBytes kin codec nodes data n m alike
    unfold executeBatch
    cases left : exec (executeBytes codec data) n with
    | mk outcome n' =>
      cases right : exec (executeBytes codec data) m with
      | mk outcome' m' =>
        rw [left,right] at result after
        obtain rfl : outcome = outcome' := result
        cases outcome <;> exact ih after _

end Transactions

inductive SameSet (before after : Address → Address → Prop) :
    Option (List Address) → Option (List Address) → Prop where
  | absent : SameSet before after none none
  | present (perm : left.Perm right) (distinct : left.Nodup) (ordered : left.Pairwise before)
      (ordered' : right.Pairwise after) : SameSet before after (some left) (some right)

def HashOrder.Follows (order : HashOrder) (before : Address → Address → Prop) : Prop :=
  ∀ moment addresses, addresses.Nodup → (order.arrange moment addresses).Pairwise before

-- Two states that differ in the iteration order of the position indexes, in memory and in
-- the buffer, and in nothing else that is read or has been committed.
structure Shuffled (before after : Address → Address → Prop) (s t : StateManager) : Prop where
  version : t.version = s.version
  db : t.storage.db = s.storage.db
  config : t.storage.pruningConfig = s.storage.pruningConfig
  follows : s.hashOrder.Follows before
  follows' : t.hashOrder.Follows after
  pending : ∀ key, key.read → t.storage.pendingUpdates.lookup key = s.storage.pendingUpdates.lookup key
  written : ∀ marketId, SameSet before after (s.storage.pendingUpdates.lookup (.positionIndex marketId))
    (t.storage.pendingUpdates.lookup (.positionIndex marketId))
  index : ∀ marketId, SameSet before after (s.positionIndex marketId) (t.positionIndex marketId)

section Shuffles
variable {before after : Address → Address → Prop} {s t : StateManager}

theorem ne_positionIndex {key : StateKey} (chosen : key.read) (marketId : Nat) : key ≠ .positionIndex marketId := by
  rintro rfl
  cases chosen

theorem Shuffled.set (same : Shuffled before after s t) (key : StateKey) (value : key.Value) (chosen : key.read) :
    Shuffled before after (s.set key value) (t.set key value) := by
  refine ⟨same.version,same.db,same.config,same.follows,same.follows',fun read readable => ?_,fun marketId => ?_,same.index⟩
  · by_cases own : read = key
    · subst own; simp [StateManager.set,RocksDbStorage.set]
    · simp only [StateManager.set,RocksDbStorage.set,AList.lookup_insert_ne own]
      exact same.pending read readable
  · have other := (ne_positionIndex chosen marketId).symm
    simp only [StateManager.set,RocksDbStorage.set,AList.lookup_insert_ne other]
    exact same.written marketId

theorem Shuffled.delete (same : Shuffled before after s t) (key : StateKey) (chosen : key.read) :
    Shuffled before after (s.delete key) (t.delete key) := by
  refine ⟨same.version,same.db,same.config,same.follows,same.follows',fun read readable => ?_,fun marketId => ?_,same.index⟩
  · by_cases own : read = key
    · subst own; simp [StateManager.delete,RocksDbStorage.delete]
    · simp only [StateManager.delete,RocksDbStorage.delete,AList.lookup_erase_ne own]
      exact same.pending read readable
  · have other := (ne_positionIndex chosen marketId).symm
    simp only [StateManager.delete,RocksDbStorage.delete,AList.lookup_erase_ne other]
    exact same.written marketId

theorem Shuffled.reindex (same : Shuffled before after s t) (marketId : Nat) (left right : Option (List Address))
    (sets : SameSet before after left right) (moment moment' : Nat) :
    Shuffled before after {s with positionIndex:=Function.update s.positionIndex marketId left,moment:=moment}
      {t with positionIndex:=Function.update t.positionIndex marketId right,moment:=moment'} := by
  refine ⟨same.version,same.db,same.config,same.follows,same.follows',same.pending,same.written,fun read => ?_⟩
  dsimp only
  by_cases own : read = marketId
  · subst own; rw [Function.update_self,Function.update_self]; exact sets
  · rw [Function.update_of_ne own,Function.update_of_ne own]; exact same.index read

theorem SameSet.insert {left right : Option (List Address)} (sets : SameSet before after left right) {order order' : HashOrder}
    (follows : order.Follows before) (follows' : order'.Follows after) (address : Address) (moment moment' : Nat) :
    SameSet before after
      (some (if address ∈ left.getD [] then left.getD [] else order.arrange moment (address :: left.getD [])))
      (some (if address ∈ right.getD [] then right.getD [] else order'.arrange moment' (address :: right.getD []))) := by
  have lists : (left.getD []).Perm (right.getD []) ∧ (left.getD []).Nodup ∧ (left.getD []).Pairwise before ∧
      (right.getD []).Pairwise after := by
    cases sets with
    | absent => exact ⟨.refl _,List.nodup_nil,.nil,.nil⟩
    | present perm distinct ordered ordered' => exact ⟨perm,distinct,ordered,ordered'⟩
  obtain ⟨perm,distinct,ordered,ordered'⟩ := lists
  by_cases inside : address ∈ left.getD []
  · rw [if_pos inside,if_pos (perm.mem_iff.mp inside)]
    exact .present perm distinct ordered ordered'
  · have outside : address ∉ right.getD [] := fun known => inside (perm.mem_iff.mpr known)
    have fresh := List.nodup_cons.mpr ⟨inside,distinct⟩
    have fresh' := List.nodup_cons.mpr ⟨outside,perm.nodup_iff.mp distinct⟩
    rw [if_neg inside,if_neg outside]
    refine .present ?_ ((order.perm _ _).nodup_iff.mpr fresh) (follows _ _ fresh) (follows' _ _ fresh')
    exact (order.perm _ _).trans ((perm.cons address).trans (order'.perm _ _).symm)

theorem SameSet.erase {left right : List Address} (perm : left.Perm right) (distinct : left.Nodup)
    (ordered : left.Pairwise before) (ordered' : right.Pairwise after) (address : Address) :
    SameSet before after (if (left.erase address).isEmpty then none else some (left.erase address))
      (if (right.erase address).isEmpty then none else some (right.erase address)) := by
  have erased := perm.erase address
  have empty : (right.erase address).isEmpty = (left.erase address).isEmpty := by
    rw [Bool.eq_iff_iff,List.isEmpty_iff_length_eq_zero,List.isEmpty_iff_length_eq_zero,erased.length_eq]
  rw [empty]
  split
  · exact .absent
  · exact .present erased (distinct.erase address) (ordered.sublist List.erase_sublist) (ordered'.sublist List.erase_sublist)

theorem Shuffled.insertIntoPositionIndex (same : Shuffled before after s t) (marketId : Nat) (address : Address) :
    Shuffled before after (s.insertIntoPositionIndex marketId address) (t.insertIntoPositionIndex marketId address) :=
  same.reindex marketId _ _ ((same.index marketId).insert same.follows same.follows' address _ _) _ _

theorem Shuffled.removeFromPositionIndex (same : Shuffled before after s t) (marketId : Nat) (address : Address) :
    Shuffled before after (s.removeFromPositionIndex marketId address) (t.removeFromPositionIndex marketId address) := by
  have sets := same.index marketId
  unfold StateManager.removeFromPositionIndex
  cases left : s.positionIndex marketId with
  | none =>
    cases right : t.positionIndex marketId with
    | none => exact same
    | some addresses => rw [left,right] at sets; cases sets
  | some addresses =>
    cases right : t.positionIndex marketId with
    | none => rw [left,right] at sets; cases sets
    | some addresses' =>
      rw [left,right] at sets
      cases sets with
      | present perm distinct ordered ordered' =>
        exact same.reindex marketId _ _ (SameSet.erase perm distinct ordered ordered' address) _ _

theorem Shuffled.updatePositionIndex (same : Shuffled before after s t) (marketId : Nat) :
    Shuffled before after (s.updatePositionIndex marketId) (t.updatePositionIndex marketId) := by
  have sets := same.index marketId
  unfold StateManager.updatePositionIndex
  cases left : s.positionIndex marketId with
  | none =>
    cases right : t.positionIndex marketId with
    | some addresses => rw [left,right] at sets; cases sets
    | none =>
      refine ⟨same.version,same.db,same.config,same.follows,same.follows',fun read readable => ?_,fun other => ?_,same.index⟩
      · simp only [StateManager.delete,RocksDbStorage.delete,AList.lookup_erase_ne (ne_positionIndex readable marketId)]
        exact same.pending read readable
      · by_cases own : other = marketId
        · subst own; simpa [StateManager.delete,RocksDbStorage.delete] using .absent
        · have apart : StateKey.positionIndex other ≠ .positionIndex marketId := by simpa using own
          simp only [StateManager.delete,RocksDbStorage.delete,AList.lookup_erase_ne apart]
          exact same.written other
  | some addresses =>
    cases right : t.positionIndex marketId with
    | none => rw [left,right] at sets; cases sets
    | some addresses' =>
      rw [left,right] at sets
      refine ⟨same.version,same.db,same.config,same.follows,same.follows',fun read readable => ?_,fun other => ?_,same.index⟩
      · simp only [StateManager.set,RocksDbStorage.set,AList.lookup_insert_ne (ne_positionIndex readable marketId)]
        exact same.pending read readable
      · by_cases own : other = marketId
        · subst own; simpa [StateManager.set,RocksDbStorage.set] using sets
        · have apart : StateKey.positionIndex other ≠ .positionIndex marketId := by simpa using own
          simp only [StateManager.set,RocksDbStorage.set,AList.lookup_insert_ne apart]
          exact same.written other

theorem mirrors_shuffled (before after : Address → Address → Prop) : Mirrors (Shuffled before after) where
  reads same key chosen := by
    rw [StateManager.get,StateManager.get,RocksDbStorage.get,RocksDbStorage.get,same.pending key chosen,same.db,same.version]
  version same := same.version
  set same key value chosen := same.set key value chosen
  delete same key chosen := same.delete key chosen
  setPosition same address marketId position :=
    ((same.set (.position address marketId) position rfl).insertIntoPositionIndex marketId address).updatePositionIndex marketId
  deletePosition same address marketId :=
    ((same.delete (.position address marketId) rfl).removeFromPositionIndex marketId address).updatePositionIndex marketId

theorem Shuffled.beginBlock (same : Shuffled before after s t) (height : Nat) :
    Shuffled before after (s.beginBlock height) (t.beginBlock height) :=
  ⟨rfl,same.db,same.config,same.follows,same.follows',same.pending,same.written,same.index⟩

end Shuffles

def StateManager.Calm (s : StateManager) : Prop :=
  ∀ marketId index, s.storage.pendingUpdates.lookup (.positionIndex marketId) = some index → index.length ≤ 1

section Commits
variable {before after : Address → Address → Prop} {s t : StateManager}

theorem Shuffled.calm (same : Shuffled before after s t) (calm : s.Calm) : t.Calm := by
  intro marketId index found
  have sets := same.written marketId
  rw [found] at sets
  cases written : s.storage.pendingUpdates.lookup (.positionIndex marketId) with
  | none => rw [written] at sets; cases sets
  | some other =>
    rw [written] at sets
    cases sets with
    | present perm _ _ _ => rw [← perm.length_eq]; exact calm marketId other written

-- With at most one trader there is only one order.
theorem Shuffled.lookup_eq (same : Shuffled before after s t) (calm : s.Calm) (key : StateKey) :
    t.storage.pendingUpdates.lookup key = s.storage.pendingUpdates.lookup key := by
  cases readable : key.read with
  | true => exact same.pending key readable
  | false =>
    obtain ⟨marketId,rfl⟩ : ∃ marketId, key = .positionIndex marketId := by
      cases key with
      | positionIndex marketId => exact ⟨marketId,rfl⟩
      | _ => cases readable
    have sets := same.written marketId
    cases left : s.storage.pendingUpdates.lookup (.positionIndex marketId) with
    | none =>
      rw [left] at sets
      cases right : t.storage.pendingUpdates.lookup (.positionIndex marketId) with
      | none => rfl
      | some other => rw [right] at sets; cases sets
    | some index =>
      have short := calm marketId index left
      rw [left] at sets
      cases right : t.storage.pendingUpdates.lookup (.positionIndex marketId) with
      | none => rw [right] at sets; cases sets
      | some other =>
        rw [right] at sets
        cases sets with
        | present perm _ _ _ =>
          cases index with
          | nil => rw [List.nil_perm.mp perm]
          | cons address rest =>
            obtain rfl : rest = [] := List.length_eq_zero_iff.mp (by simpa using short)
            rw [List.perm_singleton.mp perm.symm]

theorem Shuffled.commit (hasher : TreeHasher StateKey StateKey.Value B256) (same : Shuffled before after s t) (calm : s.Calm) :
    (t.commit hasher).1 = (s.commit hasher).1 ∧ Shuffled before after (s.commit hasher).2 (t.commit hasher).2 := by
  have equal := same.lookup_eq calm
  refine ⟨?_,same.version,?_,?_,same.follows,same.follows',fun key _ => ?_,fun marketId => ?_,same.index⟩
  · change (t.storage.commit hasher t.version).1 = _
    rw [same.version]
    exact commit_root_congr hasher s.version same.db equal
  · change (t.storage.commit hasher t.version).2.db = _
    rw [same.version]
    exact commit_db_congr hasher s.version same.db equal same.config
  · exact (commit_config _ _ _).trans (same.config.trans (commit_config _ _ _).symm)
  · exact congrArg (AList.lookup key) ((commit_pending _ _ _).trans (commit_pending _ _ _).symm)
  · change SameSet before after ((s.storage.commit hasher s.version).2.pendingUpdates.lookup (.positionIndex marketId))
      ((t.storage.commit hasher t.version).2.pendingUpdates.lookup (.positionIndex marketId))
    rw [commit_pending,commit_pending]
    exact .absent

end Commits

namespace Node

def handed (hasher : TreeHasher StateKey StateKey.Value B256) (codec : Codec) (node : Node) :
    List Block → List (Contents StateKey StateKey.Value × B256)
  | [] => []
  | block :: rest =>
    ((node.execute codec block).engine.state.storage.pendingUpdates.lookup,(node.executeTxs hasher codec block).1) ::
      handed hasher codec (node.executeTxs hasher codec block).2 rest

def Calm (hasher : TreeHasher StateKey StateKey.Value B256) (codec : Codec) (node : Node) : List Block → Prop
  | [] => True
  | block :: rest =>
    (node.execute codec block).engine.state.Calm ∧ Calm hasher codec (node.executeTxs hasher codec block).2 rest

end Node

namespace Replicas
variable {before after : Address → Address → Prop} {n m : Node} (hasher : TreeHasher StateKey StateKey.Value B256)
  (codec : Codec)

theorem execute_twin (twin : NodeTwin (Shuffled before after) n m) (block : Block) :
    NodeTwin (Shuffled before after) (n.execute codec block) (m.execute codec block) := by
  obtain ⟨⟨state,levels,liquidation,context,borrowed⟩,auth⟩ := twin
  have begun : NodeTwin (Shuffled before after)
      {n with engine:={n.engine with state:=n.engine.state.beginBlock block.height}}
      {m with engine:={m.engine with state:=m.engine.state.beginBlock block.height}} :=
    ⟨⟨state.beginBlock block.height,levels,liquidation,context,borrowed⟩,auth⟩
  exact (executeBatch_twin (kin_twin (mirrors_shuffled before after).observes) codec nodeKin_twin begun {} block.txs).2

-- One block: equal roots, and nodes as close as before, unless an index of two traders is
-- written.
theorem executeTxs_twin (twin : NodeTwin (Shuffled before after) n m) (block : Block)
    (calm : (n.execute codec block).engine.state.Calm) :
    (m.executeTxs hasher codec block).1 = (n.executeTxs hasher codec block).1 ∧
      NodeTwin (Shuffled before after) (n.executeTxs hasher codec block).2 (m.executeTxs hasher codec block).2 := by
  obtain ⟨⟨state,levels,liquidation,context,borrowed⟩,auth⟩ := execute_twin codec twin block
  obtain ⟨root,committed⟩ := state.commit hasher calm
  exact ⟨root,⟨committed,levels,liquidation,context,borrowed⟩,auth⟩

theorem handed_of_calm (twin : NodeTwin (Shuffled before after) n m) {blocks : List Block}
    (calm : n.Calm hasher codec blocks) :
    m.handed hasher codec blocks = n.handed hasher codec blocks ∧ m.Calm hasher codec blocks := by
  induction blocks generalizing n m with
  | nil => exact ⟨rfl,trivial⟩
  | cons block blocks ih =>
    obtain ⟨now,later⟩ := calm
    have executed := execute_twin codec twin block
    obtain ⟨root,next⟩ := executeTxs_twin hasher codec twin block now
    obtain ⟨handed,calm'⟩ := ih next later
    refine ⟨?_,executed.engine.state.calm now,calm'⟩
    simp only [Node.handed]
    rw [root,handed,funext (executed.engine.state.lookup_eq now)]

def ascending (left right : Address) : Prop := left.value < right.value

def descending (left right : Address) : Prop := right.value < left.value

theorem calm_of_handed (twin : NodeTwin (Shuffled ascending descending) n m) {blocks : List Block}
    (same : m.handed hasher codec blocks = n.handed hasher codec blocks) : n.Calm hasher codec blocks := by
  induction blocks generalizing n m with
  | nil => trivial
  | cons block blocks ih =>
    simp only [Node.handed,List.cons.injEq,Prod.mk.injEq] at same
    obtain ⟨⟨lookups,_⟩,rest⟩ := same
    have executed := execute_twin codec twin block
    have calm : (n.execute codec block).engine.state.Calm := by
      intro marketId index found
      have sets := executed.engine.state.written marketId
      have equal := congrFun lookups (.positionIndex marketId)
      rw [equal,found] at sets
      cases sets with
      | present _ _ up down =>
        match index with
        | [] | [_] => simp
        | first :: second :: _ =>
          have less := List.rel_of_pairwise_cons up List.mem_cons_self
          have more := List.rel_of_pairwise_cons down List.mem_cons_self
          exact absurd more (lt_asymm less)
    obtain ⟨_,next⟩ := executeTxs_twin hasher codec twin block calm
    exact ⟨calm,ih next rest⟩

def sortUp : HashOrder where
  arrange _ addresses := addresses.insertionSort (·.value ≤ ·.value)
  perm _ addresses := List.perm_insertionSort _ addresses

def sortDown : HashOrder where
  arrange moment addresses := (sortUp.arrange moment addresses).reverse
  perm moment addresses := (List.reverse_perm _).trans (sortUp.perm moment addresses)

theorem sortUp_follows : sortUp.Follows ascending := by
  intro moment addresses distinct
  have total : Std.Total fun left right : Address => left.value ≤ right.value :=
    ⟨fun left right => le_total left.value right.value⟩
  have trans : IsTrans Address fun left right => left.value ≤ right.value := ⟨fun _ _ _ => le_trans⟩
  have sorted := List.pairwise_insertionSort (fun left right : Address => left.value ≤ right.value) addresses
  have apart : (sortUp.arrange moment addresses).Nodup := (sortUp.perm moment addresses).nodup_iff.mpr distinct
  refine (sorted.and apart).imp fun {left right} both => lt_of_le_of_ne both.1 fun same => both.2 ?_
  cases left
  cases right
  exact congrArg Address.mk same

theorem sortDown_follows : sortDown.Follows descending := fun moment addresses distinct =>
  List.pairwise_reverse.mpr (sortUp_follows moment addresses distinct)

theorem follows_anything (order : HashOrder) : order.Follows fun _ _ => True := fun _ _ _ =>
  List.pairwise_of_forall fun _ _ => trivial

theorem twin_new {storage : StateStorage} {order order' : HashOrder} (follows : order.Follows before)
    (follows' : order'.Follows after)
    (unwritten : ∀ marketId, storage.pendingUpdates.lookup (.positionIndex marketId) = none) :
    NodeTwin (Shuffled before after) (Node.new storage order) (Node.new storage order') := by
  refine ⟨⟨⟨rfl,rfl,rfl,follows,follows',fun _ _ => rfl,fun marketId => ?_,fun _ => .absent⟩,rfl,rfl,rfl,rfl⟩,rfl⟩
  have absent : (Node.new storage order).engine.state.storage.pendingUpdates.lookup (.positionIndex marketId) = none :=
    unwritten marketId
  have absent' : (Node.new storage order').engine.state.storage.pendingUpdates.lookup (.positionIndex marketId) = none :=
    unwritten marketId
  rw [absent,absent']
  exact .absent

-- Processes that run the same blocks on the same store hand the same pairs to the tree, and
-- return the same roots, whatever their iteration orders, exactly when no block writes the
-- index of a market that has two traders.
theorem replicas_agree_iff {storage : StateStorage}
    (unwritten : ∀ marketId, storage.pendingUpdates.lookup (.positionIndex marketId) = none) (blocks : List Block) :
    (∀ order order', (Node.new storage order').handed hasher codec blocks =
      (Node.new storage order).handed hasher codec blocks) ↔ (Node.new storage .keep).Calm hasher codec blocks := by
  constructor
  · intro same
    have calm := calm_of_handed hasher codec (twin_new sortUp_follows sortDown_follows unwritten) (same sortUp sortDown)
    exact (handed_of_calm hasher codec (twin_new (follows_anything sortUp) (follows_anything .keep) unwritten) calm).2
  · intro calm order order'
    have left := (handed_of_calm hasher codec (twin_new (follows_anything .keep) (follows_anything order) unwritten) calm).1
    have right := (handed_of_calm hasher codec (twin_new (follows_anything .keep) (follows_anything order') unwritten) calm).1
    exact right.trans left.symm

def quiet : Sigma StateKey.Value → Bool
  | ⟨.positionIndex _,index⟩ => index.length ≤ 1
  | _ => true

theorem calm_of_quiet {s : StateManager} (quietly : ∀ entry ∈ s.storage.pendingUpdates.entries, quiet entry) : s.Calm := by
  intro marketId index found
  have inside : (⟨.positionIndex marketId,index⟩ : Sigma StateKey.Value) ∈ s.storage.pendingUpdates.entries :=
    AList.mem_lookup_iff.mp found
  exact of_decide_eq_true (quietly _ inside)

def ask : Transaction := ⟨0,Bench.alice,.placeOrder Bench.ask,.rawBorsh 0⟩

def bid : Transaction := ⟨0,Bench.bob,.placeOrder Bench.bid,.rawBorsh 0⟩

def flatHasher : TreeHasher StateKey StateKey.Value B256 := ⟨0,fun _ => 1⟩

theorem bench_unwritten (marketId : Nat) : Bench.state.storage.pendingUpdates.lookup (.positionIndex marketId) = none := by
  have keys : ∀ key ∈ Bench.state.storage.pendingUpdates.keys, key.read := by decide +kernel
  refine AList.lookup_eq_none.mpr fun inside => ?_
  cases keys _ inside

theorem replicas_agree_iff_resting :
    let blocks : List Block := [⟨1,[Bench.written ask]⟩,⟨2,[]⟩]
    ∀ order order', (Node.new Bench.state.storage order').handed flatHasher Bench.trusting blocks =
      (Node.new Bench.state.storage order).handed flatHasher Bench.trusting blocks := by
  intro blocks
  refine (replicas_agree_iff flatHasher Bench.trusting bench_unwritten blocks).mpr ⟨?_,?_,trivial⟩
  · exact calm_of_quiet (by decide +kernel)
  · exact calm_of_quiet (by decide +kernel)

-- The first trade of a market writes its two traders in the order of the process.
theorem first_trade_diverges :
    let blocks : List Block := [⟨1,[Bench.written ask,Bench.written bid]⟩]
    let written (order : HashOrder) := ((Node.new Bench.state.storage order).handed flatHasher Bench.trusting blocks).map
      fun block => block.1 (.positionIndex 0)
    written sortUp = [some [Bench.alice,Bench.bob]] ∧ written sortDown = [some [Bench.bob,Bench.alice]] ∧
      ¬∀ order order', (Node.new Bench.state.storage order').handed flatHasher Bench.trusting blocks =
        (Node.new Bench.state.storage order).handed flatHasher Bench.trusting blocks := by
  intro blocks written
  have up : written sortUp = [some [Bench.alice,Bench.bob]] := by decide +kernel
  have down : written sortDown = [some [Bench.bob,Bench.alice]] := by decide +kernel
  refine ⟨up,down,fun same => ?_⟩
  have equal : written sortDown = written sortUp := congrArg (List.map _) (same sortUp sortDown)
  rw [up,down] at equal
  exact absurd equal (by decide +kernel)

end Replicas
end Pranklin
