import Pranklin.Nonces
import Pranklin.Pooling

namespace Pranklin
open Effect TransactionExecutor

namespace TransactionExecutor

-- `execute_batch` with the pool: the transaction that succeeds is dropped by its hash.
def executePooled (codec : Codec) (hash : Transaction → B256) (data : List UInt8) (node : Node) (pool : Mempool) :
    Except TxExecutionError Unit × Node × Mempool :=
  match Transaction.decode codec data with
  | .error error => (.error error,node,pool)
  | .ok tx =>
    match exec (execute codec tx) node with
    | (.error error,node) => (.error error,node,pool)
    | (.ok _,node) => (.ok (),node,(pool.remove (hash tx)).2)

def executeBatchPooled (codec : Codec) (hash : Transaction → B256) (stats : TxExecutionStats) (node : Node)
    (pool : Mempool) : List (List UInt8) → TxExecutionStats × Node × Mempool
  | [] => (stats,node,pool)
  | data :: rest =>
    match executePooled codec hash data node pool with
    | (.ok _,node,pool) =>
      executeBatchPooled codec hash {stats with successful:=stats.successful + 1} node pool rest
    | (.error _,node,pool) => executeBatchPooled codec hash {stats with failed:=stats.failed + 1} node pool rest

end TransactionExecutor

namespace Server

def maxTxsPerBlock : Nat := 1000

def takeFitting (maxBytes total : Nat) : List (List UInt8) → List (List UInt8)
  | [] => []
  | encoded :: rest =>
    if maxBytes < total + encoded.length then []
    else encoded :: takeFitting maxBytes (total + encoded.length) rest

def fetchTxsFromMempool (encode : Transaction → List UInt8) (maxBytes : Nat) (pool : Mempool) : List (List UInt8) :=
  takeFitting maxBytes 0 ((pool.readyTxs maxTxsPerBlock).map encode)

end Server

namespace PoolNonces
variable {codec : Codec} {hash : Transaction → B256} {node : Node} {pool : Mempool}

inductive Step where
  | add (tx : Transaction)
  | block (txs : List (List UInt8))

def Step.after (codec : Codec) (hash : Transaction → B256) (s : Node × Mempool) : Step → Node × Mempool
  | .add tx => (s.1,(s.2.add hash tx).2)
  | .block txs => (executeBatchPooled codec hash {} s.1 s.2 txs).2

def run (codec : Codec) (hash : Transaction → B256) (s : Node × Mempool) (steps : List Step) : Node × Mempool :=
  steps.foldl (Step.after codec hash) s

theorem executeBatchPooled_node (stats : TxExecutionStats) (batch : List (List UInt8)) :
    (executeBatchPooled codec hash stats node pool batch).1 = (executeBatch codec stats node batch).1 ∧
      (executeBatchPooled codec hash stats node pool batch).2.1 = (executeBatch codec stats node batch).2 := by
  induction batch generalizing stats node pool with
  | nil => exact ⟨rfl,rfl⟩
  | cons data batch ih =>
    rw [executeBatchPooled,executeBatch,executePooled,executeBytes,exec_bind,exec_tries]
    cases Transaction.decode codec data with
    | error error => exact ih _
    | ok tx =>
      dsimp only
      cases exec (execute codec tx) node with
      | mk result next => cases result <;> exact ih _

def Stale (node : Node) (pool : Mempool) : Prop :=
  ∃ h tx, pool.get h = some tx ∧ tx.nonce < node.engine.state.getNonce tx.sender

structure Executable (codec : Codec) (tx : Transaction) (node : Node) : Prop where
  accepted : Accepted codec tx node
  payload : (exec (executeTxPayloadReadonly tx) node.engine).1 = .ok ()

def Own (codec : Codec) (hash : Transaction → B256) (data : List UInt8) (node : Node) (pool : Mempool) : Prop :=
  ∀ tx, Transaction.decode codec data = .ok tx → Executable codec tx node →
    ∀ h pooled, pool.get h = some pooled → pooled.sender = tx.sender → pooled.nonce = tx.nonce → h = hash tx

def OwnBatch (codec : Codec) (hash : Transaction → B256) (node : Node) (pool : Mempool) : List (List UInt8) → Prop
  | [] => True
  | data :: rest => Own codec hash data node pool ∧
    OwnBatch codec hash (executePooled codec hash data node pool).2.1 (executePooled codec hash data node pool).2.2 rest

-- What is let in has its nonce still before it; a block spends no pooled nonce by another
-- transaction.
def Step.Timely (codec : Codec) (hash : Transaction → B256) (s : Node × Mempool) : Step → Prop
  | .add tx => s.2.validate hash tx = .ok () → s.1.engine.state.getNonce tx.sender ≤ tx.nonce
  | .block txs => OwnBatch codec hash s.1 s.2 txs

def Timely (codec : Codec) (hash : Transaction → B256) (s : Node × Mempool) : List Step → Prop
  | [] => True
  | step :: steps => step.Timely codec hash s ∧ Timely codec hash (step.after codec hash s) steps

theorem executable_of_ok (done : (exec (execute codec tx) node).1 = .ok ()) : Executable codec tx node := by
  by_cases accepted : Accepted codec tx node
  case neg =>
    obtain ⟨error,failed⟩ := execute_rejected accepted
    rw [failed] at done
    cases done
  refine ⟨accepted,?_⟩
  rw [execute_accepted accepted] at done
  cases ran : exec (executeTxPayloadReadonly tx) node.engine with
  | mk result e =>
    rw [ran] at done
    cases result with
    | error error => cases done
    | ok _ => rfl

-- Bytes that fail leave nonces and pool; those that go through spend the nonce they carry and
-- take their own transaction from the pool.
theorem executePooled_cases (codec : Codec) (hash : Transaction → B256) (data : List UInt8) (node : Node)
    (pool : Mempool) :
    ((executePooled codec hash data node pool).2.2 = pool ∧ ∀ account,
        (executePooled codec hash data node pool).2.1.engine.state.getNonce account =
          node.engine.state.getNonce account) ∨
      ∃ tx, Transaction.decode codec data = .ok tx ∧ Executable codec tx node ∧
        (executePooled codec hash data node pool).2.2 = (pool.remove (hash tx)).2 ∧
        ∀ account, (executePooled codec hash data node pool).2.1.engine.state.getNonce account =
          if account = tx.sender then Words.addWrap 64 tx.nonce 1 else node.engine.state.getNonce account := by
  have moved := Nonces.after_cases codec node data
  rw [after,executeBytes,exec_bind,exec_tries] at moved
  rw [executePooled]
  cases decoded : Transaction.decode codec data with
  | error error => exact .inl ⟨rfl,fun _ => rfl⟩
  | ok tx =>
    rw [decoded] at moved
    dsimp only at moved ⊢
    cases ran : exec (execute codec tx) node with
    | mk result next =>
      rw [ran] at moved
      cases result with
      | error error =>
        rcases moved with ⟨_,_,kept⟩ | ⟨_,_,done,_⟩
        · exact .inl ⟨rfl,kept⟩
        · cases done
      | ok _ =>
        rcases moved with ⟨_,failed,_⟩ | ⟨_,same,_,_,spent⟩
        · cases failed
        · cases same
          exact .inr ⟨tx,rfl,executable_of_ok (by rw [ran]),rfl,spent⟩

theorem addWrap_le (n : Nat) : Words.addWrap 64 n 1 ≤ n + 1 := Nat.mod_le _ _

theorem not_stale_executePooled (fresh : ¬Stale node pool) (own : Own codec hash data node pool) :
    ¬Stale (executePooled codec hash data node pool).2.1 (executePooled codec hash data node pool).2.2 := by
  intro ⟨h,pooled,found,spent⟩
  rcases executePooled_cases codec hash data node pool with ⟨same,kept⟩ | ⟨tx,decoded,executable,left,moved⟩
  · rw [same] at found
    rw [kept] at spent
    exact fresh ⟨h,pooled,found,spent⟩
  · rw [left] at found
    change (pool.index.remove (hash tx)).2.get h = some pooled at found
    rw [TransactionIndex.get_remove] at found
    split at found
    · cases found
    · rename_i other
      rw [moved] at spent
      have before : ¬pooled.nonce < node.engine.state.getNonce pooled.sender :=
        fun old => fresh ⟨h,pooled,found,old⟩
      split at spent
      · -- The nonce just spent is the only one that became old.
        rename_i mine
        have next := executable.accepted.next
        have small := addWrap_le tx.nonce
        rw [mine] at before
        exact other (own tx decoded executable h pooled found mine (by omega))
      · exact before spent

theorem not_stale_executeBatchPooled (fresh : ¬Stale node pool) (own : OwnBatch codec hash node pool batch)
    (stats : TxExecutionStats) :
    ¬Stale (executeBatchPooled codec hash stats node pool batch).2.1
      (executeBatchPooled codec hash stats node pool batch).2.2 := by
  induction batch generalizing stats node pool with
  | nil => exact fresh
  | cons data batch ih =>
    obtain ⟨now,later⟩ := own
    have next := not_stale_executePooled fresh now
    rw [executeBatchPooled]
    revert next later
    cases executePooled codec hash data node pool with
    | mk result rest =>
      intro later next
      cases result <;> exact ih next later _

theorem not_stale_add (fresh : ¬Stale node pool) {tx : Transaction}
    (current : pool.validate hash tx = .ok () → node.engine.state.getNonce tx.sender ≤ tx.nonce) :
    ¬Stale node (pool.add hash tx).2 := by
  rcases Mempool.add_cases hash pool tx with ⟨valid,next⟩ | ⟨_,same⟩
  · intro ⟨h,pooled,found,spent⟩
    rw [next] at found
    change (pool.index.insert hash tx).get h = some pooled at found
    rw [TransactionIndex.get_insert] at found
    split at found
    · cases found
      exact absurd spent (Nat.not_lt.mpr (current valid))
    · exact fresh ⟨h,pooled,found,spent⟩
  · rwa [same]

theorem mem_getBySender {index : TransactionIndex} {sender : Address} {tx : Transaction}
    (inside : tx ∈ index.getBySender sender) : ∃ h, index.get h = some tx := by
  unfold TransactionIndex.getBySender at inside
  split at inside
  · cases inside
  · obtain ⟨_,_,named⟩ := List.mem_filterMap.mp inside
    obtain ⟨h,_,found⟩ := Option.bind_eq_some_iff.mp named
    exact ⟨h,found⟩

theorem mem_readyTxs {limit : Nat} (inside : tx ∈ pool.readyTxs limit) : ∃ h, pool.get h = some tx := by
  obtain ⟨_,_,own⟩ := List.mem_flatMap.mp (List.mem_of_mem_take inside)
  exact mem_getBySender own

theorem takeFitting_subset (maxBytes total : Nat) (encoded : List (List UInt8)) :
    Server.takeFitting maxBytes total encoded ⊆ encoded := by
  induction encoded generalizing total with
  | nil => exact List.Subset.refl _
  | cons first rest ih =>
    rw [Server.takeFitting]
    split
    · exact List.nil_subset _
    · exact List.cons_subset_cons _ (ih _)

theorem fetched_pooled {encode : Transaction → List UInt8} {maxBytes : Nat}
    (proposed : data ∈ Server.fetchTxsFromMempool encode maxBytes pool) : ∃ h tx, pool.get h = some tx ∧ encode tx = data := by
  obtain ⟨tx,ready,same⟩ := List.mem_map.mp (takeFitting_subset _ _ _ proposed)
  obtain ⟨h,found⟩ := mem_readyTxs ready
  exact ⟨h,tx,found,same⟩

theorem pool_never_stale (codec : Codec) (hash : Transaction → B256) (node : Node) (config : MempoolConfig)
    (steps : List Step) (timely : Timely codec hash (node,.new config) steps) :
    ∀ front, front <+: steps →
      let (node,pool) := run codec hash (node,.new config) front
      (∀ h tx, pool.get h = some tx → node.engine.state.getNonce tx.sender ≤ tx.nonce) ∧
        ∀ encode maxBytes, ∀ data ∈ Server.fetchTxsFromMempool encode maxBytes pool,
          ∃ tx, encode tx = data ∧ node.engine.state.getNonce tx.sender ≤ tx.nonce := by
  have keeps : ∀ s : Node × Mempool, ¬Stale s.1 s.2 → Timely codec hash s steps → ∀ front, front <+: steps →
      ¬Stale (run codec hash s front).1 (run codec hash s front).2 := by
    clear timely
    induction steps with
    | nil =>
      intro s fresh _ front part
      rw [List.prefix_nil.mp part]
      exact fresh
    | cons step steps ih =>
      intro s fresh ⟨now,later⟩ front part
      have next : ¬Stale (step.after codec hash s).1 (step.after codec hash s).2 := by
        cases step with
        | add tx => exact not_stale_add fresh now
        | block txs => exact not_stale_executeBatchPooled fresh now {}
      rcases List.prefix_cons_iff.mp part with rfl | ⟨back,rfl,shorter⟩
      · exact fresh
      · exact ih _ next later back shorter
  intro front part
  have bare : ¬Stale node (.new config) := by
    intro ⟨h,tx,found,_⟩
    cases found
  have fresh := keeps (node,.new config) bare timely front part
  have current : ∀ h tx, (run codec hash (node,.new config) front).2.get h = some tx →
      (run codec hash (node,.new config) front).1.engine.state.getNonce tx.sender ≤ tx.nonce :=
    fun h tx found => Nat.not_lt.mp fun spent => fresh ⟨h,tx,found,spent⟩
  refine ⟨current,fun encode maxBytes data proposed => ?_⟩
  obtain ⟨h,tx,found,same⟩ := fetched_pooled proposed
  exact ⟨tx,same,current h tx found⟩

open MempoolCall.Bench Bench

def freshNode : Node := Node.new fresh.storage .keep

theorem pool_never_stale_own_block :
    let steps : List Step := [.add (deposit 0 5),.block [written (deposit 0 5)]]
    Timely trusting byAmount (freshNode,.new {}) steps ∧
      ∀ h tx, (run trusting byAmount (freshNode,.new {}) steps).2.get h = some tx →
        (run trusting byAmount (freshNode,.new {}) steps).1.engine.state.getNonce tx.sender ≤ tx.nonce := by
  intro steps
  have read : Transaction.decode trusting (written (deposit 0 5)) = .ok (deposit 0 5) :=
    decode_written (by decide +kernel) (by decide +kernel)
  have timely : Timely trusting byAmount (freshNode,.new {}) steps := by
    refine ⟨?_,⟨?_,trivial⟩,trivial⟩
    · change _ → _
      decide +kernel
    · intro tx decoded _ h pooled found _ _
      cases read.symm.trans decoded
      change (TransactionIndex.new.insert byAmount (deposit 0 5)).get h = some pooled at found
      rw [TransactionIndex.get_insert] at found
      split at found
      · assumption
      · cases found
  exact ⟨timely,(pool_never_stale trusting byAmount freshNode {} _ timely _ List.prefix_rfl).1⟩

theorem spent_nonce_stays_pooled :
    ¬∀ (codec : Codec) (hash : Transaction → B256) (node : Node) (config : MempoolConfig) (front : List Step)
      (txs : List (List UInt8)),
      let (node,pool) := run codec hash (node,.new config) (front ++ [.block txs])
      ∀ h tx, pool.get h = some tx → node.engine.state.getNonce tx.sender ≤ tx.nonce := by
  intro all
  have pooled := all trusting byAmount freshNode {} [.add (deposit 0 5)] [written (deposit 0 6)] 5 (deposit 0 5)
    (by decide +kernel)
  revert pooled
  decide +kernel

end PoolNonces
end Pranklin
