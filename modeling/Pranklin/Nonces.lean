import Mathlib.Data.List.Nodup
import Mathlib.Data.List.Range
import Pranklin.Transactions
import Pranklin.TxCodec

namespace Pranklin
open Words Effect TransactionExecutor

namespace TransactionExecutor

def after (codec : Codec) (node : Node) (data : List UInt8) : Node := (exec (executeBytes codec data) node).2

def successes (codec : Codec) (node : Node) : List (List UInt8) → List (List UInt8 × Transaction)
  | [] => []
  | data :: rest =>
    match Transaction.decode codec data,(exec (executeBytes codec data) node).1 with
    | .ok tx,.ok _ => (data,tx) :: successes codec (after codec node data) rest
    | _,_ => successes codec (after codec node data) rest

def runBatches (codec : Codec) (node : Node) (batches : List (List (List UInt8))) : Node :=
  batches.foldl (fun node batch => (executeBatch codec {} node batch).2) node

def successesOf (codec : Codec) (node : Node) : List (List (List UInt8)) → List (List UInt8 × Transaction)
  | [] => []
  | batch :: batches => successes codec node batch ++ successesOf codec (executeBatch codec {} node batch).2 batches

end TransactionExecutor

namespace Nonces
variable {codec : Codec} {node : Node} {account : Address}

theorem executeBatch_node (stats : TxExecutionStats) (batch : List (List UInt8)) :
    (executeBatch codec stats node batch).2 = batch.foldl (after codec) node := by
  induction batch generalizing node stats with
  | nil => rfl
  | cons data batch ih =>
    rw [List.foldl_cons,after,executeBatch]
    cases exec (executeBytes codec data) node with
    | mk result node' => cases result <;> exact ih _

theorem successes_append (front back : List (List UInt8)) :
    successes codec node (front ++ back) =
      successes codec node front ++ successes codec (front.foldl (after codec) node) back := by
  induction front generalizing node with
  | nil => rfl
  | cons data front ih =>
    rw [List.cons_append,successes,successes,List.foldl_cons,ih]
    split <;> rfl

theorem runBatches_flatten (batches : List (List (List UInt8))) :
    runBatches codec node batches = batches.flatten.foldl (after codec) node := by
  induction batches generalizing node with
  | nil => rfl
  | cons batch batches ih =>
    rw [List.flatten_cons,List.foldl_append,← executeBatch_node {} batch]
    exact ih

theorem successesOf_flatten (batches : List (List (List UInt8))) :
    successesOf codec node batches = successes codec node batches.flatten := by
  induction batches generalizing node with
  | nil => rfl
  | cons batch batches ih => rw [successesOf,ih,List.flatten_cons,successes_append,executeBatch_node]

theorem getNonce_incrementNonce (s : StateManager) (address other : Address) :
    (s.incrementNonce address).getNonce other =
      if other = address then addWrap 64 (s.getNonce address) 1 else s.getNonce other := by
  unfold StateManager.incrementNonce StateManager.setNonce
  rw [StateManager.getNonce,StateManager.getNonce]
  split
  · rename_i same
    rw [same,StateManager.get_set_self]
    rfl
  · rename_i apart
    rw [StateManager.get_set_ne _ _ (by simpa using apart)]
    rfl

-- One byte string: it fails and no nonce moves, or its transaction carries the nonce of its
-- sender and moves that one.
theorem after_cases (codec : Codec) (node : Node) (data : List UInt8) :
    (∃ error, (exec (executeBytes codec data) node).1 = .error error ∧
        ∀ account, (after codec node data).engine.state.getNonce account = node.engine.state.getNonce account) ∨
      ∃ tx, Transaction.decode codec data = .ok tx ∧ (exec (executeBytes codec data) node).1 = .ok () ∧
        tx.nonce = node.engine.state.getNonce tx.sender ∧
        ∀ account, (after codec node data).engine.state.getNonce account =
          if account = tx.sender then addWrap 64 tx.nonce 1 else node.engine.state.getNonce account := by
  unfold after
  rw [executeBytes,exec_bind,exec_tries]
  cases decoded : Transaction.decode codec data with
  | error error => exact .inl ⟨error,rfl,fun _ => rfl⟩
  | ok tx =>
  dsimp only
  by_cases accepted : Accepted codec tx node
  case neg =>
    obtain ⟨error,failed⟩ := execute_rejected accepted
    rw [failed]
    exact .inl ⟨error,rfl,fun _ => rfl⟩
  have kept := payload_getNonce tx node.engine
  rw [execute_accepted accepted]
  cases ran : exec (executeTxPayloadReadonly tx) node.engine with
  | mk result e =>
    rw [ran] at kept
    cases result with
    | error error => exact .inl ⟨error,rfl,kept⟩
    | ok _ =>
      refine .inr ⟨tx,rfl,rfl,accepted.next,fun account => ?_⟩
      change (e.state.incrementNonce tx.sender).getNonce account = _
      rw [getNonce_incrementNonce,kept,kept,accepted.next]

theorem decode_of_mem_successes {txs : List (List UInt8)} {entry : List UInt8 × Transaction}
    (inside : entry ∈ successes codec node txs) : Transaction.decode codec entry.1 = .ok entry.2 := by
  induction txs generalizing node with
  | nil => cases inside
  | cons data txs ih =>
    rw [successes] at inside
    split at inside
    · rename_i tx _ decoded _
      rcases List.mem_cons.mp inside with rfl | inside
      · exact decoded
      · exact ih inside
    · exact ih inside

theorem successes_failed (failed : (exec (executeBytes codec data) node).1 = .error error) (txs : List (List UInt8)) :
    successes codec node (data :: txs) = successes codec (after codec node data) txs := by
  rw [successes,failed]
  split
  · rename_i refuses
    cases refuses
  · rfl

theorem successes_done (decoded : Transaction.decode codec data = .ok tx)
    (done : (exec (executeBytes codec data) node).1 = .ok ()) (txs : List (List UInt8)) :
    successes codec node (data :: txs) = (data,tx) :: successes codec (after codec node data) txs := by
  rw [successes,decoded,done]

theorem run_nonces {txs : List (List UInt8)} (below : ∀ front, front <+: txs →
      (front.foldl (after codec) node).engine.state.getNonce account < 2 ^ 64 - 1) :
    let own := (successes codec node txs).filter (·.2.sender = account)
    own.map (·.2.nonce) = List.range' (node.engine.state.getNonce account) own.length ∧
      (txs.foldl (after codec) node).engine.state.getNonce account = node.engine.state.getNonce account + own.length := by
  induction txs generalizing node with
  | nil => exact ⟨rfl,rfl⟩
  | cons data txs ih =>
    intro own
    have start : node.engine.state.getNonce account < 2 ^ 64 - 1 := below [] List.nil_prefix
    have later : ∀ front, front <+: txs →
        (front.foldl (after codec) (after codec node data)).engine.state.getNonce account < 2 ^ 64 - 1 :=
      fun front part => below (data :: front) (List.cons_prefix_cons.mpr ⟨rfl,part⟩)
    obtain ⟨nonces,final⟩ := ih later
    rcases after_cases codec node data with ⟨error,failed,kept⟩ | ⟨tx,decoded,done,next,moved⟩
    · rw [kept] at nonces final
      simp only [own,successes_failed failed]
      exact ⟨nonces,final⟩
    · have grown := successes_done decoded done txs
      rw [moved] at nonces final
      by_cases mine : account = tx.sender
      · have one : addWrap 64 tx.nonce 1 = node.engine.state.getNonce account + 1 := by
          rw [next,← mine]
          exact addWrap_of_lt (by omega)
        rw [if_pos mine,one] at nonces final
        have listed : own = (data,tx) :: (successes codec (after codec node data) txs).filter (·.2.sender = account) := by
          simp only [own,grown]
          rw [List.filter_cons_of_pos (by simp [mine])]
        rw [listed,List.map_cons,List.length_cons,List.range'_succ,nonces,next,← mine]
        refine ⟨rfl,?_⟩
        rw [List.foldl_cons,final]
        omega
      · have skipped : own = (successes codec (after codec node data) txs).filter (·.2.sender = account) := by
          simp only [own,grown]
          rw [List.filter_cons_of_neg (by simpa using fun same => mine same.symm)]
        rw [if_neg mine] at nonces final
        rw [skipped]
        exact ⟨nonces,final⟩

-- From a node whose nonces are all zero, whatever the batches: the transactions of an account
-- that succeed count up from zero, its nonce is their number, and no bytes succeed twice.
theorem no_replay (codec : Codec) (node : Node) (zero : ∀ account, node.engine.state.getNonce account = 0)
    (batches : List (List (List UInt8))) (account : Address)
    (below : ∀ front, front <+: batches.flatten →
      (front.foldl (after codec) node).engine.state.getNonce account < 2 ^ 64 - 1) :
    let own := (successesOf codec node batches).filter (·.2.sender = account)
    own.map (·.2.nonce) = List.range own.length ∧
      (runBatches codec node batches).engine.state.getNonce account = own.length ∧ (own.map (·.1)).Nodup := by
  intro own
  obtain ⟨nonces,final⟩ := run_nonces below
  rw [← successesOf_flatten,zero,← List.range_eq_range'] at nonces
  rw [← successesOf_flatten,zero,Nat.zero_add,← runBatches_flatten] at final
  refine ⟨nonces,final,?_⟩
  -- The bytes determine the transaction and so its nonce.
  have decoded : own.map (·.2.nonce) = (own.map (·.1)).map fun data =>
      ((Transaction.decode codec data).toOption.map Transaction.nonce).getD 0 := by
    rw [List.map_map]
    refine List.map_congr_left fun entry inside => ?_
    have found := (List.mem_filter.mp inside).1
    rw [successesOf_flatten] at found
    simp [decode_of_mem_successes found,Except.toOption]
  refine List.Nodup.of_map (fun data => ((Transaction.decode codec data).toOption.map Transaction.nonce).getD 0) ?_
  rw [← decoded]
  exact nonces ▸ List.nodup_range

def deposit (nonce : Nat) : Transaction := ⟨nonce,Bench.alice,.deposit ⟨5,0⟩,.rawBorsh 0⟩

theorem no_replay_resubmitted :
    let node := Node.new Bench.fresh.storage .keep
    let bytes (nonce : Nat) := Bench.written (deposit nonce)
    let batches := [[bytes 0],[bytes 0,bytes 2,bytes 1]]
    let own := (successesOf Bench.trusting node batches).filter (·.2.sender = Bench.alice)
    own.map (·.1) = [bytes 0,bytes 1] ∧ own.map (·.2.nonce) = List.range own.length ∧
      (runBatches Bench.trusting node batches).engine.state.getNonce Bench.alice = own.length ∧ (own.map (·.1)).Nodup := by
  intro node bytes batches own
  have small : ∀ front ∈ batches.flatten.inits,
      (front.foldl (after Bench.trusting) node).engine.state.getNonce Bench.alice < 2 ^ 64 - 1 := by decide +kernel
  exact ⟨by decide +kernel,no_replay Bench.trusting node (fun _ => rfl) batches Bench.alice fun front part =>
    small front ((List.mem_inits _ _).mpr part)⟩

end Nonces
end Pranklin
