import Pranklin.Gate
import Pranklin.Service

namespace Pranklin
open Effect TransactionExecutor

namespace TransactionExecutor

def fates (codec : Codec) (node : Node) : List (List UInt8) → List (Transaction × Except TxExecutionError Unit)
  | [] => []
  | data :: rest =>
    match Transaction.decode codec data with
    | .error _ => fates codec (after codec node data) rest
    | .ok tx => (tx,(exec (executeBytes codec data) node).1) :: fates codec (after codec node data) rest

def Refused : Except TxExecutionError Unit → Prop
  | .error (.engine _) | .error (.notImplemented _) => True
  | _ => False

def nonceGate : Gate Transaction (Except TxExecutionError Unit) where
  rank := Transaction.nonce
  limit := 2 ^ 64
  passed := .ok ()
  stale current tx := .error (.invalidNonce current tx.nonce)
  early current tx := .error (.nonceGap current tx.nonce)
  refuses _ := Refused

section Fates
variable {codec : Codec} {node : Node} {tx : Transaction} {data : List UInt8} {account : Address}

theorem payload_refused {e : Engine} (failed : (exec (executeTxPayloadReadonly tx) e).1 = .error error) :
    Refused (.error error) := by
  have called : ∀ m : EngineM Unit, (exec (asTx m) e).1 = .error error → Refused (.error error) := by
    intro m failed
    rw [exec_asTx_result] at failed
    cases ran : (exec m e).1 with
    | error _ =>
      rw [ran] at failed
      cases failed
      trivial
    | ok _ =>
      rw [ran] at failed
      cases failed
  unfold executeTxPayloadReadonly at failed
  cases shape : tx.payload
  all_goals
    rw [shape] at failed
    first
    | exact called _ failed
    | cases failed; trivial

theorem execute_fates (signed : recoverSigner codec tx = .ok tx.sender) :
    let outcome := (exec (execute codec tx) node).1
    let current := node.engine.state.getNonce tx.sender
    (tx.nonce < current ∧ outcome = nonceGate.stale current tx) ∨ (current < tx.nonce ∧ outcome = nonceGate.early current tx) ∨
      (tx.nonce = current ∧ Refused outcome) ∨ (tx.nonce = current ∧ outcome = .ok ()) := by
  intro outcome current
  have checked : exec (execute codec tx) node = exec (do
      verifyNonce tx
      executePayload codec tx
      incrementNonce tx.sender) node := by
    rw [execute,exec_ok_bind (verifyTransaction_exec signed)]
  rcases Nat.lt_trichotomy tx.nonce current with below | same | above
  · refine .inl ⟨below,?_⟩
    have turned : exec (verifyNonce tx) node = (nonceGate.stale current tx,node) := by
      rw [verifyNonce,exec_reads_bind,if_pos below]
      rfl
    rw [show outcome = _ from congrArg Prod.fst checked,exec_error_bind turned]
    rfl
  · rw [show outcome = _ from congrArg Prod.fst (execute_accepted ⟨signed,same⟩)]
    cases ran : exec (executeTxPayloadReadonly tx) node.engine with
    | mk result e =>
      cases result with
      | error error => exact .inr (.inr (.inl ⟨same,payload_refused (congrArg Prod.fst ran)⟩))
      | ok _ => exact .inr (.inr (.inr ⟨same,rfl⟩))
  · refine .inr (.inl ⟨above,?_⟩)
    have turned : exec (verifyNonce tx) node = (nonceGate.early current tx,node) := by
      rw [verifyNonce,exec_reads_bind,if_neg (Nat.not_lt.mpr above.le),if_pos above]
      rfl
    rw [show outcome = _ from congrArg Prod.fst checked,exec_error_bind turned]
    rfl

theorem executeBytes_decoded (decoded : Transaction.decode codec data = .ok tx) :
    exec (executeBytes codec data) node = exec (execute codec tx) node := by
  rw [executeBytes,exec_bind,exec_tries,decoded]

theorem mem_fates {txs : List (List UInt8)} {entry : Transaction × Except TxExecutionError Unit}
    (inside : entry ∈ fates codec node txs) : ∃ data ∈ txs, Transaction.decode codec data = .ok entry.1 := by
  induction txs generalizing node with
  | nil => cases inside
  | cons data txs ih =>
    rw [fates] at inside
    split at inside
    · obtain ⟨other,listed,decoded⟩ := ih inside
      exact ⟨other,List.mem_cons_of_mem _ listed,decoded⟩
    · rename_i tx decoded
      rcases List.mem_cons.mp inside with rfl | inside
      · exact ⟨data,List.mem_cons_self,decoded⟩
      · obtain ⟨other,listed,decoded⟩ := ih inside
        exact ⟨other,List.mem_cons_of_mem _ listed,decoded⟩

-- Along a batch an account's signed transactions go through the gate, whatever else is in the batch.
theorem fates_gated {txs : List (List UInt8)}
    (signed : ∀ data ∈ txs, ∀ tx, Transaction.decode codec data = .ok tx → tx.sender = account →
      recoverSigner codec tx = .ok tx.sender) :
    nonceGate.Run (node.engine.state.getNonce account) ((fates codec node txs).filter (·.1.sender = account))
      ((txs.foldl (after codec) node).engine.state.getNonce account) := by
  induction txs generalizing node with
  | nil => exact .nil
  | cons data txs ih =>
    obtain ⟨first,later⟩ := List.forall_mem_cons.mp signed
    have rest := @ih (after codec node data) later
    have moved := Nonces.after_cases codec node data
    rw [List.foldl_cons,fates]
    cases decoded : Transaction.decode codec data with
    | error error =>
      rcases moved with ⟨_,_,kept⟩ | ⟨_,other,_⟩
      · rwa [kept] at rest
      · rw [decoded] at other
        cases other
    | ok tx =>
    dsimp only
    by_cases own : tx.sender = account
    case neg =>
      rw [List.filter_cons_of_neg (by simpa using own)]
      rcases moved with ⟨_,_,kept⟩ | ⟨other,same,_,_,spent⟩
      · rwa [kept] at rest
      · rw [decoded] at same
        cases same
        rwa [spent,if_neg (Ne.symm own)] at rest
    rw [List.filter_cons_of_pos (by simpa using own)]
    have fate := @execute_fates codec node tx (first tx decoded own)
    rw [executeBytes_decoded decoded] at moved ⊢
    rw [own] at fate
    rcases moved with ⟨error,failed,kept⟩ | ⟨other,same,done,next,spent⟩
    · rw [kept] at rest
      rcases fate with ⟨below,stale⟩ | ⟨above,early⟩ | ⟨same,refused⟩ | ⟨_,done⟩
      · rw [stale]
        exact .stale below rest
      · rw [early]
        exact .early above rest
      · exact .refused same refused rest
      · rw [failed] at done
        cases done
    · rw [decoded] at same
      cases same
      rw [spent,if_pos own.symm,next,own] at rest
      rw [done]
      exact .passed (next.trans (by rw [own])) rest

theorem executeBatchPooled_get {hash : Transaction → B256} (stats : TxExecutionStats) (pool : Mempool)
    (txs : List (List UInt8)) (h : B256) (tx : Transaction) :
    (executeBatchPooled codec hash stats node pool txs).2.2.get h = some tx ↔
      pool.get h = some tx ∧ ∀ entry ∈ fates codec node txs, entry.2 = .ok () → hash entry.1 ≠ h := by
  induction txs generalizing node stats pool with
  | nil => simp [executeBatchPooled,fates]
  | cons data txs ih =>
    rw [executeBatchPooled,executePooled,fates]
    have bytes : after codec node data = (exec (executeBytes codec data) node).2 := rfl
    cases decoded : Transaction.decode codec data with
    | error error =>
      rw [bytes,executeBytes,exec_bind,exec_tries,decoded]
      exact ih _ _
    | ok tx' =>
      rw [executeBytes_decoded decoded,bytes,executeBytes_decoded decoded]
      dsimp only
      cases exec (execute codec tx') node with
      | mk result next =>
        cases result with
        | error error =>
          dsimp only
          rw [ih,List.forall_mem_cons]
          simp
        | ok _ =>
          dsimp only
          rw [ih,List.forall_mem_cons]
          have removed : (pool.remove (hash tx')).2.get h = if h = hash tx' then none else pool.get h :=
            TransactionIndex.get_remove h
          rw [removed]
          by_cases same : h = hash tx' <;> simp [same,eq_comm]

end Fates
end TransactionExecutor

namespace PranklinExecutorService
open Storage TransactionIndex
variable {hasher : TreeHasher StateKey StateKey.Value B256} {wire : Wire} {service : PranklinExecutorService}
  {requests : List Request} {data : List UInt8} {tx : Transaction}

theorem except_bind_ok {ε α β : Type} {x : Except ε α} {f : α → Except ε β} {b : β} (done : x >>= f = .ok b) :
    ∃ a, x = .ok a ∧ f a = .ok b := by
  cases x with
  | error error => cases done
  | ok a => exact ⟨a,rfl,done⟩

theorem mapError_ok {ε δ α : Type} {x : Except ε α} {f : ε → δ} {a : α} (done : x.mapError f = .ok a) : x = .ok a := by
  cases x <;> cases done
  rfl

def Submitted (wire : Wire) (requests : List Request) (tx : Transaction) : Prop :=
  ∃ hex, .submitTransaction hex ∈ requests ∧ Rpc.decodeAndVerifyTx wire.codec hex = .ok tx

theorem verified {hex : String} (passed : Rpc.decodeAndVerifyTx wire.codec hex = .ok tx) :
    wire.hexDecode (Rpc.trimHex hex.toList) = .ok (wire.encode tx) ∧
      Transaction.decode wire.codec.toCodec (wire.encode tx) = .ok tx ∧
      recoverSigner wire.codec.toCodec tx = .ok tx.sender := by
  unfold Rpc.decodeAndVerifyTx Rpc.decodeHexTx at passed
  obtain ⟨bytes,text,passed⟩ := except_bind_ok passed
  obtain ⟨read,decoded,passed⟩ := except_bind_ok passed
  obtain ⟨_,accepted,returned⟩ := except_bind_ok passed
  cases returned
  have text := mapError_ok text
  have decoded := mapError_ok decoded
  have written := (decode_eq_ok.mp decoded).2
  have same : wire.encode tx = bytes := by rw [Wire.encode,written,Option.getD_some]
  refine ⟨same ▸ text,same ▸ decoded,?_⟩
  have accepted := mapError_ok accepted
  unfold AuthService.verifyTransaction at accepted
  rw [recoverSigner]
  split at accepted
  · cases accepted
  · rename_i signer recovered
    split at accepted
    · rename_i own
      rw [recovered,own]
      rfl
    · cases accepted

theorem submit_known (known : Known (Submitted wire requests) wire.hash service.mempool.index) {hex : String}
    (listed : .submitTransaction hex ∈ requests) :
    Known (Submitted wire requests) wire.hash (submitTransaction wire service hex).2.mempool.index := by
  unfold submitTransaction
  cases passed : Rpc.decodeAndVerifyTx wire.codec hex with
  | error error => exact known
  | ok tx =>
    dsimp only
    have named : Submitted wire requests tx := ⟨hex,listed,passed⟩
    rcases Mempool.add_cases wire.hash service.mempool tx with ⟨_,next⟩ | ⟨_,same⟩
    · cases added : service.mempool.add wire.hash tx with
      | mk result pool =>
        rw [added] at next
        cases next
        cases result <;> exact known.insert named
    · cases added : service.mempool.add wire.hash tx with
      | mk result pool =>
        rw [added] at same
        cases same
        cases result <;> exact known

theorem executeBatchPooled_known {S : Transaction → Prop} {hash : Transaction → B256} {codec : Codec} (stats : TxExecutionStats)
    {node : Node} {pool : Mempool} (known : Known S hash pool.index) (txs : List (List UInt8)) :
    Known S hash (executeBatchPooled codec hash stats node pool txs).2.2.index := by
  induction txs generalizing stats node pool with
  | nil => exact known
  | cons data txs ih =>
    rw [executeBatchPooled]
    rcases PoolNonces.executePooled_cases codec hash data node pool with ⟨same,_⟩ | ⟨tx,_,_,left,_⟩
    all_goals
      cases ran : executePooled codec hash data node pool with
      | mk result rest => _
    · rw [ran] at same
      cases result <;> exact ih _ (same ▸ known)
    · rw [ran] at left
      cases result <;> exact ih _ (left ▸ known.remove (hash tx))

theorem run_known {more : List Request} (known : Known (Submitted wire requests) wire.hash service.mempool.index)
    (listed : more ⊆ requests) :
    Known (Submitted wire requests) wire.hash (run hasher wire service more).mempool.index := by
  induction more generalizing service with
  | nil => exact known
  | cons request more ih =>
    obtain ⟨first,later⟩ := List.cons_subset.mp listed
    refine ih ?_ later
    by_cases submits : ∃ hex, request = .submitTransaction hex
    · obtain ⟨hex,rfl⟩ := submits
      exact submit_known known first
    by_cases executes : ∃ block, request = .executeTxs block
    · obtain ⟨block,rfl⟩ := executes
      change Known _ _ (executeTxs hasher wire service block).2.mempool.index
      unfold executeTxs
      exact executeBatchPooled_known {} known block.txs
    · rwa [serve_mempool (not_exists.mp executes) (not_exists.mp submits)]

theorem mem_fetchTxsAlong {encode : Transaction → List UInt8} {maxBytes : Nat} {pool : Mempool} {order : List Address}
    (proposed : data ∈ Server.fetchTxsAlong encode maxBytes pool order) : ∃ h tx, pool.get h = some tx ∧ encode tx = data := by
  obtain ⟨tx,ready,same⟩ := List.mem_map.mp (PoolNonces.takeFitting_subset _ _ _ proposed)
  obtain ⟨_,_,own⟩ := List.mem_flatMap.mp (List.mem_of_mem_take ready)
  obtain ⟨h,found⟩ := PoolNonces.mem_getBySender own
  exact ⟨h,tx,found,same⟩

-- Whatever is called, a proposal holds nothing but byte strings that clients have submitted, each signed by
-- its sender; on whatever node one of them is executed later, only its nonce or its payload can fail.
theorem proposals_submitted (hasher : TreeHasher StateKey StateKey.Value B256) (wire : Wire)
    (service : PranklinExecutorService) (empty : service.mempool.index = .new) (requests : List Request)
    (order : List Address) :
    let last := run hasher wire service requests
    ∀ data ∈ Server.fetchTxsAlong wire.encode last.maxBytes last.mempool order,
      ∃ hex tx, .submitTransaction hex ∈ requests ∧ wire.hexDecode (Rpc.trimHex hex.toList) = .ok data ∧
        Transaction.decode wire.codec.toCodec data = .ok tx ∧ wire.recoverAddress tx = .ok tx.sender ∧
        ∀ node, let outcome := (exec (executeBytes wire.codec.toCodec data) node).1
          let current := node.engine.state.getNonce tx.sender
          (tx.nonce < current ∧ outcome = .error (.invalidNonce current tx.nonce)) ∨
            (current < tx.nonce ∧ outcome = .error (.nonceGap current tx.nonce)) ∨
            (tx.nonce = current ∧ (Refused outcome ∨ outcome = .ok ())) := by
  intro last data proposed
  have known : Known (Submitted wire requests) wire.hash last.mempool.index :=
    run_known (empty ▸ known_new) (List.Subset.refl _)
  obtain ⟨h,tx,found,rfl⟩ := mem_fetchTxsAlong proposed
  obtain ⟨⟨hex,listed,passed⟩,_⟩ := known.stored h tx found
  obtain ⟨text,decoded,signed⟩ := verified passed
  refine ⟨hex,tx,listed,text,decoded,mapError_ok signed,fun node => ?_⟩
  rw [executeBytes_decoded decoded]
  rcases @execute_fates _ node _ signed with stale | early | ⟨same,refused⟩ | ⟨same,done⟩
  · exact .inl stale
  · exact .inr (.inl early)
  · exact .inr (.inr ⟨same,.inl refused⟩)
  · exact .inr (.inr ⟨same,.inr done⟩)

-- The transactions of a proposal are known by their own encodings.
theorem fates_proposed {codec : Codec} {encode : Transaction → List UInt8} {included : List Transaction}
    (read : ∀ tx ∈ included, Transaction.decode codec (encode tx) = .ok tx) (node : Node) :
    (fates codec node (included.map encode)).map (·.1) = included := by
  induction included generalizing node with
  | nil => rfl
  | cons tx rest ih =>
    obtain ⟨first,later⟩ := List.forall_mem_cons.mp read
    rw [List.map_cons,fates,first]
    exact congrArg (tx :: ·) (ih later _)

def blockFates (wire : Wire) (service : PranklinExecutorService) (block : Block) :
    List (Transaction × Except TxExecutionError Unit) :=
  fates wire.codec.toCodec {service.node with
    engine:={service.node.engine with state:=service.node.engine.state.beginBlock block.height}} block.txs

-- Of each sender the spent nonces fail as spent, then a run from the sender's nonce on succeeds, and from the
-- first that is missing or whose payload fails nothing does. What succeeds leaves the pool, and nothing else.
structure Serial (hasher : TreeHasher StateKey StateKey.Value B256) (wire : Wire) (service : PranklinExecutorService)
    (block : Block) : Prop where
  whole : (blockFates wire service block).map (fun entry => wire.encode entry.1) = block.txs
  sorted : ∀ account, ∃ stale done held,
    nonceGate.Sorted ((service.node.engine.state.beginBlock block.height).getNonce account)
      ((blockFates wire service block).filter (·.1.sender = account)) stale done held
      ((service.node.execute wire.codec.toCodec block).engine.state.getNonce account)
  pool : ∀ h tx, (serve hasher wire service (.executeTxs block)).2.mempool.get h = some tx ↔
    service.mempool.get h = some tx ∧ (tx,.ok ()) ∉ blockFates wire service block

theorem serial_of_known (known : Known (Submitted wire requests) wire.hash service.mempool.index)
    (apart : ∀ one other, Submitted wire requests one → Submitted wire requests other → wire.hash one = wire.hash other →
      one = other)
    {order : List Address} (walked : order.Perm service.mempool.index.getAllSenders) (height : Nat) :
    Serial hasher wire service ⟨height,Server.fetchTxsAlong wire.encode service.maxBytes service.mempool order⟩ := by
  have grouped : Grouping.Grouped (·.sender) (·.nonce) (order.flatMap service.mempool.index.getBySender) :=
    Grouping.grouped_flatMap (walked.nodup_iff.mpr (AList.keys_nodup _)) (fun _ _ => known.getBySender_own apart)
      fun sender _ => known.getBySender_rising apart sender
  obtain ⟨included,front,encoded⟩ := Proposal.included_of_takeFitting wire.encode service.maxBytes
    (service.mempool.readyTxsAlong order Server.maxTxsPerBlock)
  have opens := front.trans (List.take_prefix _ _)
  have pooled : ∀ tx ∈ included, Submitted wire requests tx := by
    intro tx inside
    obtain ⟨_,_,own⟩ := List.mem_flatMap.mp (opens.subset inside)
    obtain ⟨h,found⟩ := PoolNonces.mem_getBySender own
    exact (known.stored h tx found).1
  have read : ∀ tx ∈ included, Transaction.decode wire.codec.toCodec (wire.encode tx) = .ok tx ∧
      recoverSigner wire.codec.toCodec tx = .ok tx.sender := by
    intro tx inside
    obtain ⟨hex,_,passed⟩ := pooled tx inside
    exact (verified passed).2
  have txs : Server.fetchTxsAlong wire.encode service.maxBytes service.mempool order = included.map wire.encode := encoded
  rw [txs]
  have listed : (blockFates wire service ⟨height,included.map wire.encode⟩).map (·.1) = included :=
    fates_proposed (fun tx inside => (read tx inside).1) _
  refine ⟨?_,?_,?_⟩
  · rw [← Function.comp_def wire.encode,← List.map_map,listed]
  · intro account
    have gated := @fates_gated wire.codec.toCodec {service.node with engine:={service.node.engine with
        state:=service.node.engine.state.beginBlock height}} account (included.map wire.encode) (by
      intro data inside tx decoded _
      obtain ⟨own,taken,rfl⟩ := List.mem_map.mp inside
      rw [(read own taken).1] at decoded
      cases decoded
      exact (read tx taken).2)
    rw [← Nonces.executeBatch_node {}] at gated
    refine gated.sorted ?_ ?_
    · have rising := (grouped.front opens).rising
      rw [← listed,List.pairwise_map] at rising
      refine (List.pairwise_filter.mpr (rising.imp ?_))
      intro x y ordered mine other
      simp only [decide_eq_true_eq] at mine other
      exact ordered (mine.trans other.symm)
    · intro entry inside
      have member : entry.1 ∈ included := listed ▸ List.mem_map_of_mem (List.mem_filter.mp inside).1
      have fits := (decode_eq_ok.mp (read entry.1 member).1).2
      exact ((encode_isSome_iff entry.1).mp (by rw [fits]; rfl)).nonce
  · intro h tx
    change (executeTxs hasher wire service ⟨height,included.map wire.encode⟩).2.mempool.get h = some tx ↔ _
    unfold executeTxs
    refine (executeBatchPooled_get {} service.mempool _ h tx).trans ?_
    constructor
    · intro ⟨found,others⟩
      exact ⟨found,fun inside => others _ inside rfl (known.stored h tx found).2⟩
    · intro ⟨found,outside⟩
      refine ⟨found,fun entry inside done same => outside ?_⟩
      obtain ⟨own,keyed⟩ := known.stored h tx found
      have member : entry.1 ∈ included := listed ▸ List.mem_map_of_mem inside
      have equal := apart entry.1 tx (pooled _ member) own (same.trans keyed.symm)
      rw [← equal,← done]
      exact inside

theorem proposal_serial (hasher : TreeHasher StateKey StateKey.Value B256) (wire : Wire)
    (service : PranklinExecutorService) (empty : service.mempool.index = .new) (requests : List Request)
    (apart : ∀ one other, Submitted wire requests one → Submitted wire requests other → wire.hash one = wire.hash other →
      one = other)
    (order : List Address) (walked : order.Perm (run hasher wire service requests).mempool.index.getAllSenders)
    (height : Nat) :
    let last := run hasher wire service requests
    Serial hasher wire last ⟨height,Server.fetchTxsAlong wire.encode last.maxBytes last.mempool order⟩ :=
  serial_of_known (run_known (empty ▸ known_new) (List.Subset.refl _)) apart walked height

namespace Bench
open Pranklin.Bench

def hexWire : Wire := {trustingWire with hexDecode:=hexDecode}

def signed : List Transaction := [MempoolCall.Bench.deposit 0 5,
  ⟨1,Pranklin.Bench.alice,.withdraw ⟨9,0,Pranklin.Bench.bob⟩,.rawBorsh 0⟩,MempoolCall.Bench.deposit 2 7]

def submissions : List Request := signed.map fun tx => .submitTransaction (hexText tx)

theorem read_signed : ∀ tx ∈ signed, Rpc.decodeAndVerifyTx hexWire.codec (hexText tx) = .ok tx := by
  have writes : ∀ tx ∈ signed, tx.encode.isSome ∧ (written tx).length ≤ maxTxSize := by decide +kernel
  exact fun tx inside => decodeAndVerifyTx_hexText rfl rfl (writes tx inside).1 (writes tx inside).2

theorem run_submitted {txs : List Transaction} (read : ∀ tx ∈ txs, Rpc.decodeAndVerifyTx hexWire.codec (hexText tx) = .ok tx)
    (service : PranklinExecutorService) :
    run contentsHasher hexWire service (txs.map fun tx => .submitTransaction (hexText tx)) =
      {service with mempool:=(service.mempool.addBatch hexWire.hash txs).2} := by
  induction txs generalizing service with
  | nil => rfl
  | cons tx rest ih =>
    obtain ⟨first,later⟩ := List.forall_mem_cons.mp read
    have served : (serve contentsHasher hexWire service (.submitTransaction (hexText tx))).2 =
        {service with mempool:=(service.mempool.add hexWire.hash tx).2} := by
      change (submitTransaction hexWire service (hexText tx)).2 = _
      rw [submitTransaction,first]
      dsimp only
      cases service.mempool.add hexWire.hash tx with
      | mk result pool => cases result <;> rfl
    refine (ih later _).trans ?_
    dsimp only
    rw [served]
    rfl

theorem run_submissions (service : PranklinExecutorService) :
    run contentsHasher hexWire service submissions =
      {service with mempool:=(service.mempool.addBatch hexWire.hash signed).2} := run_submitted read_signed service

end Bench

theorem submitted_signed {txs : List Transaction}
    (read : ∀ tx ∈ txs, Rpc.decodeAndVerifyTx Bench.hexWire.codec (Pranklin.Bench.hexText tx) = .ok tx) {tx : Transaction}
    (named : Submitted Bench.hexWire (txs.map fun tx => .submitTransaction (Pranklin.Bench.hexText tx)) tx) : tx ∈ txs := by
  obtain ⟨hex,listed,same⟩ := named
  obtain ⟨own,inside,same'⟩ := List.mem_map.mp listed
  cases same'
  rw [read own inside] at same
  cases same
  exact inside

theorem proposals_submitted_three :
    aliceDeposits ∈ Server.fetchTxsAlong Bench.hexWire.encode
        (run contentsHasher Bench.hexWire freshService Bench.submissions).maxBytes
        (run contentsHasher Bench.hexWire freshService Bench.submissions).mempool [Pranklin.Bench.alice] ∧
      ∃ hex tx, .submitTransaction hex ∈ Bench.submissions ∧
        Pranklin.Bench.hexDecode (Rpc.trimHex hex.toList) = .ok aliceDeposits ∧
        Transaction.decode Bench.hexWire.codec.toCodec aliceDeposits = .ok tx := by
  have proposed : aliceDeposits ∈ Server.fetchTxsAlong Bench.hexWire.encode
      (run contentsHasher Bench.hexWire freshService Bench.submissions).maxBytes
      (run contentsHasher Bench.hexWire freshService Bench.submissions).mempool [Pranklin.Bench.alice] := by
    rw [Bench.run_submissions]
    decide +kernel
  obtain ⟨hex,tx,listed,text,decoded,_⟩ := proposals_submitted contentsHasher Bench.hexWire freshService rfl
    Bench.submissions [Pranklin.Bench.alice] aliceDeposits proposed
  exact ⟨proposed,hex,tx,listed,text,decoded⟩

theorem proposal_serial_withdrawal :
    (blockFates Bench.hexWire (run contentsHasher Bench.hexWire freshService Bench.submissions)
        ⟨2,Server.fetchTxsAlong Bench.hexWire.encode (run contentsHasher Bench.hexWire freshService Bench.submissions).maxBytes
          (run contentsHasher Bench.hexWire freshService Bench.submissions).mempool [Pranklin.Bench.alice]⟩).map (·.2) =
        [.ok (),.error (.engine .insufficientBalance),.error (.nonceGap 1 2)] ∧
      Serial contentsHasher Bench.hexWire (run contentsHasher Bench.hexWire freshService Bench.submissions)
        ⟨2,Server.fetchTxsAlong Bench.hexWire.encode (run contentsHasher Bench.hexWire freshService Bench.submissions).maxBytes
          (run contentsHasher Bench.hexWire freshService Bench.submissions).mempool [Pranklin.Bench.alice]⟩ := by
  have apart : ∀ one other, Submitted Bench.hexWire Bench.submissions one → Submitted Bench.hexWire Bench.submissions other →
      Bench.hexWire.hash one = Bench.hexWire.hash other → one = other := by
    have unlike : ∀ one ∈ Bench.signed, ∀ other ∈ Bench.signed, Bench.hexWire.hash one = Bench.hexWire.hash other → one = other := by
      decide +kernel
    exact fun one other here there =>
      unlike one (submitted_signed Bench.read_signed here) other (submitted_signed Bench.read_signed there)
  have walked : [Pranklin.Bench.alice].Perm
      (run contentsHasher Bench.hexWire freshService Bench.submissions).mempool.index.getAllSenders := by
    rw [Bench.run_submissions]
    decide +kernel
  refine ⟨?_,proposal_serial contentsHasher Bench.hexWire freshService rfl Bench.submissions apart
    [Pranklin.Bench.alice] walked 2⟩
  rw [Bench.run_submissions]
  decide +kernel

end PranklinExecutorService
end Pranklin
