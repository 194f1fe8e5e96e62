import Pranklin.Fronts
import Pranklin.Rounds

namespace Pranklin.PranklinExecutorService
open Storage TransactionIndex TransactionExecutor
variable {hasher : TreeHasher StateKey StateKey.Value B256} {wire : Wire} {service : PranklinExecutorService}
  {requests : List Request} {txHash : B256}

def Accepts (wire : Wire) (txHash : B256) (service : PranklinExecutorService) (request : Request) : Prop :=
  ∃ hex, request = .submitTransaction hex ∧ (submitTransaction wire service hex).1 = .ok (.submitted txHash)

def Carries (wire : Wire) (txHash : B256) (service : PranklinExecutorService) (request : Request) : Prop :=
  ∃ block tx, request = .executeTxs block ∧ (tx,.ok ()) ∈ blockFates wire service block ∧ wire.hash tx = txHash

def Pooled (txHash : B256) (service : PranklinExecutorService) : Prop := (service.mempool.get txHash).isSome

theorem run_concat (requests : List Request) (request : Request) :
    run hasher wire service (requests ++ [request]) = (serve hasher wire (run hasher wire service requests) request).2 :=
  List.foldl_append

section Status

theorem submitTransaction_pooled (hex : String) :
    Pooled txHash (submitTransaction wire service hex).2 ↔
      (submitTransaction wire service hex).1 = .ok (.submitted txHash) ∨ Pooled txHash service := by
  unfold submitTransaction Pooled
  cases Rpc.decodeAndVerifyTx wire.codec hex with
  | error error => simp
  | ok tx =>
  dsimp only
  rw [Mempool.add]
  cases valid : service.mempool.validate wire.hash tx with
  | error error => simp
  | ok _ =>
    have got : Mempool.get {service.mempool with index:=service.mempool.index.insert wire.hash tx} txHash =
        if txHash = wire.hash tx then some tx else service.mempool.get txHash := TransactionIndex.get_insert tx txHash
    dsimp only
    rw [got]
    by_cases same : txHash = wire.hash tx
    · subst same
      simp
    · simp [same,Ne.symm same]

theorem executeTxs_get (block : Block) (tx : Transaction) :
    (executeTxs hasher wire service block).2.mempool.get txHash = some tx ↔
      service.mempool.get txHash = some tx ∧
        ∀ entry ∈ blockFates wire service block, entry.2 = .ok () → wire.hash entry.1 ≠ txHash := by
  unfold executeTxs
  exact executeBatchPooled_get {} service.mempool block.txs txHash tx

theorem executeTxs_pooled (block : Block) :
    Pooled txHash (executeTxs hasher wire service block).2 ↔
      Pooled txHash service ∧ ¬Carries wire txHash service (.executeTxs block) := by
  unfold Pooled Carries
  simp only [Option.isSome_iff_exists,executeTxs_get]
  constructor
  · rintro ⟨tx,found,kept⟩
    refine ⟨⟨tx,found⟩,?_⟩
    rintro ⟨_,own,same,through,hashed⟩
    cases same
    exact kept _ through rfl hashed
  · rintro ⟨⟨tx,found⟩,kept⟩
    refine ⟨tx,found,?_⟩
    rintro ⟨own,outcome⟩ inside through hashed
    cases through
    exact kept ⟨block,own,rfl,inside,hashed⟩

-- A hash is pooled after a request when the request has put it there, or when it was before and
-- the request has not carried it into the state.
theorem serve_pooled (service : PranklinExecutorService) (request : Request) :
    Pooled txHash (serve hasher wire service request).2 ↔
      Accepts wire txHash service request ∨ (Pooled txHash service ∧ ¬Carries wire txHash service request) := by
  by_cases submits : ∃ hex, request = .submitTransaction hex
  · obtain ⟨hex,rfl⟩ := submits
    refine (submitTransaction_pooled hex).trans ?_
    simp [Accepts,Carries]
  by_cases executes : ∃ block, request = .executeTxs block
  · obtain ⟨block,rfl⟩ := executes
    refine (executeTxs_pooled block).trans ?_
    simp [Accepts]
  · unfold Pooled
    rw [serve_mempool (not_exists.mp executes) (not_exists.mp submits)]
    have accepts : ¬Accepts wire txHash service request := fun ⟨hex,same,_⟩ => submits ⟨hex,same⟩
    have carries : ¬Carries wire txHash service request := fun ⟨block,_,same,_⟩ => executes ⟨block,same⟩
    simp [accepts,carries]

-- The status of a hash tells what has become of it: after any requests on an empty pool it is
-- pending exactly when a submission was answered with it and no block since has carried it.
theorem status_pending_iff (hasher : TreeHasher StateKey StateKey.Value B256) (wire : Wire)
    (service : PranklinExecutorService) (empty : service.mempool.index = .new) (requests : List Request) (txHash : B256) :
    getTransactionStatus (run hasher wire service requests) txHash = .status txHash "pending" none ↔
      ∃ front request back, requests = front ++ request :: back ∧
        Accepts wire txHash (run hasher wire service front) request ∧
        ∀ middle later, middle ++ [later] <+: back →
          ¬Carries wire txHash (run hasher wire service (front ++ request :: middle)) later := by
  have pending : getTransactionStatus (run hasher wire service requests) txHash = .status txHash "pending" none ↔
      Pooled txHash (run hasher wire service requests) := by
    unfold getTransactionStatus Pooled
    split <;> simp_all
  have absent : ¬Pooled txHash service := by
    unfold Pooled Mempool.get
    rw [empty]
    exact Bool.false_ne_true
  rw [pending]
  refine (Fronts.since_iff serve_pooled service requests).trans ?_
  simp only [absent,false_and,or_false]
  unfold Fronts.Lasts run
  simp only [List.foldl_append,List.foldl_cons]

end Status

structure Round where
  order : List Address
  height : Nat

namespace Round

def block (wire : Wire) (service : PranklinExecutorService) (round : Round) : Block :=
  ⟨round.height,Server.fetchTxsAlong wire.encode service.maxBytes service.mempool round.order⟩

def after (hasher : TreeHasher StateKey StateKey.Value B256) (wire : Wire) (service : PranklinExecutorService)
    (round : Round) : PranklinExecutorService := (executeTxs hasher wire service (round.block wire service)).2

end Round

def Idle (wire : Wire) (service : PranklinExecutorService) (round : Round) : Prop :=
  ∀ tx, (tx,.ok ()) ∉ blockFates wire service (round.block wire service)

section Rounds
variable {round : Round} {tx : Transaction}

theorem after_known (known : Known (Submitted wire requests) wire.hash service.mempool.index) :
    Known (Submitted wire requests) wire.hash (round.after hasher wire service).mempool.index := by
  unfold Round.after executeTxs
  exact executeBatchPooled_known {} known _

theorem rounds_known (known : Known (Submitted wire requests) wire.hash service.mempool.index) (rounds : List Round) :
    Known (Submitted wire requests) wire.hash (rounds.foldl (Round.after hasher wire) service).mempool.index := by
  induction rounds generalizing service with
  | nil => exact known
  | cons round rounds ih => exact ih (after_known known)

theorem blockFates_pooled (known : Known (Submitted wire requests) wire.hash service.mempool.index)
    {entry : Transaction × Except TxExecutionError Unit} (inside : entry ∈ blockFates wire service (round.block wire service)) :
    service.mempool.get (wire.hash entry.1) = some entry.1 := by
  obtain ⟨data,proposed,decoded⟩ := mem_fates inside
  obtain ⟨h,own,found,rfl⟩ := mem_fetchTxsAlong proposed
  obtain ⟨⟨hex,_,passed⟩,keyed⟩ := known.stored h own found
  rw [(verified passed).2.1] at decoded
  cases decoded
  rwa [keyed]

theorem after_get (known : Known (Submitted wire requests) wire.hash service.mempool.index) :
    (round.after hasher wire service).mempool.get txHash = some tx ↔
      service.mempool.get txHash = some tx ∧ (tx,.ok ()) ∉ blockFates wire service (round.block wire service) := by
  refine (executeTxs_get _ tx).trans (and_congr_right fun found => ?_)
  constructor
  · exact fun kept inside => kept _ inside rfl (known.stored txHash tx found).2
  · rintro outside ⟨own,outcome⟩ inside through hashed
    cases through
    have pooled := blockFates_pooled known inside
    rw [show wire.hash (own,(.ok () : Except TxExecutionError Unit)).1 = txHash from hashed,found] at pooled
    cases pooled
    exact outside inside

theorem len_lt {pool left : Mempool} (kept : ∀ h tx, left.get h = some tx → pool.get h = some tx)
    (found : pool.get txHash = some tx) (gone : left.get txHash = none) : left.len < pool.len := by
  have inside : txHash ∈ pool.index.txs.keys := AList.lookup_isSome.mp (by rw [show pool.index.txs.lookup txHash = _ from found]; rfl)
  have outside : txHash ∉ left.index.txs.keys := fun listed => by
    have some_ := AList.lookup_isSome.mpr listed
    rw [show left.index.txs.lookup txHash = _ from gone] at some_
    cases some_
  have part : txHash :: left.index.txs.keys ⊆ pool.index.txs.keys := by
    refine List.cons_subset.mpr ⟨inside,fun h listed => ?_⟩
    obtain ⟨own,held⟩ := Option.isSome_iff_exists.mp (AList.lookup_isSome.mpr listed)
    exact AList.lookup_isSome.mp (by rw [show pool.index.txs.lookup h = _ from kept h own held]; rfl)
  have nodup : (txHash :: left.index.txs.keys).Nodup := List.nodup_cons.mpr ⟨outside,AList.keys_nodup _⟩
  have shorter := (List.subperm_of_subset nodup part).length_le
  exact shorter

theorem after_len (known : Known (Submitted wire requests) wire.hash service.mempool.index)
    (busy : ¬Idle wire service round) : (round.after hasher wire service).mempool.len < service.mempool.len := by
  obtain ⟨tx,through⟩ := not_forall_not.mp busy
  refine len_lt (fun h own held => ((after_get known).mp held).1) (blockFates_pooled known through) ?_
  cases left : (round.after hasher wire service).mempool.get (wire.hash tx) with
  | none => rfl
  | some own =>
    obtain ⟨found,outside⟩ := (after_get known).mp left
    have pooled := blockFates_pooled known through
    rw [found] at pooled
    cases pooled
    exact absurd through outside

theorem mem_fates_of_decode {codec : Codec} {node : Node} {txs : List (List UInt8)} {data : List UInt8} (listed : data ∈ txs)
    (decoded : Transaction.decode codec data = .ok tx) : ∃ outcome, (tx,outcome) ∈ fates codec node txs := by
  induction txs generalizing node with
  | nil => cases listed
  | cons first rest ih =>
    rw [fates]
    rcases List.mem_cons.mp listed with rfl | listed
    · rw [decoded]
      exact ⟨_,List.mem_cons_self⟩
    · obtain ⟨outcome,inside⟩ := @ih (after codec node first) listed
      cases Transaction.decode codec first with
      | error error => exact ⟨outcome,inside⟩
      | ok other => exact ⟨outcome,List.mem_cons_of_mem _ inside⟩

-- In an idle round a sender's next transaction is missing from the proposal, or its payload fails.
theorem idle_refused (known : Known (Submitted wire requests) wire.hash service.mempool.index)
    (serial : Serial hasher wire service (round.block wire service)) (idle : Idle wire service round)
    (found : service.mempool.get txHash = some tx)
    (next : tx.nonce = (service.node.engine.state.beginBlock round.height).getNonce tx.sender)
    (proposed : wire.encode tx ∈ (round.block wire service).txs) :
    ∃ outcome, (tx,outcome) ∈ blockFates wire service (round.block wire service) ∧ Refused outcome := by
  obtain ⟨⟨hex,_,passed⟩,_⟩ := known.stored txHash tx found
  obtain ⟨outcome,inside⟩ : ∃ outcome, (tx,outcome) ∈ blockFates wire service (round.block wire service) :=
    mem_fates_of_decode proposed (verified passed).2.1
  obtain ⟨stale,done,held,sorted⟩ := serial.sorted tx.sender
  have listed : (tx,outcome) ∈ stale ++ done ++ held := sorted.whole ▸ List.mem_filter.mpr ⟨inside,by simp⟩
  have noDone : done = [] := by
    refine List.eq_nil_iff_forall_not_mem.mpr fun entry through => ?_
    obtain ⟨own,result⟩ := entry
    have passed : result = .ok () := sorted.through _ through
    have member : (own,result) ∈ stale ++ done ++ held := by simp [through]
    rw [← sorted.whole,passed] at member
    exact idle own (List.mem_filter.mp member).1
  subst noDone
  rw [List.append_nil] at listed
  rcases List.mem_append.mp listed with old | waiting
  · exact absurd next (sorted.old _ old).1.ne
  · rcases sorted.stopped _ waiting with ⟨_,refused⟩ | ⟨above,_⟩
    · exact ⟨outcome,inside,refused⟩
    · exact absurd next above.ne'

theorem rounds_get (known : Known (Submitted wire requests) wire.hash service.mempool.index) (rounds : List Round)
    (found : service.mempool.get txHash = some tx) :
    (rounds.foldl (Round.after hasher wire) service).mempool.get txHash = some tx ∨
      ∃ front round back, rounds = front ++ round :: back ∧
        let before := front.foldl (Round.after hasher wire) service
        (tx,.ok ()) ∈ blockFates wire before (round.block wire before) := by
  induction rounds generalizing service with
  | nil => exact .inl found
  | cons round rounds ih =>
    by_cases through : (tx,.ok ()) ∈ blockFates wire service (round.block wire service)
    · exact .inr ⟨[],round,rounds,rfl,through⟩
    · rcases ih (after_known known) ((after_get known).mpr ⟨found,through⟩) with stays | ⟨front,later,back,rfl,through⟩
      · exact .inl stays
      · exact .inr ⟨round :: front,later,back,rfl,through⟩

-- Rounds come to rest. After any requests on an empty pool, however the maps of senders are walked
-- and whatever the heights: what leaves the pool has gone through in some round, and of more rounds
-- than there are pooled transactions one is idle. In that round the next transaction of each sender
-- finds no room in the proposal, or its payload fails.
theorem rounds_rest (hasher : TreeHasher StateKey StateKey.Value B256) (wire : Wire)
    (service : PranklinExecutorService) (empty : service.mempool.index = .new) (requests : List Request)
    (apart : ∀ one other, Submitted wire requests one → Submitted wire requests other → wire.hash one = wire.hash other →
      one = other)
    (rounds : List Round)
    (walked : ∀ front round, front ++ [round] <+: rounds → round.order.Perm
      (front.foldl (Round.after hasher wire) (run hasher wire service requests)).mempool.index.getAllSenders)
    (long : (run hasher wire service requests).mempool.len < rounds.length) :
    let last := run hasher wire service requests
    (∀ h tx, last.mempool.get h = some tx → (rounds.foldl (Round.after hasher wire) last).mempool.get h = some tx ∨
      ∃ front round back, rounds = front ++ round :: back ∧
        let before := front.foldl (Round.after hasher wire) last
        (tx,.ok ()) ∈ blockFates wire before (round.block wire before)) ∧
    ∃ front round back, rounds = front ++ round :: back ∧
      let before := front.foldl (Round.after hasher wire) last
      Idle wire before round ∧ ∀ h tx, before.mempool.get h = some tx →
        tx.nonce = (before.node.engine.state.beginBlock round.height).getNonce tx.sender →
        wire.encode tx ∈ (round.block wire before).txs →
        ∃ outcome, (tx,outcome) ∈ blockFates wire before (round.block wire before) ∧ Refused outcome := by
  intro last
  have known : Known (Submitted wire requests) wire.hash last.mempool.index :=
    run_known (empty ▸ known_new) (List.Subset.refl _)
  refine ⟨fun h tx found => rounds_get known rounds found,?_⟩
  obtain ⟨front,round,back,split,idle⟩ := Fronts.exists_idle (fun service => service.mempool.len) last rounds
    (fun front round _ busy => after_len (rounds_known known front) busy) long
  refine ⟨front,round,back,split,idle,fun h tx found next proposed => ?_⟩
  have part : front ++ [round] <+: rounds := ⟨back,by rw [split,List.append_assoc]; rfl⟩
  have serial : Serial hasher wire _ (round.block wire (front.foldl (Round.after hasher wire) last)) :=
    serial_of_known (rounds_known known front) apart (walked front round part) round.height
  exact idle_refused (rounds_known known front) serial idle found next proposed

end Rounds

end Pranklin.PranklinExecutorService
