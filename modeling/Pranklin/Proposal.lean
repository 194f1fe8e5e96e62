import Pranklin.Grouping
import Pranklin.PoolNonces

namespace Pranklin
open TransactionIndex Grouping

def Mempool.readyTxsAlong (pool : Mempool) (order : List Address) (limit : Nat) : List Transaction :=
  (order.flatMap pool.index.getBySender).take limit

namespace Server

def fetchTxsAlong (encode : Transaction → List UInt8) (maxBytes : Nat) (pool : Mempool) (order : List Address) :
    List (List UInt8) :=
  takeFitting maxBytes 0 ((pool.readyTxsAlong order maxTxsPerBlock).map encode)

theorem fetchTxsAlong_listed (encode : Transaction → List UInt8) (maxBytes : Nat) (pool : Mempool) :
    fetchTxsAlong encode maxBytes pool pool.index.getAllSenders = fetchTxsFromMempool encode maxBytes pool := rfl

def bytes (encoded : List (List UInt8)) : Nat := (encoded.map List.length).sum

@[simp] theorem bytes_nil : bytes [] = 0 := rfl

@[simp] theorem bytes_cons (first : List UInt8) (rest : List (List UInt8)) :
    bytes (first :: rest) = first.length + bytes rest := rfl

theorem takeFitting_front (maxBytes total : Nat) (encoded : List (List UInt8)) :
    takeFitting maxBytes total encoded <+: encoded := by
  induction encoded generalizing total with
  | nil => exact List.prefix_rfl
  | cons first rest ih =>
    rw [takeFitting]
    split
    · exact List.nil_prefix
    · exact List.cons_prefix_cons.mpr ⟨rfl,ih _⟩

theorem takeFitting_bytes {maxBytes total : Nat} (within : total ≤ maxBytes) (encoded : List (List UInt8)) :
    total + bytes (takeFitting maxBytes total encoded) ≤ maxBytes := by
  induction encoded generalizing total with
  | nil => simpa [takeFitting] using within
  | cons first rest ih =>
    rw [takeFitting]
    split
    · simpa using within
    · rename_i fits
      have later := ih (Nat.le_of_not_lt fits)
      rw [bytes_cons]
      omega

theorem takeFitting_longest {maxBytes total : Nat} {encoded longer : List (List UInt8)} (opens : longer <+: encoded)
    (fits : total + bytes longer ≤ maxBytes) : longer <+: takeFitting maxBytes total encoded := by
  induction encoded generalizing total longer with
  | nil => exact opens
  | cons first rest ih =>
    rcases List.prefix_cons_iff.mp opens with rfl | ⟨more,rfl,shorter⟩
    · exact List.nil_prefix
    · rw [bytes_cons] at fits
      rw [takeFitting,if_neg (by omega)]
      exact List.cons_prefix_cons.mpr ⟨rfl,ih shorter (by omega)⟩

end Server

namespace TransactionIndex
variable {hash : Transaction → B256} {index : TransactionIndex} {S : Transaction → Prop}

-- Every hash the maps know is that of one of these transactions, and stands where that
-- transaction's sender and nonce put it.
structure Known (S : Transaction → Prop) (hash : Transaction → B256) (index : TransactionIndex) : Prop where
  stored : ∀ h tx, index.get h = some tx → S tx ∧ hash tx = h
  slots : ∀ sender nonce h, index.nonceHash sender nonce = some h →
    ∃ tx, S tx ∧ hash tx = h ∧ tx.sender = sender ∧ tx.nonce = nonce

theorem known_new : Known S hash .new := by
  constructor
  · intro h tx found
    cases found
  · intro sender nonce h found
    cases found

theorem Known.insert (known : Known S hash index) {tx : Transaction} (named : S tx) :
    Known S hash (index.insert hash tx) := by
  constructor
  · intro h other found
    rw [get_insert] at found
    split at found
    · rename_i same
      cases found
      exact ⟨named,same.symm⟩
    · exact known.stored h other found
  · intro sender nonce h found
    rw [nonceHash_insert] at found
    split at found
    · rename_i own
      cases found
      exact ⟨tx,named,rfl,own.1.symm,own.2.symm⟩
    · exact known.slots sender nonce h found

theorem Known.remove (known : Known S hash index) (txHash : B256) : Known S hash (index.remove txHash).2 := by
  constructor
  · intro h tx found
    rw [get_remove] at found
    split at found
    · cases found
    · exact known.stored h tx found
  · intro sender nonce h found
    cases present : index.get txHash with
    | none =>
      rw [remove_absent present] at found
      exact known.slots sender nonce h found
    | some tx =>
      rw [nonceHash_remove present] at found
      split at found
      · cases found
      · exact known.slots sender nonce h found

theorem Known.removeUpToNonce (known : Known S hash index) (owner : Address) (upToNonce : Nat) :
    Known S hash (index.removeUpToNonce owner upToNonce).2 := by
  constructor
  · intro h tx found
    exact known.stored h tx ((get_removeUpToNonce owner upToNonce h tx).mp found).1
  · intro sender nonce h found
    rw [nonceHash_removeUpToNonce] at found
    split at found
    · cases found
    · exact known.slots sender nonce h found

theorem Known.slot_own (known : Known S hash index)
    (apart : ∀ one other, S one → S other → hash one = hash other → one = other) {sender : Address} {nonce : Nat} {h : B256} {tx : Transaction}
    (slot : index.nonceHash sender nonce = some h)
    (found : index.get h = some tx) : tx.sender = sender ∧ tx.nonce = nonce := by
  obtain ⟨named,keyed⟩ := known.stored h tx found
  obtain ⟨placed,listed,same,own⟩ := known.slots sender nonce h slot
  rw [apart tx placed named listed (keyed.trans same.symm)]
  exact own

theorem mem_getBySender_iff {sender : Address} {tx : Transaction} :
    tx ∈ index.getBySender sender ↔ ∃ nonce h, index.nonceHash sender nonce = some h ∧ index.get h = some tx := by
  unfold getBySender nonceHash
  cases index.bySender.lookup sender with
  | none => simp
  | some nonces =>
    dsimp only
    rw [List.mem_filterMap]
    constructor
    · intro ⟨nonce,_,named⟩
      obtain ⟨h,slot,found⟩ := Option.bind_eq_some_iff.mp named
      exact ⟨nonce,h,slot,found⟩
    · intro ⟨nonce,h,slot,found⟩
      rw [Option.bind_some] at slot
      refine ⟨nonce,mem_ascendingNonces.mpr ?_,by rw [slot]; exact found⟩
      exact AList.lookup_isSome.mp (by rw [slot]; rfl)

theorem ascendingNonces_pairwise (nonces : AList fun _ : Nat => B256) : (ascendingNonces nonces).Pairwise (· < ·) := by
  have sorted : (ascendingNonces nonces).Pairwise (· ≤ ·) := List.pairwise_insertionSort _ _
  have distinct : (ascendingNonces nonces).Nodup := (List.perm_insertionSort _ _).nodup_iff.mpr nonces.nodupKeys
  exact sorted.imp₂ (fun _ _ le apart => Nat.lt_of_le_of_ne le apart) distinct

theorem Known.getBySender_own (known : Known S hash index)
    (apart : ∀ one other, S one → S other → hash one = hash other → one = other) {sender : Address} :
    ∀ tx ∈ index.getBySender sender, tx.sender = sender := by
  intro tx inside
  obtain ⟨nonce,h,slot,found⟩ := mem_getBySender_iff.mp inside
  exact (known.slot_own apart slot found).1

theorem Known.getBySender_rising (known : Known S hash index)
    (apart : ∀ one other, S one → S other → hash one = hash other → one = other) (sender : Address) :
    (index.getBySender sender).Pairwise fun tx next => tx.nonce < next.nonce := by
  unfold getBySender
  cases listed : index.bySender.lookup sender with
  | none => exact .nil
  | some nonces =>
    have placed : ∀ n tx, ((nonces.lookup n).bind index.get) = some tx → tx.nonce = n := by
      intro n tx named
      obtain ⟨h,held,found⟩ := Option.bind_eq_some_iff.mp named
      have slot : index.nonceHash sender n = some h := by rw [nonceHash,listed]; exact held
      exact (known.slot_own apart slot found).2
    apply List.pairwise_filterMap.mpr
    apply (ascendingNonces_pairwise nonces).imp
    intro n m lower tx named next later
    rw [placed n tx named,placed m next later]
    exact lower

end TransactionIndex

namespace Proposal
open MempoolCall
variable {hash : Transaction → B256} {calls : List MempoolCall}

theorem run_known (hash : Transaction → B256) (config : MempoolConfig) (calls : List MempoolCall) :
    Known (· ∈ calls.flatMap added) hash (run hash (.new config) calls).index := by
  apply @run_keeps_added hash _ fun pool => Known (· ∈ calls.flatMap added) hash pool.index
  · exact fun _ tx named known _ => known.insert named
  · exact fun _ txHash known => known.remove txHash
  · exact fun _ sender upToNonce known => known.removeUpToNonce sender upToNonce
  · exact fun _ _ => known_new
  · exact known_new

theorem senders_grouped (apart : CollisionFree hash calls) (config : MempoolConfig) {order : List Address}
    (walked : order.Perm (run hash (.new config) calls).index.getAllSenders) :
    Grouped (·.sender) (·.nonce) (order.flatMap (run hash (.new config) calls).index.getBySender) := by
  have known := run_known hash config calls
  have distinct := walked.nodup_iff.mpr (AList.keys_nodup _)
  have unlike := fun one other here there => apart one here other there
  exact grouped_flatMap distinct (fun _ _ => known.getBySender_own unlike)
    fun sender _ => known.getBySender_rising unlike sender

-- What a block takes from the pool: the longest front of the ready list within the limits.
structure Proposed (encode : Transaction → List UInt8) (hash : Transaction → B256) (maxBytes : Nat) (pool : Mempool)
    (ready : List Transaction) (txs : List (List UInt8)) (included : List Transaction) : Prop where
  front : included <+: ready
  encoded : txs = included.map encode
  count : txs.length ≤ Server.maxTxsPerBlock
  size : Server.bytes txs ≤ maxBytes
  longest : ∀ longer, longer <+: ready → Server.bytes (longer.map encode) ≤ maxBytes → longer <+: included
  once : included.Nodup
  pooled : ∀ tx ∈ included, pool.get (hash tx) = some tx
  -- A smaller nonce of the sender that leads to a transaction comes along.
  earlier : ∀ tx ∈ included, ∀ nonce < tx.nonce, ∀ h other, pool.index.nonceHash tx.sender nonce = some h →
    pool.get h = some other → other ∈ included

theorem included_of_takeFitting (encode : Transaction → List UInt8) (maxBytes : Nat) (ready : List Transaction) :
    ∃ included, included <+: ready ∧ Server.takeFitting maxBytes 0 (ready.map encode) = included.map encode := by
  have front := Server.takeFitting_front maxBytes 0 (ready.map encode)
  refine ⟨ready.take (Server.takeFitting maxBytes 0 (ready.map encode)).length,List.take_prefix _ _,?_⟩
  rw [List.map_take]
  exact List.prefix_iff_eq_take.mp front

-- Whatever was called on the pool and however its senders are walked, the proposal is the
-- longest front of the ready list that fits, in which every sender's transactions stand
-- together by rising nonce and none is there without the earlier ones.
theorem fetch_well_ordered (encode : Transaction → List UInt8) (hash : Transaction → B256) (maxBytes : Nat)
    (config : MempoolConfig) (calls : List MempoolCall) (apart : CollisionFree hash calls) :
    let pool := run hash (.new config) calls
    ∀ order, order.Perm pool.index.getAllSenders →
      let ready := pool.readyTxsAlong order Server.maxTxsPerBlock
      Grouped (·.sender) (·.nonce) ready ∧
        ∃ included, Proposed encode hash maxBytes pool ready (Server.fetchTxsAlong encode maxBytes pool order) included := by
  intro pool order walked ready
  have known := run_known hash config calls
  have unlike := fun one other here there => apart one here other there
  have grouped := senders_grouped apart config walked
  have short : ready <+: order.flatMap pool.index.getBySender := List.take_prefix _ _
  obtain ⟨included,front,encoded⟩ := included_of_takeFitting encode maxBytes ready
  have opens := front.trans short
  have inIndex : ∀ tx ∈ included, ∃ nonce h, pool.index.nonceHash tx.sender nonce = some h ∧ pool.get h = some tx := by
    intro tx inside
    obtain ⟨sender,_,own⟩ := List.mem_flatMap.mp (opens.subset inside)
    rw [known.getBySender_own unlike tx own]
    exact mem_getBySender_iff.mp own
  refine ⟨grouped.front short,included,front,encoded,?_,?_,?_,(grouped.front opens).nodup,?_,?_⟩
  · calc
      _ = included.length := by rw [Server.fetchTxsAlong,encoded,List.length_map]
      _ ≤ ready.length := front.length_le
      _ ≤ Server.maxTxsPerBlock := List.length_take_le _ _
  · have size := Server.takeFitting_bytes (Nat.zero_le maxBytes) (ready.map encode)
    rwa [Nat.zero_add] at size
  · intro longer part fits
    have fitting := @Server.takeFitting_longest maxBytes 0 _ _ (part.map encode) (by rwa [Nat.zero_add])
    rw [encoded] at fitting
    apply List.prefix_of_prefix_length_le part front
    simpa using fitting.length_le
  · intro tx inside
    obtain ⟨_,h,_,found⟩ := inIndex tx inside
    rwa [(known.stored h tx found).2]
  · intro tx inside nonce lower h other slot found
    obtain ⟨mine,own⟩ := known.slot_own unlike slot found
    obtain ⟨sender,walkedTo,held⟩ := List.mem_flatMap.mp (opens.subset inside)
    have same := known.getBySender_own unlike tx held
    apply grouped.front_closed opens inside _ mine (by rwa [own])
    refine List.mem_flatMap.mpr ⟨sender,walkedTo,mem_getBySender_iff.mpr ⟨nonce,h,?_,found⟩⟩
    rwa [← same]

open MempoolCall.Bench Pranklin.Bench

def waiting : List MempoolCall :=
  [.add (deposit 1 6),.add {deposit 0 7 with sender:=bob},.add (deposit 0 5),.remove 9]

-- A proposal of 250 bytes holds two deposits.
theorem fetch_well_ordered_waiting :
    CollisionFree byAmount waiting ∧
      let pool := run byAmount (.new {}) waiting
      Server.fetchTxsAlong written 250 pool [alice,bob] = [written (deposit 0 5),written (deposit 1 6)] ∧
        ∃ included, Proposed written byAmount 250 pool (pool.readyTxsAlong [alice,bob] Server.maxTxsPerBlock)
          [written (deposit 0 5),written (deposit 1 6)] included := by
  have apart : CollisionFree byAmount waiting := by
    unfold CollisionFree
    decide +kernel
  have fetched : Server.fetchTxsAlong written 250 (run byAmount (.new {}) waiting) [alice,bob] =
      [written (deposit 0 5),written (deposit 1 6)] := by decide +kernel
  have walked : [alice,bob].Perm (run byAmount (.new {}) waiting).index.getAllSenders := by decide +kernel
  have proposed := (fetch_well_ordered written byAmount 250 {} waiting apart _ walked).2
  rw [fetched] at proposed
  exact ⟨apart,fetched,proposed⟩

end Proposal
end Pranklin
