import Mathlib.Algebra.Order.BigOperators.Group.List
import Pranklin.PoolIndex

namespace Pranklin

namespace MempoolCall
open TransactionIndex Mempool
variable {hash : Transaction → B256} {pool : Mempool} {config : MempoolConfig}

def run (hash : Transaction → B256) (pool : Mempool) (calls : List MempoolCall) : Mempool :=
  calls.foldl (after hash) pool

def Vacant (hash : Transaction → B256) (pool : Mempool) : MempoolCall → Prop
  | .add tx => pool.Vacant hash tx
  | .addBatch txs => pool.VacantBatch hash txs
  | _ => True

def Orderly (hash : Transaction → B256) (pool : Mempool) : List MempoolCall → Prop
  | [] => True
  | call :: calls => call.Vacant hash pool ∧ Orderly hash (call.after hash pool) calls

theorem after_sound_iff (sound : Sound hash pool) (call : MempoolCall) :
    Sound hash (call.after hash pool) ↔ call.Vacant hash pool := by
  cases call with
  | add tx => exact sound.add_iff tx
  | addBatch txs => exact sound.addBatch_iff txs
  | remove txHash =>
    exact ⟨fun _ => trivial,fun _ => ⟨sound.coherent.remove sound.keyed txHash,sound.keyed.remove txHash⟩⟩
  | pruneSenderNonces sender upToNonce =>
    exact ⟨fun _ => trivial,fun _ => ⟨sound.coherent.removeUpToNonce sound.keyed sender upToNonce,
      sound.keyed.removeUpToNonce sender upToNonce⟩⟩
  | clear => exact ⟨fun _ => trivial,fun _ => ⟨coherent_new,keyed_new⟩⟩

theorem forall_prefix_cons {P : List MempoolCall → Prop} (call : MempoolCall) (calls : List MempoolCall) :
    (∀ front, front <+: call :: calls → P front) ↔ P [] ∧ ∀ front, front <+: calls → P (call :: front) := by
  constructor
  · intro all
    exact ⟨all [] List.nil_prefix,fun front part => all _ (List.cons_prefix_cons.mpr ⟨rfl,part⟩)⟩
  · intro ⟨bare,rest⟩ front part
    rcases List.prefix_cons_iff.mp part with rfl | ⟨back,rfl,shorter⟩
    · exact bare
    · exact rest back shorter

theorem run_sound_iff (sound : Sound hash pool) (calls : List MempoolCall) :
    (∀ front, front <+: calls → Sound hash (run hash pool front)) ↔ Orderly hash pool calls := by
  induction calls generalizing pool with
  | nil =>
    refine ⟨fun _ => trivial,fun _ front part => ?_⟩
    rw [List.prefix_nil.mp part]
    exact sound
  | cons call calls ih =>
    rw [forall_prefix_cons]
    constructor
    · intro ⟨_,rest⟩
      have next : Sound hash (call.after hash pool) := rest [] List.nil_prefix
      exact ⟨(after_sound_iff sound call).mp next,(ih next).mp rest⟩
    · intro ⟨free,orderly⟩
      exact ⟨sound,(ih ((after_sound_iff sound call).mpr free)).mpr orderly⟩

structure Reached (hash : Transaction → B256) (pool : Mempool) : Prop where
  coherent : pool.index.Coherent hash
  bySender : ∀ h tx, pool.get h = some tx → tx ∈ pool.index.getBySender tx.sender
  ready : ∀ h tx limit, pool.get h = some tx → pool.len ≤ limit → tx ∈ pool.readyTxs limit
  counted : pool.len = (pool.index.getAllSenders.map pool.index.senderTxCount).sum

theorem reached_of_sound (sound : Sound hash pool) : Reached hash pool := by
  have counted := sound.coherent.len_eq sound.keyed
  refine ⟨sound.coherent,fun h tx found => sound.coherent.mem_getBySender sound.keyed found,?_,counted⟩
  intro h tx limit found wide
  -- What the senders have together fits under the limit.
  have short : (pool.index.getAllSenders.flatMap pool.index.getBySender).length ≤ limit := by
    rw [List.length_flatMap]
    refine (List.sum_le_sum fun sender _ => pool.index.length_getBySender_le sender).trans ?_
    exact counted ▸ wide
  unfold readyTxs
  rw [List.take_of_length_le short]
  refine List.mem_flatMap.mpr ⟨tx.sender,sound.coherent.sender_listed found,?_⟩
  exact sound.coherent.mem_getBySender sound.keyed found

def added : MempoolCall → List Transaction
  | .add tx => [tx]
  | .addBatch txs => txs
  | _ => []

-- What a transaction that is let in, a removal, a pruning and clearing preserve, a run does.
theorem run_keeps_added {P : Mempool → Prop} {calls : List MempoolCall}
    (insert : ∀ pool, ∀ tx ∈ calls.flatMap added, P pool → pool.validate hash tx = .ok () →
      P {pool with index:=pool.index.insert hash tx})
    (remove : ∀ pool txHash, P pool → P (pool.remove txHash).2)
    (prune : ∀ pool sender upToNonce, P pool → P (pool.pruneSenderNonces sender upToNonce).2)
    (clear : ∀ pool, P pool → P pool.clear) (start : P pool) : P (run hash pool calls) := by
  have add : ∀ pool, ∀ tx ∈ calls.flatMap added, P pool → P (pool.add hash tx).2 := by
    intro pool tx named held
    rcases add_cases hash pool tx with ⟨valid,next⟩ | ⟨_,same⟩
    · rw [next]
      exact insert pool tx named held valid
    · rwa [same]
  have batch : ∀ txs : List Transaction, txs ⊆ calls.flatMap added → ∀ pool, P pool → P (pool.addBatch hash txs).2 := by
    intro txs
    induction txs with
    | nil => exact fun _ _ held => held
    | cons tx txs ih =>
      intro named pool held
      obtain ⟨first,rest⟩ := List.cons_subset.mp named
      exact ih rest _ (add pool tx first held)
  have step : ∀ pool call, call.added ⊆ calls.flatMap added → P pool → P (after hash pool call) := by
    intro pool call named held
    cases call with
    | add tx => exact add pool tx (named (List.mem_singleton_self tx)) held
    | addBatch txs => exact batch txs named pool held
    | remove txHash => exact remove pool txHash held
    | pruneSenderNonces sender upToNonce => exact prune pool sender upToNonce held
    | clear => exact clear pool held
  have along : ∀ rest, rest ⊆ calls → ∀ pool, P pool → P (run hash pool rest) := by
    intro rest
    induction rest with
    | nil => exact fun _ _ held => held
    | cons call rest ih =>
      intro listed pool held
      obtain ⟨first,later⟩ := List.cons_subset.mp listed
      exact ih later _ (step pool call (fun tx inside => List.mem_flatMap.mpr ⟨call,first,inside⟩) held)
  exact along calls (List.Subset.refl _) pool start

theorem run_keeps {P : Mempool → Prop}
    (insert : ∀ pool tx, P pool → pool.validate hash tx = .ok () → P {pool with index:=pool.index.insert hash tx})
    (remove : ∀ pool txHash, P pool → P (pool.remove txHash).2)
    (prune : ∀ pool sender upToNonce, P pool → P (pool.pruneSenderNonces sender upToNonce).2)
    (clear : ∀ pool, P pool → P pool.clear) (start : P pool) (calls : List MempoolCall) : P (run hash pool calls) :=
  run_keeps_added (fun pool tx _ => insert pool tx) remove prune clear start

theorem run_keyed (keyed : pool.index.Keyed hash) (calls : List MempoolCall) : (run hash pool calls).index.Keyed hash := by
  apply @run_keeps hash pool fun pool => pool.index.Keyed hash
  · exact fun _ tx keyed _ => keyed.insert tx
  · exact fun _ txHash keyed => keyed.remove txHash
  · exact fun _ sender upToNonce keyed => keyed.removeUpToNonce sender upToNonce
  · exact fun _ _ => keyed_new
  · exact keyed

-- The maps of a pool agree after every call exactly when no call lets a transaction in whose
-- sender has its nonce pooled already.
theorem pool_reached_iff (hash : Transaction → B256) (config : MempoolConfig) (calls : List MempoolCall) :
    (∀ front, front <+: calls → Reached hash (run hash (.new config) front)) ↔ Orderly hash (.new config) calls := by
  rw [← run_sound_iff (sound_new config)]
  constructor
  · intro reached front part
    exact ⟨(reached front part).coherent,run_keyed keyed_new front⟩
  · intro sound front part
    exact reached_of_sound (sound front part)

def CollisionFree (hash : Transaction → B256) (calls : List MempoolCall) : Prop :=
  ∀ one ∈ calls.flatMap added,∀ other ∈ calls.flatMap added,hash one = hash other → one = other

namespace Bench

def deposit (nonce amount : Nat) : Transaction := ⟨nonce,Pranklin.Bench.alice,.deposit ⟨amount,0⟩,.rawBorsh 0⟩

def byAmount (tx : Transaction) : B256 :=
  match tx.payload with
  | .deposit deposit => .ofNat 256 deposit.amount
  | _ => 0

end Bench

-- Two deposits with nonce 0: the second takes the slot, and the first stays in the pool
-- where neither its sender's list nor the ready list shows it.
theorem same_nonce_parts_maps :
    ¬∀ (hash : Transaction → B256) (config : MempoolConfig) (calls : List MempoolCall), CollisionFree hash calls →
      ∀ front, front <+: calls → Reached hash (run hash (.new config) front) := by
  intro all
  have apart : CollisionFree Bench.byAmount [.add (Bench.deposit 0 5),.add (Bench.deposit 0 6)] := by
    unfold CollisionFree
    decide +kernel
  have both := all Bench.byAmount {} _ apart _ List.prefix_rfl
  have lost := both.bySender 5 (Bench.deposit 0 5) (by decide +kernel)
  revert lost
  decide +kernel

structure Counted (config : MempoolConfig) (pool : Mempool) : Prop where
  settings : pool.config = config
  size : pool.len ≤ config.maxSize
  senders : ∀ sender, pool.index.senderTxCount sender ≤ config.maxTxsPerSender

theorem run_counted (hash : Transaction → B256) (config : MempoolConfig) (calls : List MempoolCall) :
    Counted config (run hash (.new config) calls) := by
  apply run_keeps
  · intro pool tx held valid
    obtain ⟨room,_,few⟩ := (validate_iff tx).mp valid
    rw [held.settings] at room few
    refine ⟨held.settings,(len_insert_le tx).trans room,fun sender => ?_⟩
    refine (senderTxCount_insert_le tx sender).trans ?_
    have before := held.senders sender
    split
    · rename_i own
      rw [own]
      exact few
    · exact before
  · intro pool txHash held
    exact ⟨held.settings,(len_remove_le txHash).trans held.size,
      fun sender => (senderTxCount_remove_le txHash sender).trans (held.senders sender)⟩
  · intro pool owner upToNonce held
    exact ⟨held.settings,(len_removeUpToNonce_le owner upToNonce).trans held.size,
      fun sender => (senderTxCount_removeUpToNonce_le owner upToNonce sender).trans (held.senders sender)⟩
  · intro pool held
    exact ⟨held.settings,Nat.zero_le _,fun _ => Nat.zero_le _⟩
  · exact ⟨rfl,Nat.zero_le _,fun _ => Nat.zero_le _⟩

-- The size holds in every run; the limit of a sender, which is checked on its nonce map, holds
-- for what is stored while that map misses nothing.
theorem pool_limits (hash : Transaction → B256) (config : MempoolConfig) (calls : List MempoolCall) :
    (∀ front, front <+: calls → (run hash (.new config) front).len ≤ config.maxSize) ∧
      (Orderly hash (.new config) calls → ∀ front, front <+: calls → ∀ sender,
        (run hash (.new config) front).index.storedBy sender ≤ config.maxTxsPerSender) := by
  refine ⟨fun front _ => (run_counted hash config front).size,?_⟩
  intro orderly front part sender
  have sound := (run_sound_iff (sound_new config) calls).mpr orderly front part
  rw [sound.coherent.storedBy_eq sound.keyed]
  exact (run_counted hash config front).senders sender

theorem pool_limits_two_nonces :
    Orderly Bench.byAmount (.new ⟨4,2⟩) [.add (Bench.deposit 0 5),.addBatch [Bench.deposit 1 6,Bench.deposit 0 7]] ∧
      (run Bench.byAmount (.new ⟨4,2⟩) [.add (Bench.deposit 0 5),.addBatch [Bench.deposit 1 6,Bench.deposit 0 7]]).index.storedBy
        Pranklin.Bench.alice ≤ 2 := by
  have orderly : Orderly Bench.byAmount (.new ⟨4,2⟩)
      [.add (Bench.deposit 0 5),.addBatch [Bench.deposit 1 6,Bench.deposit 0 7]] := by
    refine ⟨?_,⟨?_,?_,trivial⟩,trivial⟩
    all_goals
      change _ → _
      decide +kernel
  exact ⟨orderly,(pool_limits Bench.byAmount ⟨4,2⟩ _).2 orderly _ List.prefix_rfl Pranklin.Bench.alice⟩

-- With room for two transactions of a sender, three with one nonce are stored.
theorem same_nonce_passes_limit :
    ¬∀ (hash : Transaction → B256) (config : MempoolConfig) (calls : List MempoolCall), CollisionFree hash calls →
      ∀ front, front <+: calls → ∀ sender,
        (run hash (.new config) front).index.storedBy sender ≤ config.maxTxsPerSender := by
  intro all
  have apart : CollisionFree Bench.byAmount (([5,6,7].map (Bench.deposit 0)).map .add) := by
    unfold CollisionFree
    decide +kernel
  have stored := all Bench.byAmount ⟨10,2⟩ _ apart _ List.prefix_rfl Pranklin.Bench.alice
  revert stored
  decide +kernel

end MempoolCall
end Pranklin
