import Mathlib.Algebra.BigOperators.Group.List.Basic
import Mathlib.Data.List.Perm.Basic
import Pranklin.Mempool

namespace Pranklin

namespace TransactionIndex
variable {hash : Transaction → B256} {index : TransactionIndex}

def nonceHash (index : TransactionIndex) (sender : Address) (nonce : Nat) : Option B256 :=
  (index.bySender.lookup sender).bind (·.lookup nonce)

theorem get_insert (tx : Transaction) (h : B256) :
    (index.insert hash tx).get h = if h = hash tx then some tx else index.get h := by
  unfold get insert
  split
  · rename_i same
    subst same
    exact AList.lookup_insert _
  · rename_i other
    exact AList.lookup_insert_ne other

theorem nonceHash_insert (tx : Transaction) (s : Address) (n : Nat) :
    (index.insert hash tx).nonceHash s n =
      if s = tx.sender ∧ n = tx.nonce then some (hash tx) else index.nonceHash s n := by
  unfold nonceHash insert
  by_cases own : s = tx.sender
  · subst own
    rw [AList.lookup_insert,Option.bind_some]
    by_cases same : n = tx.nonce
    · subst same
      rw [AList.lookup_insert,if_pos ⟨rfl,rfl⟩]
    · rw [AList.lookup_insert_ne same,if_neg fun both => same both.2]
      cases index.bySender.lookup tx.sender <;> rfl
  · rw [AList.lookup_insert_ne own,if_neg fun both => own both.1]

theorem nonceHash_putNonces (sender : Address) (nonces : AList fun _ : Nat => B256) (s : Address) (n : Nat) :
    (index.putNonces sender nonces).nonceHash s n = if s = sender then nonces.lookup n else index.nonceHash s n := by
  unfold nonceHash putNonces
  dsimp only
  split
  · rename_i bare
    split
    · rename_i own
      have absent : n ∉ nonces := by
        rw [AList.mem_keys,List.isEmpty_iff.mp bare]
        exact List.not_mem_nil
      rw [own,AList.lookup_erase,AList.lookup_eq_none.mpr absent]
      rfl
    · rename_i other
      rw [AList.lookup_erase_ne other]
  · split
    · rename_i own
      rw [own,AList.lookup_insert]
      rfl
    · rename_i other
      rw [AList.lookup_insert_ne other]

structure Coherent (hash : Transaction → B256) (index : TransactionIndex) : Prop where
  indexed : ∀ h tx, index.get h = some tx → index.nonceHash tx.sender tx.nonce = some (hash tx)
  pooled : ∀ sender nonce h, index.nonceHash sender nonce = some h →
    ∃ tx, index.get h = some tx ∧ tx.sender = sender ∧ tx.nonce = nonce
  busy : ∀ sender nonces, index.bySender.lookup sender = some nonces → nonces.keys ≠ []

def Keyed (hash : Transaction → B256) (index : TransactionIndex) : Prop :=
  ∀ h tx, index.get h = some tx → hash tx = h

theorem busy_putNonces (busy : ∀ s n, index.bySender.lookup s = some n → n.keys ≠ []) (sender : Address)
    (nonces : AList fun _ : Nat => B256) :
    ∀ s n, (index.putNonces sender nonces).bySender.lookup s = some n → n.keys ≠ [] := by
  intro s n found
  unfold putNonces at found
  by_cases own : s = sender
  · subst own
    split at found
    · rw [AList.lookup_erase] at found
      cases found
    · rename_i some_left
      rw [AList.lookup_insert] at found
      cases found
      exact fun bare => some_left (List.isEmpty_iff.mpr bare)
  · split at found
    · rw [AList.lookup_erase_ne own] at found
      exact busy s n found
    · rw [AList.lookup_insert_ne own] at found
      exact busy s n found

section Remove
variable {txHash : B256} {tx : Transaction}

theorem remove_absent (absent : index.get txHash = none) : index.remove txHash = (none,index) := by
  unfold get at absent
  rw [remove,absent]

theorem get_remove (h : B256) : (index.remove txHash).2.get h = if h = txHash then none else index.get h := by
  cases found : index.get txHash with
  | none =>
    rw [remove_absent found]
    split
    · rename_i same
      rw [same,found]
    · rfl
  | some tx =>
    have left : (index.remove txHash).2.get h = AList.lookup h (index.txs.erase txHash) := by
      unfold get at found ⊢
      rw [remove,found]
      dsimp only
      cases index.bySender.lookup tx.sender <;> rfl
    rw [left]
    split
    · rename_i same
      rw [same,AList.lookup_erase]
    · rename_i other
      exact AList.lookup_erase_ne other

theorem nonceHash_remove (found : index.get txHash = some tx) (s : Address) (n : Nat) :
    (index.remove txHash).2.nonceHash s n =
      if s = tx.sender ∧ n = tx.nonce then none else index.nonceHash s n := by
  unfold get at found
  rw [remove,found]
  dsimp only
  cases listed : index.bySender.lookup tx.sender with
  | none =>
    change index.nonceHash s n = _
    split
    · rename_i same
      rw [nonceHash,same.1,listed]
      rfl
    · rfl
  | some nonces =>
    rw [nonceHash_putNonces]
    by_cases own : s = tx.sender
    · rw [if_pos own,nonceHash,own,listed,Option.bind_some]
      by_cases same : n = tx.nonce
      · rw [same,AList.lookup_erase,if_pos ⟨rfl,rfl⟩]
      · rw [AList.lookup_erase_ne same,if_neg fun both => same both.2]
    · rw [if_neg own,if_neg fun both => own both.1]
      rfl

theorem busy_remove (busy : ∀ s n, index.bySender.lookup s = some n → n.keys ≠ []) :
    ∀ s n, (index.remove txHash).2.bySender.lookup s = some n → n.keys ≠ [] := by
  unfold remove
  split
  · exact busy
  · split
    · exact busy
    · exact @busy_putNonces {index with txs:=_} busy _ _

end Remove

section Prune

theorem lookup_drain_nonces (nonces : AList fun _ : Nat => B256) (txs : AList fun _ : B256 => Transaction)
    (ns : List Nat) (n : Nat) :
    (drain nonces txs ns).2.1.lookup n = if n ∈ ns then none else nonces.lookup n := by
  induction ns generalizing nonces txs with
  | nil => rfl
  | cons m ns ih =>
    have step : ∀ txs, (drain (nonces.erase m) txs ns).2.1.lookup n = if n ∈ m :: ns then none else nonces.lookup n := by
      intro txs
      rw [ih]
      by_cases same : n = m
      · subst same
        simp
      · simp [same,AList.lookup_erase_ne same]
    rw [drain]
    cases listed : nonces.lookup m with
    | none =>
      dsimp only
      rw [ih]
      by_cases same : n = m
      · subst same
        simp [listed]
      · simp [same]
    | some hash =>
      dsimp only
      split <;> exact step _

theorem lookup_drain_txs (nonces : AList fun _ : Nat => B256) (txs : AList fun _ : B256 => Transaction)
    (ns : List Nat) (h : B256) (tx : Transaction) :
    (drain nonces txs ns).2.2.lookup h = some tx ↔ txs.lookup h = some tx ∧ ∀ n ∈ ns, nonces.lookup n ≠ some h := by
  induction ns generalizing nonces txs with
  | nil => simp [drain]
  | cons m ns ih =>
    rw [drain]
    cases listed : nonces.lookup m with
    | none =>
      dsimp only
      rw [ih]
      simp [listed]
    | some hash =>
      -- Erasing the nonce forbids no more of the rest than the hash that leaves with it.
      have rest : h ≠ hash → ((∀ n ∈ ns, (nonces.erase m).lookup n ≠ some h) ↔ ∀ n ∈ ns, nonces.lookup n ≠ some h) := by
        intro other
        refine forall₂_congr fun n _ => ?_
        by_cases same : n = m
        · subst same
          rw [AList.lookup_erase,listed]
          simpa using Ne.symm other
        · rw [AList.lookup_erase_ne same]
      by_cases other : h = hash
      · subst other
        dsimp only
        split
        · rename_i absent
          rw [ih]
          simp [absent]
        · dsimp only
          rw [ih]
          simp [listed]
      · dsimp only
        split
        · rw [ih,rest other]
          simp [listed,Ne.symm other]
        · dsimp only
          rw [ih,rest other,AList.lookup_erase_ne other]
          simp [listed,Ne.symm other]

theorem mem_ascendingNonces {nonces : AList fun _ : Nat => B256} {n : Nat} : n ∈ ascendingNonces nonces ↔ n ∈ nonces := by
  rw [ascendingNonces,List.mem_insertionSort,AList.mem_keys]

theorem nonceHash_removeUpToNonce (sender : Address) (nonce : Nat) (s : Address) (n : Nat) :
    (index.removeUpToNonce sender nonce).2.nonceHash s n =
      if s = sender ∧ n ≤ nonce then none else index.nonceHash s n := by
  unfold removeUpToNonce
  cases listed : index.bySender.lookup sender with
  | none =>
    dsimp only
    split
    · rename_i same
      rw [nonceHash,same.1,listed]
      rfl
    · rfl
  | some nonces =>
    dsimp only
    rw [nonceHash_putNonces,lookup_drain_nonces]
    by_cases own : s = sender
    · subst own
      rw [if_pos rfl,nonceHash,listed,Option.bind_some]
      by_cases low : n ≤ nonce
      · split
        · rw [if_pos ⟨rfl,low⟩]
        · rename_i outside
          rw [if_pos ⟨rfl,low⟩]
          refine AList.lookup_eq_none.mpr fun inside => outside ?_
          exact List.mem_filter.mpr ⟨mem_ascendingNonces.mpr inside,by simpa using low⟩
      · rw [if_neg fun inside => low (by simpa using (List.mem_filter.mp inside).2),if_neg fun both => low both.2]
    · rw [if_neg own,if_neg fun both => own both.1]
      rfl

theorem get_removeUpToNonce (sender : Address) (nonce : Nat) (h : B256) (tx : Transaction) :
    (index.removeUpToNonce sender nonce).2.get h = some tx ↔
      index.get h = some tx ∧ ∀ n ≤ nonce, index.nonceHash sender n ≠ some h := by
  unfold removeUpToNonce
  cases listed : index.bySender.lookup sender with
  | none => simp [nonceHash,listed]
  | some nonces =>
    dsimp only
    refine (lookup_drain_txs _ _ _ _ _).trans (and_congr_right fun _ => ?_)
    constructor
    · intro apart n low found
      rw [nonceHash,listed,Option.bind_some] at found
      have inside : n ∈ nonces := AList.lookup_isSome.mp (by rw [found]; rfl)
      exact apart n (List.mem_filter.mpr ⟨mem_ascendingNonces.mpr inside,by simpa using low⟩) found
    · intro apart n inside found
      refine apart n (by simpa using (List.mem_filter.mp inside).2) ?_
      rw [nonceHash,listed,Option.bind_some,found]

theorem busy_removeUpToNonce (busy : ∀ s n, index.bySender.lookup s = some n → n.keys ≠ []) (sender : Address)
    (nonce : Nat) :
    ∀ s n, (index.removeUpToNonce sender nonce).2.bySender.lookup s = some n → n.keys ≠ [] := by
  unfold removeUpToNonce
  split
  · exact busy
  · exact @busy_putNonces {index with txs:=_} busy _ _

end Prune

section Preserved

theorem keyed_new : Keyed hash .new := by
  intro h tx found
  cases found

theorem Keyed.insert (keyed : Keyed hash index) (tx : Transaction) : Keyed hash (index.insert hash tx) := by
  intro h stored found
  rw [get_insert] at found
  split at found
  · rename_i same
    cases found
    exact same.symm
  · exact keyed h stored found

theorem Keyed.remove (keyed : Keyed hash index) (txHash : B256) : Keyed hash (index.remove txHash).2 := by
  intro h stored found
  rw [get_remove] at found
  split at found
  · cases found
  · exact keyed h stored found

theorem Keyed.removeUpToNonce (keyed : Keyed hash index) (sender : Address) (nonce : Nat) :
    Keyed hash (index.removeUpToNonce sender nonce).2 :=
  fun h stored found => keyed h stored ((get_removeUpToNonce sender nonce h stored).mp found).1

theorem coherent_new : Coherent hash .new := by
  refine ⟨?_,?_,?_⟩
  · intro h tx found
    cases found
  · intro sender nonce h found
    cases found
  · intro sender nonces found
    cases found

-- The slot of the new transaction has to be free: this is the only way in which the maps part.
theorem Coherent.insert_iff (coherent : Coherent hash index) (keyed : Keyed hash index) {tx : Transaction}
    (new : index.get (hash tx) = none) :
    Coherent hash (index.insert hash tx) ↔ index.nonceHash tx.sender tx.nonce = none := by
  constructor
  · intro kept
    cases taken : index.nonceHash tx.sender tx.nonce with
    | none => rfl
    | some h =>
      obtain ⟨stored,found,sender,nonce⟩ := coherent.pooled _ _ _ taken
      have other : h ≠ hash tx := fun same => by simp [← same,found] at new
      have still : (index.insert hash tx).get h = some stored := by rw [get_insert,if_neg other,found]
      have slot := kept.indexed h stored still
      rw [nonceHash_insert,if_pos ⟨sender,nonce⟩,keyed h stored found] at slot
      exact absurd (Option.some.inj slot).symm other
  · intro free
    refine ⟨?_,?_,?_⟩
    · intro h stored found
      rw [get_insert] at found
      rw [nonceHash_insert]
      split at found
      · cases found
        rw [if_pos ⟨rfl,rfl⟩]
      · have slot := coherent.indexed h stored found
        rw [if_neg,slot]
        intro same
        rw [same.1,same.2,free] at slot
        cases slot
    · intro sender nonce h found
      rw [nonceHash_insert] at found
      rw [get_insert]
      split at found
      · rename_i same
        cases found
        exact ⟨tx,if_pos rfl,same.1.symm,same.2.symm⟩
      · obtain ⟨stored,held,owner⟩ := coherent.pooled sender nonce h found
        have other : h ≠ hash tx := fun same => by simp [← same,held] at new
        exact ⟨stored,by rw [if_neg other,held],owner⟩
    · intro sender nonces found
      unfold TransactionIndex.insert at found
      by_cases own : sender = tx.sender
      · subst own
        rw [AList.lookup_insert] at found
        cases found
        simp
      · rw [AList.lookup_insert_ne own] at found
        exact coherent.busy sender nonces found

theorem Coherent.remove (coherent : Coherent hash index) (keyed : Keyed hash index) (txHash : B256) :
    Coherent hash (index.remove txHash).2 := by
  cases held : index.get txHash with
  | none => rwa [remove_absent held]
  | some tx =>
    have slot := coherent.indexed txHash tx held
    rw [keyed txHash tx held] at slot
    refine ⟨?_,?_,busy_remove coherent.busy⟩
    · intro h stored found
      rw [get_remove] at found
      split at found
      · cases found
      · rename_i other
        have own := coherent.indexed h stored found
        rw [nonceHash_remove held,if_neg,own]
        -- One slot names one hash.
        intro same
        rw [same.1,same.2,slot,keyed h stored found] at own
        exact other (Option.some.inj own).symm
    · intro sender nonce h found
      rw [nonceHash_remove held] at found
      split at found
      · cases found
      · rename_i apart
        obtain ⟨stored,kept,owner⟩ := coherent.pooled sender nonce h found
        refine ⟨stored,?_,owner⟩
        rw [get_remove,if_neg,kept]
        intro same
        rw [same,held] at kept
        cases kept
        exact apart ⟨owner.1.symm,owner.2.symm⟩

theorem Coherent.removeUpToNonce (coherent : Coherent hash index) (keyed : Keyed hash index) (upTo : Address)
    (limit : Nat) : Coherent hash (index.removeUpToNonce upTo limit).2 := by
  refine ⟨?_,?_,busy_removeUpToNonce coherent.busy upTo limit⟩
  · intro h stored found
    obtain ⟨held,apart⟩ := (get_removeUpToNonce upTo limit h stored).mp found
    have slot := coherent.indexed h stored held
    rw [nonceHash_removeUpToNonce,if_neg,slot]
    intro gone
    rw [gone.1,keyed h stored held] at slot
    exact apart stored.nonce gone.2 slot
  · intro sender nonce h found
    rw [nonceHash_removeUpToNonce] at found
    split at found
    · cases found
    · rename_i spared
      obtain ⟨stored,held,owner⟩ := coherent.pooled sender nonce h found
      refine ⟨stored,(get_removeUpToNonce upTo limit h stored).mpr ⟨held,?_⟩,owner⟩
      intro n low named
      obtain ⟨again,found,own⟩ := coherent.pooled upTo n h named
      rw [held] at found
      cases found
      exact spared ⟨owner.1.symm.trans own.1,by rw [← owner.2,own.2]; exact low⟩

end Preserved

section Counts

def storedBy (index : TransactionIndex) (sender : Address) : Nat :=
  (index.txs.entries.filter (·.2.sender = sender)).length

def pooledSlots (index : TransactionIndex) : List (Address × Nat × B256) :=
  index.txs.entries.map fun entry => (entry.2.sender,entry.2.nonce,entry.1)

def listedSlots (index : TransactionIndex) : List (Address × Nat × B256) :=
  index.bySender.entries.flatMap fun entry => entry.2.entries.map fun slot => (entry.1,slot.1,slot.2)

theorem mem_entries_iff {κ : Type} [DecidableEq κ] {β : Type} {m : AList fun _ : κ => β} {k : κ} {b : β} :
    ⟨k,b⟩ ∈ m.entries ↔ m.lookup k = some b := AList.mem_lookup_iff.symm

theorem nodup_entries {κ β : Type} (m : AList fun _ : κ => β) : m.entries.Nodup :=
  List.Nodup.of_map Sigma.fst m.nodupKeys

theorem mem_listedSlots {slot : Address × Nat × B256} :
    slot ∈ index.listedSlots ↔ index.nonceHash slot.1 slot.2.1 = some slot.2.2 := by
  obtain ⟨sender,nonce,h⟩ := slot
  unfold listedSlots nonceHash
  rw [List.mem_flatMap]
  constructor
  · intro ⟨⟨owner,nonces⟩,listed,inside⟩
    obtain ⟨⟨n,g⟩,held,same⟩ := List.mem_map.mp inside
    cases same
    dsimp only
    rw [mem_entries_iff.mp listed]
    exact mem_entries_iff.mp held
  · intro found
    obtain ⟨nonces,listed,held⟩ := Option.bind_eq_some_iff.mp found
    exact ⟨⟨sender,nonces⟩,mem_entries_iff.mpr listed,List.mem_map.mpr ⟨⟨nonce,h⟩,mem_entries_iff.mpr held,rfl⟩⟩

theorem nodup_pooledSlots (index : TransactionIndex) : index.pooledSlots.Nodup := by
  refine List.Nodup.of_map (fun slot : Address × Nat × B256 => slot.2.2) ?_
  unfold pooledSlots
  rw [List.map_map]
  exact index.txs.nodupKeys

theorem nodup_listedSlots (index : TransactionIndex) : index.listedSlots.Nodup := by
  unfold listedSlots
  refine List.nodup_flatMap.mpr ⟨fun entry _ => ?_,?_⟩
  · refine List.Nodup.of_map (fun slot : Address × Nat × B256 => slot.2.1) ?_
    rw [List.map_map]
    exact entry.2.nodupKeys
  · refine List.Pairwise.imp ?_ (List.pairwise_map.mp index.bySender.nodupKeys)
    intro one other apart slot left right
    obtain ⟨_,_,rfl⟩ := List.mem_map.mp left
    obtain ⟨_,_,same⟩ := List.mem_map.mp right
    exact apart (congrArg Prod.fst same).symm

theorem Coherent.slots_perm (coherent : Coherent hash index) (keyed : Keyed hash index) :
    index.pooledSlots.Perm index.listedSlots := by
  refine (List.perm_ext_iff_of_nodup index.nodup_pooledSlots index.nodup_listedSlots).mpr fun slot => ?_
  rw [mem_listedSlots]
  constructor
  · intro inside
    obtain ⟨⟨h,tx⟩,held,rfl⟩ := List.mem_map.mp inside
    have found : index.get h = some tx := mem_entries_iff.mp held
    have listed := coherent.indexed h tx found
    rwa [keyed h tx found] at listed
  · intro found
    obtain ⟨tx,held,sender,nonce⟩ := coherent.pooled _ _ _ found
    refine List.mem_map.mpr ⟨⟨slot.2.2,tx⟩,mem_entries_iff.mpr held,?_⟩
    rw [sender,nonce]

theorem senderTxCount_of_mem {entry : Sigma fun _ : Address => AList fun _ : Nat => B256}
    (listed : entry ∈ index.bySender.entries) : index.senderTxCount entry.1 = entry.2.entries.length := by
  unfold senderTxCount
  rw [mem_entries_iff.mp listed]
  exact List.length_map _

theorem Coherent.len_eq (coherent : Coherent hash index) (keyed : Keyed hash index) :
    index.len = (index.getAllSenders.map index.senderTxCount).sum := by
  have total := (coherent.slots_perm keyed).length_eq
  unfold pooledSlots listedSlots at total
  rw [List.length_map,List.length_flatMap] at total
  have counts : index.getAllSenders.map index.senderTxCount =
      index.bySender.entries.map fun entry => (entry.2.entries.map fun slot => (entry.1,slot.1,slot.2)).length := by
    unfold getAllSenders AList.keys List.keys
    rw [List.map_map]
    exact List.map_congr_left fun entry listed => by rw [List.length_map]; exact senderTxCount_of_mem listed
  rw [counts,← total]
  exact List.length_map _

theorem listedSlots_of_sender (index : TransactionIndex) (sender : Address) :
    (index.listedSlots.filter (·.1 = sender)).length = index.senderTxCount sender := by
  cases listed : index.bySender.lookup sender with
  | none =>
    have bare : index.listedSlots.filter (·.1 = sender) = [] := by
      refine List.filter_eq_nil_iff.mpr fun slot inside => ?_
      have found := mem_listedSlots.mp inside
      intro own
      rw [of_decide_eq_true own,nonceHash,listed] at found
      cases found
    rw [bare,senderTxCount,listed]
    rfl
  | some nonces =>
    have slots : (index.listedSlots.filter (·.1 = sender)).Perm
        (nonces.entries.map fun slot => (sender,slot.1,slot.2)) := by
      refine (List.perm_ext_iff_of_nodup (index.nodup_listedSlots.filter _) ?_).mpr fun slot => ?_
      · refine (nodup_entries nonces).map fun one other same => ?_
        obtain ⟨n,h⟩ := one
        cases same
        rfl
      · rw [List.mem_filter,mem_listedSlots,List.mem_map]
        constructor
        · intro ⟨found,own⟩
          rw [of_decide_eq_true own,nonceHash,listed] at found
          exact ⟨⟨slot.2.1,slot.2.2⟩,mem_entries_iff.mpr found,by rw [← of_decide_eq_true own]⟩
        · intro ⟨⟨n,h⟩,held,same⟩
          cases same
          refine ⟨?_,by simp⟩
          rw [nonceHash,listed]
          exact mem_entries_iff.mp held
    rw [slots.length_eq,List.length_map,senderTxCount,listed]
    exact (List.length_map _).symm

theorem Coherent.storedBy_eq (coherent : Coherent hash index) (keyed : Keyed hash index) (sender : Address) :
    index.storedBy sender = index.senderTxCount sender := by
  have own := ((coherent.slots_perm keyed).filter (·.1 = sender)).length_eq
  rw [listedSlots_of_sender] at own
  unfold pooledSlots at own
  rw [List.filter_map,List.length_map] at own
  exact own

theorem Coherent.mem_getBySender (coherent : Coherent hash index) (keyed : Keyed hash index) {h : B256}
    {tx : Transaction} (found : index.get h = some tx) : tx ∈ index.getBySender tx.sender := by
  have slot := coherent.indexed h tx found
  rw [keyed h tx found] at slot
  obtain ⟨nonces,listed,held⟩ := Option.bind_eq_some_iff.mp slot
  unfold getBySender
  rw [listed]
  refine List.mem_filterMap.mpr ⟨tx.nonce,?_,by rw [held]; exact found⟩
  exact mem_ascendingNonces.mpr (AList.lookup_isSome.mp (by rw [held]; rfl))

theorem Coherent.sender_listed (coherent : Coherent hash index) {h : B256} {tx : Transaction}
    (found : index.get h = some tx) : tx.sender ∈ index.getAllSenders := by
  obtain ⟨nonces,listed,_⟩ := Option.bind_eq_some_iff.mp (coherent.indexed h tx found)
  exact AList.lookup_isSome.mp (by rw [listed]; rfl)

theorem length_getBySender_le (index : TransactionIndex) (sender : Address) :
    (index.getBySender sender).length ≤ index.senderTxCount sender := by
  unfold getBySender senderTxCount
  cases index.bySender.lookup sender with
  | none => exact Nat.le_refl _
  | some nonces =>
    calc
      _ ≤ (ascendingNonces nonces).length := List.length_filterMap_le _ _
      _ = nonces.keys.length := List.length_insertionSort _ _

end Counts

section Smaller

theorem len_insert_le (tx : Transaction) : (index.insert hash tx).len ≤ index.len + 1 := by
  unfold len insert
  rw [AList.keys_insert,List.length_cons]
  exact Nat.succ_le_succ (List.length_erase_le ..)

theorem len_remove_le (txHash : B256) : (index.remove txHash).2.len ≤ index.len := by
  have fewer : (index.txs.erase txHash).keys.length ≤ index.txs.keys.length := by
    rw [AList.keys_erase]
    exact List.length_erase_le ..
  unfold remove
  split
  · exact Nat.le_refl _
  · split <;> exact fewer

theorem keys_drain_le (nonces : AList fun _ : Nat => B256) (txs : AList fun _ : B256 => Transaction) (ns : List Nat) :
    (drain nonces txs ns).2.1.keys.length ≤ nonces.keys.length ∧
      (drain nonces txs ns).2.2.keys.length ≤ txs.keys.length := by
  induction ns generalizing nonces txs with
  | nil => exact ⟨Nat.le_refl _,Nat.le_refl _⟩
  | cons n ns ih =>
    have fewer : (nonces.erase n).keys.length ≤ nonces.keys.length := by
      rw [AList.keys_erase]
      exact List.length_erase_le ..
    rw [drain]
    split
    · exact ih _ _
    · rename_i h _
      split
      · exact ⟨(ih _ _).1.trans fewer,(ih _ _).2⟩
      · have rest := ih (nonces.erase n) (txs.erase h)
        rw [AList.keys_erase h] at rest
        exact ⟨rest.1.trans fewer,rest.2.trans (List.length_erase_le ..)⟩

theorem len_removeUpToNonce_le (sender : Address) (nonce : Nat) :
    (index.removeUpToNonce sender nonce).2.len ≤ index.len := by
  unfold removeUpToNonce
  split
  · exact Nat.le_refl _
  · exact (keys_drain_le _ _ _).2

theorem senderTxCount_insert_le (tx : Transaction) (s : Address) :
    (index.insert hash tx).senderTxCount s ≤ index.senderTxCount s + if s = tx.sender then 1 else 0 := by
  unfold senderTxCount insert
  by_cases own : s = tx.sender
  · subst own
    rw [AList.lookup_insert,if_pos rfl]
    change (AList.insert tx.nonce (hash tx) _).keys.length ≤ _
    rw [AList.keys_insert,List.length_cons]
    refine Nat.succ_le_succ ((List.length_erase_le ..).trans ?_)
    cases index.bySender.lookup tx.sender <;> exact Nat.le_refl _
  · rw [AList.lookup_insert_ne own]
    exact Nat.le_add_right _ _

theorem senderTxCount_putNonces (sender : Address) (nonces : AList fun _ : Nat => B256) (s : Address) :
    (index.putNonces sender nonces).senderTxCount s =
      if s = sender then nonces.keys.length else index.senderTxCount s := by
  unfold senderTxCount putNonces
  dsimp only
  by_cases own : s = sender
  · subst own
    rw [if_pos rfl]
    split
    · rename_i bare
      rw [AList.lookup_erase,List.isEmpty_iff.mp bare]
      rfl
    · rw [AList.lookup_insert]
      rfl
  · rw [if_neg own]
    split
    · rw [AList.lookup_erase_ne own]
    · rw [AList.lookup_insert_ne own]

theorem senderTxCount_putNonces_le {sender : Address} {nonces rest : AList fun _ : Nat => B256}
    (listed : index.bySender.lookup sender = some nonces) (fewer : rest.keys.length ≤ nonces.keys.length) (s : Address) :
    (index.putNonces sender rest).senderTxCount s ≤ index.senderTxCount s := by
  rw [senderTxCount_putNonces]
  split
  · rename_i own
    rw [own,senderTxCount,listed]
    exact fewer
  · exact Nat.le_refl _

theorem senderTxCount_remove_le (txHash : B256) (s : Address) :
    (index.remove txHash).2.senderTxCount s ≤ index.senderTxCount s := by
  unfold remove
  split
  · exact Nat.le_refl _
  · rename_i tx _
    split
    · exact Nat.le_refl _
    · rename_i nonces listed
      refine @senderTxCount_putNonces_le {index with txs:=_} _ nonces _ listed ?_ s
      rw [AList.keys_erase]
      exact List.length_erase_le ..

theorem senderTxCount_removeUpToNonce_le (sender : Address) (nonce : Nat) (s : Address) :
    (index.removeUpToNonce sender nonce).2.senderTxCount s ≤ index.senderTxCount s := by
  unfold removeUpToNonce
  split
  · exact Nat.le_refl _
  · rename_i nonces listed
    exact @senderTxCount_putNonces_le {index with txs:=_} _ nonces _ listed (keys_drain_le _ _ _).1 s

end Smaller
end TransactionIndex

namespace Mempool
open TransactionIndex
variable {hash : Transaction → B256} {pool : Mempool} {config : MempoolConfig}

theorem validate_iff (tx : Transaction) :
    pool.validate hash tx = .ok () ↔
      pool.len < pool.config.maxSize ∧ pool.get (hash tx) = none ∧
        pool.index.senderTxCount tx.sender < pool.config.maxTxsPerSender := by
  unfold validate validateCapacity validateNotDuplicate validateSenderRateLimit isFull contains
  change _ ↔ pool.index.len < _ ∧ pool.index.txs.lookup (hash tx) = none ∧ _
  by_cases full : pool.config.maxSize ≤ pool.index.len
  · simp [full,bind,Except.bind]
  · by_cases limited : pool.config.maxTxsPerSender ≤ pool.index.senderTxCount tx.sender
    · cases pool.index.txs.lookup (hash tx) <;> simp [full,limited,bind,Except.bind]
    · cases pool.index.txs.lookup (hash tx) <;> simp [full,limited,bind,Except.bind]
      omega

theorem add_cases (hash : Transaction → B256) (pool : Mempool) (tx : Transaction) :
    (pool.validate hash tx = .ok () ∧ (pool.add hash tx).2 = {pool with index:=pool.index.insert hash tx}) ∨
      (pool.validate hash tx ≠ .ok () ∧ (pool.add hash tx).2 = pool) := by
  unfold add
  cases pool.validate hash tx with
  | error error => exact .inr ⟨by simp,rfl⟩
  | ok _ => exact .inl ⟨rfl,rfl⟩

theorem hasNonce_eq_false (sender : Address) (nonce : Nat) :
    pool.index.hasNonce sender nonce = false ↔ pool.index.nonceHash sender nonce = none := by
  unfold hasNonce nonceHash
  rw [Option.isSome_eq_false_iff,Option.isNone_iff_eq_none]

def Vacant (hash : Transaction → B256) (pool : Mempool) (tx : Transaction) : Prop :=
  pool.validate hash tx = .ok () → pool.index.hasNonce tx.sender tx.nonce = false

def VacantBatch (hash : Transaction → B256) (pool : Mempool) : List Transaction → Prop
  | [] => True
  | tx :: txs => Vacant hash pool tx ∧ VacantBatch hash (pool.add hash tx).2 txs

theorem addBatch_cons (tx : Transaction) (txs : List Transaction) :
    (pool.addBatch hash (tx :: txs)).2 = ((pool.add hash tx).2.addBatch hash txs).2 := rfl

structure Sound (hash : Transaction → B256) (pool : Mempool) : Prop where
  coherent : pool.index.Coherent hash
  keyed : pool.index.Keyed hash

theorem Sound.add_iff (sound : Sound hash pool) (tx : Transaction) :
    Sound hash (pool.add hash tx).2 ↔ Vacant hash pool tx := by
  unfold Vacant
  rcases add_cases hash pool tx with ⟨valid,next⟩ | ⟨refused,same⟩
  · have new : pool.index.get (hash tx) = none := ((validate_iff tx).mp valid).2.1
    have slot := sound.coherent.insert_iff sound.keyed new
    rw [next]
    constructor
    · intro kept _
      exact (hasNonce_eq_false _ _).mpr (slot.mp kept.coherent)
    · intro free
      exact ⟨slot.mpr ((hasNonce_eq_false _ _).mp (free valid)),sound.keyed.insert tx⟩
  · rw [same]
    exact ⟨fun _ valid => absurd valid refused,fun _ => sound⟩

-- A transaction that lost its slot stays without it while others come in.
def Torn (hash : Transaction → B256) (pool : Mempool) : Prop :=
  ∃ h tx, pool.get h = some tx ∧ hash tx = h ∧ pool.index.nonceHash tx.sender tx.nonce ≠ some h

theorem Torn.add (torn : Torn hash pool) (tx : Transaction) : Torn hash (pool.add hash tx).2 := by
  rcases add_cases hash pool tx with ⟨valid,next⟩ | ⟨_,same⟩
  · obtain ⟨h,lost,found,keyed,apart⟩ := torn
    have new := ((validate_iff tx).mp valid).2.1
    have other : h ≠ hash tx := fun same => by simp [← same,found] at new
    rw [next]
    refine ⟨h,lost,?_,keyed,?_⟩
    · change (pool.index.insert hash tx).get h = some lost
      rw [get_insert,if_neg other]
      exact found
    · dsimp only
      rw [nonceHash_insert]
      split
      · exact fun equal => other (Option.some.inj equal).symm
      · exact apart
  · rwa [same]

theorem Torn.addBatch (torn : Torn hash pool) (txs : List Transaction) : Torn hash (pool.addBatch hash txs).2 := by
  induction txs generalizing pool with
  | nil => exact torn
  | cons tx txs ih => exact ih (torn.add tx)

theorem Torn.not_sound (torn : Torn hash pool) : ¬Sound hash pool := by
  intro sound
  obtain ⟨h,tx,found,keyed,apart⟩ := torn
  have slot := sound.coherent.indexed h tx found
  rw [keyed] at slot
  exact apart slot

theorem Sound.torn_of_not_vacant (sound : Sound hash pool) {tx : Transaction} (taken : ¬Vacant hash pool tx) :
    Torn hash (pool.add hash tx).2 := by
  have admitted : pool.validate hash tx = .ok () := by
    by_contra refused
    exact taken fun valid => absurd valid refused
  have next : (pool.add hash tx).2 = {pool with index:=pool.index.insert hash tx} := by
    rcases add_cases hash pool tx with ⟨_,next⟩ | ⟨refused,_⟩
    · exact next
    · exact absurd admitted refused
  have new := ((validate_iff tx).mp admitted).2.1
  have occupied : (pool.index.nonceHash tx.sender tx.nonce).isSome := by
    by_contra free
    exact taken fun _ => (hasNonce_eq_false _ _).mpr (by simpa using free)
  obtain ⟨h,slot⟩ := Option.isSome_iff_exists.mp occupied
  obtain ⟨lost,found,sender,nonce⟩ := sound.coherent.pooled _ _ _ slot
  have other : h ≠ hash tx := fun same => by
    change pool.index.get (hash tx) = none at new
    simp [← same,found] at new
  rw [next]
  refine ⟨h,lost,?_,sound.keyed h lost found,?_⟩
  · change (pool.index.insert hash tx).get h = some lost
    rw [get_insert,if_neg other,found]
  · dsimp only
    rw [nonceHash_insert,if_pos ⟨sender,nonce⟩]
    exact fun equal => other (Option.some.inj equal).symm

theorem Sound.addBatch_iff (sound : Sound hash pool) (txs : List Transaction) :
    Sound hash (pool.addBatch hash txs).2 ↔ VacantBatch hash pool txs := by
  induction txs generalizing pool with
  | nil => exact ⟨fun _ => trivial,fun _ => sound⟩
  | cons tx txs ih =>
    rw [addBatch_cons]
    by_cases free : Vacant hash pool tx
    · exact (ih ((sound.add_iff tx).mpr free)).trans ⟨fun rest => ⟨free,rest⟩,fun both => both.2⟩
    · constructor
      · intro kept
        exact absurd kept ((sound.torn_of_not_vacant free).addBatch txs).not_sound
      · intro both
        exact absurd both.1 free

theorem sound_new (config : MempoolConfig) : Sound hash (new config) := ⟨coherent_new,keyed_new⟩

end Mempool
end Pranklin
