import Pranklin.Overlay
import Pranklin.Replicas

namespace Pranklin
open Words Effect Storage TransactionExecutor

-- States whose tables agree in every key that a service reads, record by record. The index
-- of positions, the tree and the snapshots may differ.
structure SameTables (s t : StateManager) : Prop where
  version : t.version = s.version
  config : t.storage.pruningConfig = s.storage.pruningConfig
  pending : ∀ key, key.read → t.storage.pendingUpdates.lookup key = s.storage.pendingUpdates.lookup key
  values : ∀ key, key.read → t.storage.db.values key = s.storage.db.values key
  latest : ∀ key, key.read → t.storage.db.latest key = s.storage.db.latest key

namespace SameTables
variable {s t : StateManager}

theorem refl (s : StateManager) : SameTables s s := ⟨rfl,rfl,fun _ _ => rfl,fun _ _ => rfl,fun _ _ => rfl⟩

theorem symm (same : SameTables s t) : SameTables t s where
  version := same.version.symm
  config := same.config.symm
  pending key seen := (same.pending key seen).symm
  values key seen := (same.values key seen).symm
  latest key seen := (same.latest key seen).symm

theorem trans {u : StateManager} (left : SameTables s t) (right : SameTables t u) : SameTables s u where
  version := right.version.trans left.version
  config := right.config.trans left.config
  pending key seen := (right.pending key seen).trans (left.pending key seen)
  values key seen := (right.values key seen).trans (left.values key seen)
  latest key seen := (right.latest key seen).trans (left.latest key seen)

theorem get (same : SameTables s t) (key : StateKey) (seen : key.read) : t.get key = s.get key := by
  unfold StateManager.get RocksDbStorage.get Db.getValueOption
  rw [same.pending key seen,same.values key seen,same.latest key seen,same.version]

theorem set (same : SameTables s t) (key : StateKey) (value : key.Value) : SameTables (s.set key value) (t.set key value) where
  version := same.version
  config := same.config
  pending read seen := by
    by_cases own : read = key
    · subst own; simp [StateManager.set,RocksDbStorage.set]
    · simp [StateManager.set,RocksDbStorage.set,AList.lookup_insert_ne own,same.pending read seen]
  values := same.values
  latest := same.latest

theorem delete (same : SameTables s t) (key : StateKey) : SameTables (s.delete key) (t.delete key) where
  version := same.version
  config := same.config
  pending read seen := by
    by_cases own : read = key
    · subst own; simp [StateManager.delete,RocksDbStorage.delete]
    · simp [StateManager.delete,RocksDbStorage.delete,AList.lookup_erase_ne own,same.pending read seen]
  values := same.values
  latest := same.latest

theorem blind : IndexBlind SameTables where
  symm := symm
  trans := trans
  cached _ _ _ := ⟨rfl,rfl,fun _ _ => rfl,fun _ _ => rfl,fun _ _ => rfl⟩
  stored _ marketId _ :=
    ⟨rfl,rfl,fun _ seen => AList.lookup_insert_ne (ne_positionIndex seen marketId),fun _ _ => rfl,fun _ _ => rfl⟩
  erased _ marketId :=
    ⟨rfl,rfl,fun _ seen => AList.lookup_erase_ne (ne_positionIndex seen marketId),fun _ _ => rfl,fun _ _ => rfl⟩

theorem mirrors : Mirrors SameTables where
  reads same := same.get
  version same := same.version
  set same key value _ := same.set key value
  delete same key _ := same.delete key
  setPosition same _ _ _ := blind.setPosition (same.set _ _)
  deletePosition same _ _ := blind.deletePosition (same.delete _)

theorem beginBlock (same : SameTables s t) (height : Nat) : SameTables (s.beginBlock height) (t.beginBlock height) :=
  ⟨rfl,same.config,same.pending,same.values,same.latest⟩

theorem commit (hasher : TreeHasher StateKey StateKey.Value B256) (same : SameTables s t) :
    SameTables (s.commit hasher).2 (t.commit hasher).2 where
  version := same.version
  config := by
    change (t.storage.commit hasher t.version).2.pruningConfig = (s.storage.commit hasher s.version).2.pruningConfig
    rw [commit_config,commit_config,same.config]
  pending key _ := by
    change (t.storage.commit hasher t.version).2.pendingUpdates.lookup key =
      (s.storage.commit hasher s.version).2.pendingUpdates.lookup key
    rw [commit_pending,commit_pending]
  values key seen := by
    change (t.storage.commit hasher t.version).2.db.values key = (s.storage.commit hasher s.version).2.db.values key
    funext stamp
    rw [commit_values,commit_values,same.config,same.version,same.pending key seen,same.values key seen]
  latest key seen := by
    change (t.storage.commit hasher t.version).2.db.latest key = (s.storage.commit hasher s.version).2.db.latest key
    rw [commit_latest,commit_latest,same.version,same.pending key seen,same.latest key seen]

end SameTables

def Event.isFill : Event → Bool
  | .orderFilled _ _ _ _ _ _ _ _ _ _ => true
  | _ => false

namespace Node

def run (hasher : TreeHasher StateKey StateKey.Value B256) (codec : Codec) (node : Node) (blocks : List Block) : Node :=
  blocks.foldl (fun node block => (node.executeTxs hasher codec block).2) node

def fills (codec : Codec) (node : Node) (block : Block) : List Event :=
  ((node.execute codec block).engine.context.drop node.engine.context.length).filter Event.isFill

def runFills (hasher : TreeHasher StateKey StateKey.Value B256) (codec : Codec) (node : Node) : List Block → List (List Event)
  | [] => []
  | block :: rest => node.fills codec block :: runFills hasher codec (node.executeTxs hasher codec block).2 rest

-- `PranklinExecutorService::new` on a database: the default pruning, an empty book and no agents.
def reopen (db : Db StateKey StateKey.Value B256) (order : HashOrder) : Node := Node.new (.new db {}) order

end Node

-- Two nodes of which one cannot tell from its reports that it is not the other.
structure Indistinct (n m : Node) : Prop where
  depth : ∀ marketId count, m.engine.orderbook.getDepth marketId count = n.engine.orderbook.getDepth marketId count
  balances : ∀ address assetId, m.engine.state.getBalance address assetId = n.engine.state.getBalance address assetId
  positions : ∀ address marketId, m.engine.state.getPosition address marketId = n.engine.state.getPosition address marketId
  orders : ∀ orderId, m.engine.state.getOrder orderId = n.engine.state.getOrder orderId

structure Retells (told retold : List Event) (e f : Engine) : Prop extends Loose SameTables e f where
  news : ∃ events, e.context = told ++ events ∧ f.context = retold ++ events

namespace Restart
variable {n m node : Node} (hasher : TreeHasher StateKey StateKey.Value B256) (codec : Codec)

theorem kin_retells (told retold : List Event) : Kin SameTables (Retells told retold) where
  toObserves := SameTables.mirrors.observes
  state alike := alike.state
  levels alike := alike.levels
  update alike _ _ _ _ state levels := ⟨⟨state,levels⟩,alike.news⟩
  flag alike _ := ⟨⟨alike.state,alike.levels⟩,alike.news⟩
  emit alike event := by
    obtain ⟨events,left,right⟩ := alike.news
    refine ⟨⟨alike.state,alike.levels⟩,events ++ [event],?_,?_⟩
    · dsimp only; rw [left,List.append_assoc]
    · dsimp only; rw [right,List.append_assoc]

theorem nodeKin_engines (W : Engine → Engine → Prop) : NodeKin W fun n m => W n.engine m.engine where
  engine alike := alike
  update _ _ _ engine := engine
  agents alike _ := alike

theorem execute_retells (alike : Loose SameTables n.engine m.engine) (block : Block) :
    Retells n.engine.context m.engine.context (n.execute codec block).engine (m.execute codec block).engine := by
  have begun : Retells n.engine.context m.engine.context {n.engine with state:=n.engine.state.beginBlock block.height}
      {m.engine with state:=m.engine.state.beginBlock block.height} :=
    ⟨⟨alike.state.beginBlock block.height,alike.levels⟩,[],(List.append_nil _).symm,(List.append_nil _).symm⟩
  exact (executeBatch_twin (kin_retells _ _) codec (nodeKin_engines _)
    (n:={n with engine:={n.engine with state:=n.engine.state.beginBlock block.height}})
    (m:={m with engine:={m.engine with state:=m.engine.state.beginBlock block.height}}) begun {} block.txs).2

theorem fills_alike (alike : Loose SameTables n.engine m.engine) (block : Block) : m.fills codec block = n.fills codec block := by
  obtain ⟨events,left,right⟩ := (execute_retells codec alike block).news
  rw [Node.fills,Node.fills,left,right,List.drop_left,List.drop_left]

theorem executeTxs_alike (alike : Loose SameTables n.engine m.engine) (block : Block) :
    Loose SameTables (n.executeTxs hasher codec block).2.engine (m.executeTxs hasher codec block).2.engine := by
  have executed := execute_retells codec alike block
  exact ⟨executed.state.commit hasher,executed.levels⟩

theorem run_alike (alike : Loose SameTables n.engine m.engine) (blocks : List Block) :
    m.runFills hasher codec blocks = n.runFills hasher codec blocks ∧
      Loose SameTables (n.run hasher codec blocks).engine (m.run hasher codec blocks).engine := by
  induction blocks generalizing n m with
  | nil => exact ⟨rfl,alike⟩
  | cons block blocks ih =>
    obtain ⟨fills,final⟩ := ih (executeTxs_alike hasher codec alike block)
    exact ⟨congrArg₂ List.cons (fills_alike codec alike block) fills,final⟩

theorem alike_indistinct (alike : Loose SameTables n.engine m.engine) : Indistinct n m where
  depth marketId count := by
    have bids := (side_equiv alike.levels true marketId).toList_eq
    have asks := (side_equiv alike.levels false marketId).toList_eq
    unfold OrderbookManager.side at bids asks
    unfold OrderbookManager.getDepth
    simp only [if_true] at bids
    simp only [Bool.false_eq_true,if_false] at asks
    rw [bids,asks]
  balances := SameTables.mirrors.observes.getBalance alike.state
  positions := SameTables.mirrors.observes.getPosition alike.state
  orders := SameTables.mirrors.observes.getOrder alike.state

def Pinned (height : Nat) (config : PruningConfig) (s t : StateManager) : Prop :=
  t = s ∧ s.version = height ∧ s.storage.pruningConfig = config

theorem mirrors_pinned (height : Nat) (config : PruningConfig) : Mirrors (Pinned height config) where
  reads := by rintro _ s ⟨rfl,_⟩ key _; rfl
  version := by rintro _ s ⟨rfl,_⟩; rfl
  set := by rintro _ s ⟨rfl,version,same⟩ key value _; exact ⟨rfl,version,same⟩
  delete := by rintro _ s ⟨rfl,version,same⟩ key _; exact ⟨rfl,version,same⟩
  setPosition := by
    rintro _ s ⟨rfl,version,same⟩ address marketId position
    have written := SameTables.blind.position_set s address marketId position
    exact ⟨rfl,written.version.trans version,written.config.trans same⟩
  deletePosition := by
    rintro _ s ⟨rfl,version,same⟩ address marketId
    have deleted := SameTables.blind.position_delete s address marketId
    exact ⟨rfl,deleted.version.trans version,deleted.config.trans same⟩

theorem execute_pinned (node : Node) (block : Block) : (node.execute codec block).engine.state.version = block.height ∧
    (node.execute codec block).engine.state.storage.pruningConfig = node.engine.state.storage.pruningConfig := by
  let begun : Node := {node with engine:={node.engine with state:=node.engine.state.beginBlock block.height}}
  have pinned : Loose (Pinned block.height node.engine.state.storage.pruningConfig) begun.engine begun.engine :=
    ⟨⟨rfl,rfl,rfl⟩,rfl⟩
  have after := (executeBatch_twin (kin_loose (mirrors_pinned _ _).observes) codec (nodeKin_engines _) pinned {} block.txs).2
  exact after.state.2

theorem reopened_tables (node : Node) (service : node.engine.state.storage.pruningConfig = {}) (block : Block)
    (order : HashOrder) :
    let live := (node.executeTxs hasher codec block).2
    SameTables live.engine.state (Node.reopen live.engine.state.storage.db order).engine.state := by
  obtain ⟨version,config⟩ := execute_pinned codec node block
  intro live
  have storage : live.engine.state.storage =
      ((node.execute codec block).engine.state.storage.commit hasher (node.execute codec block).engine.state.version).2 := rfl
  refine ⟨?_,?_,fun key _ => ?_,fun _ _ => rfl,fun _ _ => rfl⟩
  · change live.engine.state.storage.db.currentVersion.getD 0 = (node.execute codec block).engine.state.version
    rw [storage,commit_marker]
    rfl
  · rw [storage,commit_config,config,service]
    rfl
  · rw [storage,commit_pending]
    rfl

theorem config_run (node : Node) (blocks : List Block) :
    (node.run hasher codec blocks).engine.state.storage.pruningConfig = node.engine.state.storage.pruningConfig := by
  induction blocks generalizing node with
  | nil => rfl
  | cons block blocks ih =>
    refine (ih _).trans ?_
    change ((node.execute codec block).engine.state.storage.commit hasher _).2.pruningConfig = _
    rw [commit_config,(execute_pinned codec node block).2]

theorem depthOf_eq_nil {levels : List (Nat × PriceLevel)} (nothing : ∀ count, OrderbookManager.depthOf levels count = []) :
    levels = [] := by
  have all := nothing levels.length
  rw [OrderbookManager.depthOf,List.take_length] at all
  exact List.map_eq_nil_iff.mp all

theorem level_of_getDepth {book : OrderbookManager}
    (nothing : ∀ marketId count, book.getDepth marketId count = ([],[])) (slot : Slot) : book.level slot = none := by
  obtain ⟨marketId,isBuy,price⟩ := slot
  have bids : (book.bids marketId).toList = [] :=
    List.reverse_eq_nil_iff.mp (depthOf_eq_nil fun count => congrArg Prod.fst (nothing marketId count))
  have asks : (book.asks marketId).toList = [] := depthOf_eq_nil fun count => congrArg Prod.snd (nothing marketId count)
  cases found : book.level ⟨marketId,isBuy,price⟩ with
  | none => rfl
  | some level =>
    cases isBuy with
    | true =>
      have inside := Std.TreeMap.mem_toList_iff_getElem?_eq_some.mpr found
      exact absurd (bids ▸ inside) List.not_mem_nil
    | false =>
      have inside := Std.TreeMap.mem_toList_iff_getElem?_eq_some.mpr found
      exact absurd (asks ▸ inside) List.not_mem_nil

-- Whatever was executed, and wherever the node is stopped between two blocks: the node that is
-- started on its database reports and does the same for ever exactly when no order rests in
-- the book that is lost.
theorem restart_unnoticed_iff (node : Node) (service : node.engine.state.storage.pruningConfig = {}) (past : List Block)
    (last : Block) (order : HashOrder) :
    let live := node.run hasher codec (past ++ [last])
    let restarted := Node.reopen live.engine.state.storage.db order
    (∀ future, restarted.runFills hasher codec future = live.runFills hasher codec future ∧
      Indistinct (live.run hasher codec future) (restarted.run hasher codec future)) ↔
    ∀ slot, live.engine.orderbook.level slot = none := by
  intro live restarted
  have stopped : live = ((node.run hasher codec past).executeTxs hasher codec last).2 := by
    simp only [live,Node.run,List.foldl_append,List.foldl_cons,List.foldl_nil]
  have tables : SameTables live.engine.state restarted.engine.state := by
    simp only [restarted]
    rw [stopped]
    exact reopened_tables hasher codec _ ((config_run hasher codec node past).trans service) last order
  have fresh : restarted.engine.orderbook = .new := rfl
  constructor
  · intro unnoticed
    refine level_of_getDepth fun marketId count => ?_
    have depth : restarted.engine.orderbook.getDepth marketId count = live.engine.orderbook.getDepth marketId count :=
      (unnoticed []).2.depth marketId count
    have nothing : (∅ : PriceLevels).toList = [] := rfl
    rw [← depth,fresh]
    simp [OrderbookManager.getDepth,OrderbookManager.new,OrderbookManager.depthOf,nothing]
  · intro empty future
    have levels : restarted.engine.orderbook.level = live.engine.orderbook.level := by
      funext slot
      rw [fresh,OrderbookManager.level_new,empty]
    have alike : Loose SameTables live.engine restarted.engine := ⟨tables,levels⟩
    obtain ⟨fills,final⟩ := run_alike hasher codec alike future
    exact ⟨fills,alike_indistinct final⟩

open Replicas

def bench : Node := Node.new Bench.state.storage .keep

def passing : Transaction := ⟨0,Bench.alice,.placeOrder {Bench.ask with timeInForce:=.ioc},.rawBorsh 0⟩

theorem restart_unnoticed_iff_nothing_rests :
    let live := bench.run flatHasher Bench.trusting [⟨1,[Bench.written passing]⟩]
    (live.engine.state.getOrder 0).isSome ∧ ∀ future,
      (Node.reopen live.engine.state.storage.db .keep).runFills flatHasher Bench.trusting future =
        live.runFills flatHasher Bench.trusting future ∧
      Indistinct (live.run flatHasher Bench.trusting future)
        ((Node.reopen live.engine.state.storage.db .keep).run flatHasher Bench.trusting future) := by
  intro live
  have book : live.engine.orderbook = OrderbookManager.new.setSide true 0 ∅ := by
    dsimp only [live,Node.run,List.foldl_cons,List.foldl_nil]
    rw [Node.executeTxs,Node.execute,TransactionExecutor.executeBatch,Bench.executeBytes_written (by decide +kernel) (by decide +kernel)]
    rfl
  refine ⟨by decide +kernel,
    (restart_unnoticed_iff flatHasher Bench.trusting bench rfl [] ⟨1,[Bench.written passing]⟩ .keep).mpr fun slot => ?_⟩
  change live.engine.orderbook.level slot = none
  rw [book,OrderbookManager.level_setSide]
  split
  · rfl
  · exact OrderbookManager.level_new slot

-- A sell rests; after the restart it is gone from the depth, and the buy that would have
-- taken it finds nobody.
theorem restart_forgets_resting_order :
    let live := bench.run flatHasher Bench.trusting [⟨1,[Bench.written ask]⟩]
    let restarted := Node.reopen live.engine.state.storage.db .keep
    live.engine.orderbook.getDepth 0 10 = ([],[(100,5)]) ∧ restarted.engine.orderbook.getDepth 0 10 = ([],[]) ∧
      (live.runFills flatHasher Bench.trusting [⟨2,[Bench.written bid]⟩]).flatten ≠ [] ∧
      (restarted.runFills flatHasher Bench.trusting [⟨2,[Bench.written bid]⟩]).flatten = [] := by
  intro live restarted
  exact ⟨by decide +kernel,by decide +kernel,by decide +kernel,by decide +kernel⟩

end Restart
end Pranklin
