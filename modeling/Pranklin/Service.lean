import Pranklin.AgentRpc
import Pranklin.Proposal
import Pranklin.Queries
import Pranklin.Restart
import Pranklin.StateRoot
import Pranklin.TxCodec

namespace Pranklin
open Words Effect Storage TransactionExecutor

-- What the service and the handlers take from libraries; the layout of a transaction is borsh's.
structure Wire where
  message : List UInt8 → String
  recoverAddress : Transaction → Except String Address
  sha256 : List UInt8 → B256
  hexDecode : List Char → Except String (List UInt8)
  display : Address → String
  displayHash : B256 → String
  recoverNomination : AgentNomination → AgentNominationDomain → BitVec 520 → Except String Address

namespace Wire

def codec (wire : Wire) : AgentCodec where
  toCodec := .borsh wire.message wire.recoverAddress
  hexDecode := wire.hexDecode
  display := wire.display
  recoverNomination := wire.recoverNomination

-- The empty list stands for the panic of `expect`; what has been decoded never meets it.
def encode (_ : Wire) (tx : Transaction) : List UInt8 := tx.encode.getD []

def hash (wire : Wire) (tx : Transaction) : B256 := wire.sha256 (wire.encode tx)

end Wire

structure PranklinExecutorService where
  node : Node
  mempool : Mempool
  maxBytes : Nat

inductive ServiceError where
  | invalidArgument (message : String)
  | rpc (error : RpcError)
  | mempoolError (message : String)
  | auth (error : AuthError)
deriving DecidableEq

-- The calls of the sequencer and those of clients. `getTxs` is given the order in which the map
-- of senders is walked; `nominateAgent` is in the auth service, and no handler offers it.
inductive Request where
  | initChain (chainId : String) (initialHeight : Nat)
  | getTxs (order : List Address)
  | executeTxs (block : Block)
  | setFinal (blockHeight : Nat)
  | submitTransaction (tx : String)
  | getTransactionStatus (txHash : B256)
  | query (query : Query)
  | setAgent (tx : String)
  | removeAgent (tx : String)
  | nominateAgent (nomination : AgentNomination) (signature : BitVec 520) (domain : AgentNominationDomain)

inductive Response where
  | initChain (stateRoot : B256) (maxBytes : Nat)
  | getTxs (txs : List (List UInt8))
  | executeTxs (stats : TxExecutionStats) (updatedStateRoot : B256) (maxBytes : Nat)
  | setFinal
  | submitted (txHash : B256)
  | status (txHash : B256) (status : String) (error : Option String)
  | answer (answer : Answer)
  | success
deriving DecidableEq

namespace PranklinExecutorService

def genesisHeight : Nat := 1

def validateInitChain (chainId : String) (initialHeight : Nat) : Except ServiceError Nat :=
  if chainId.isEmpty then .error (.invalidArgument "Chain ID is required")
  else .ok (if initialHeight = 0 then genesisHeight else initialHeight)

def mempoolErrorText (wire : Wire) : MempoolError → String
  | .mempoolFull capacity => "Mempool is full (capacity: " ++ toString capacity ++ ")"
  | .duplicateTransaction txHash => "Duplicate transaction: " ++ wire.displayHash txHash
  | .rateLimitExceeded sender current max =>
    "Rate limit exceeded for sender " ++ wire.display sender ++ ": " ++ toString current ++ "/" ++ toString max ++
      " transactions"

section Calls
variable (hasher : TreeHasher StateKey StateKey.Value B256) (wire : Wire) (service : PranklinExecutorService)

def initChain (chainId : String) (initialHeight : Nat) : Except ServiceError Response × PranklinExecutorService :=
  match validateInitChain chainId initialHeight with
  | .error error => (.error error,service)
  | .ok height =>
    let (root,state) := (service.node.engine.state.beginBlock height).commit hasher
    (.ok (.initChain root service.maxBytes),
      {service with node:={service.node with engine:={service.node.engine with state:=state}}})

def executeTxs (block : Block) : Except ServiceError Response × PranklinExecutorService :=
  let begun := {service.node with
    engine:={service.node.engine with state:=service.node.engine.state.beginBlock block.height}}
  let (stats,node,pool) := executeBatchPooled wire.codec.toCodec wire.hash {} begun service.mempool block.txs
  let (root,state) := node.engine.state.commit hasher
  (.ok (.executeTxs stats root service.maxBytes),
    {service with node:={node with engine:={node.engine with state:=state}},mempool:=pool})

def submitTransaction (tx : String) : Except ServiceError Response × PranklinExecutorService :=
  match Rpc.decodeAndVerifyTx wire.codec tx with
  | .error error => (.error (.rpc error),service)
  | .ok tx =>
    match service.mempool.add wire.hash tx with
    | (.error error,pool) =>
      (.error (.mempoolError ("Failed to add to mempool: " ++ mempoolErrorText wire error)),{service with mempool:=pool})
    | (.ok _,pool) => (.ok (.submitted (wire.hash tx)),{service with mempool:=pool})

def getTransactionStatus (txHash : B256) : Response :=
  if (service.mempool.get txHash).isSome then .status txHash "pending" none
  else .status txHash "not_found" (some "Transaction not found")

def onAgents (call : Eff AgentRegistry ε Unit) (refusal : ε → ServiceError) :
    Except ServiceError Response × PranklinExecutorService :=
  match exec call service.node.auth with
  | (.ok _,agents) => (.ok .success,{service with node:={service.node with auth:=agents}})
  | (.error error,agents) => (.error (refusal error),{service with node:={service.node with auth:=agents}})

-- Finality is not acted on.
def serve : Request → Except ServiceError Response × PranklinExecutorService
  | .initChain chainId initialHeight => initChain hasher service chainId initialHeight
  | .getTxs order => (.ok (.getTxs (Server.fetchTxsAlong wire.encode service.maxBytes service.mempool order)),service)
  | .executeTxs block => executeTxs hasher wire service block
  | .setFinal _ => (.ok .setFinal,service)
  | .submitTransaction tx => submitTransaction wire service tx
  | .getTransactionStatus txHash => (.ok (getTransactionStatus service txHash),service)
  | .query query => (.ok (.answer (query.answer service.node.engine.state)),service)
  | .setAgent tx => onAgents service (Rpc.setAgent wire.codec tx) .rpc
  | .removeAgent tx => onAgents service (Rpc.removeAgent wire.codec tx) .rpc
  | .nominateAgent nomination signature domain =>
    onAgents service (AuthService.nominateAgent wire.codec nomination signature domain) .auth

def run (requests : List Request) : PranklinExecutorService :=
  requests.foldl (fun service request => (serve hasher wire service request).2) service

end Calls

def executed (hasher : TreeHasher StateKey StateKey.Value B256) (wire : Wire) (service : PranklinExecutorService) :
    List Request → List (TxExecutionStats × B256)
  | [] => []
  | request :: rest =>
    match serve hasher wire service request with
    | (.ok (.executeTxs stats root _),next) => (stats,root) :: executed hasher wire next rest
    | (_,next) => executed hasher wire next rest

end PranklinExecutorService

def Request.blocks : List Request → List Block
  | [] => []
  | .executeTxs block :: rest => block :: blocks rest
  | _ :: rest => blocks rest

def Node.executed (hasher : TreeHasher StateKey StateKey.Value B256) (codec : Codec) (node : Node) :
    List Block → List (TxExecutionStats × B256)
  | [] => []
  | block :: rest =>
    let begun := {node with engine:={node.engine with state:=node.engine.state.beginBlock block.height}}
    ((executeBatch codec {} begun block.txs).1,(node.executeTxs hasher codec block).1) ::
      Node.executed hasher codec (node.executeTxs hasher codec block).2 rest

structure Shades (s t : StateManager) : Prop where
  pending : t.storage.pendingUpdates = s.storage.pendingUpdates
  nodes : t.storage.db.nodes = s.storage.db.nodes
  values : t.storage.db.values = s.storage.db.values
  latest : t.storage.db.latest = s.storage.db.latest
  config : t.storage.pruningConfig = s.storage.pruningConfig
  index : t.positionIndex = s.positionIndex
  hashOrder : t.hashOrder = s.hashOrder
  moment : t.moment = s.moment

structure Shadows (s t : StateManager) : Prop extends Shades s t where
  version : t.version = s.version

namespace Shades
variable {s t : StateManager}

theorem refl (s : StateManager) : Shades s s := ⟨rfl,rfl,rfl,rfl,rfl,rfl,rfl,rfl⟩

theorem beginBlock (shades : Shades s t) (height : Nat) : Shadows (s.beginBlock height) (t.beginBlock height) where
  pending := shades.pending
  nodes := shades.nodes
  values := shades.values
  latest := shades.latest
  config := shades.config
  index := shades.index
  hashOrder := shades.hashOrder
  moment := shades.moment
  version := rfl

end Shades

namespace Shadows
variable {s t : StateManager}

theorem get (shadows : Shadows s t) (key : StateKey) : t.get key = s.get key := by
  unfold StateManager.get RocksDbStorage.get Db.getValueOption
  rw [shadows.pending,shadows.values,shadows.latest,shadows.version]

theorem set (shadows : Shadows s t) (key : StateKey) (value : key.Value) : Shadows (s.set key value) (t.set key value) where
  pending := congrArg (AList.insert key value) shadows.pending
  nodes := shadows.nodes
  values := shadows.values
  latest := shadows.latest
  config := shadows.config
  index := shadows.index
  hashOrder := shadows.hashOrder
  moment := shadows.moment
  version := shadows.version

theorem delete (shadows : Shadows s t) (key : StateKey) : Shadows (s.delete key) (t.delete key) where
  pending := congrArg (AList.erase key) shadows.pending
  nodes := shadows.nodes
  values := shadows.values
  latest := shadows.latest
  config := shadows.config
  index := shadows.index
  hashOrder := shadows.hashOrder
  moment := shadows.moment
  version := shadows.version

theorem updatePositionIndex (shadows : Shadows s t) (marketId : Nat) :
    Shadows (s.updatePositionIndex marketId) (t.updatePositionIndex marketId) := by
  unfold StateManager.updatePositionIndex
  rw [shadows.index]
  cases s.positionIndex marketId with
  | some index => exact shadows.set _ _
  | none => exact shadows.delete _

theorem setPosition (shadows : Shadows s t) (address : Address) (marketId : Nat) (position : Position) :
    Shadows (s.setPosition address marketId position) (t.setPosition address marketId position) := by
  have written := shadows.set (.position address marketId) position
  refine updatePositionIndex ?_ marketId
  unfold StateManager.insertIntoPositionIndex
  dsimp only
  rw [written.index,written.hashOrder,written.moment]
  exact ⟨⟨written.pending,written.nodes,written.values,written.latest,written.config,rfl,rfl,rfl⟩,written.version⟩

theorem deletePosition (shadows : Shadows s t) (address : Address) (marketId : Nat) :
    Shadows (s.deletePosition address marketId) (t.deletePosition address marketId) := by
  have gone := shadows.delete (.position address marketId)
  refine updatePositionIndex ?_ marketId
  unfold StateManager.removeFromPositionIndex
  rw [gone.index]
  split
  · exact gone
  · exact ⟨⟨gone.pending,gone.nodes,gone.values,gone.latest,gone.config,rfl,gone.hashOrder,gone.moment⟩,gone.version⟩

theorem mirrors : Mirrors Shadows where
  reads shadows key _ := shadows.get key
  version shadows := shadows.version
  set shadows key value _ := shadows.set key value
  delete shadows key _ := shadows.delete key
  setPosition shadows := shadows.setPosition
  deletePosition shadows := shadows.deletePosition

theorem commit (hasher : TreeHasher StateKey StateKey.Value B256) (shadows : Shadows s t) :
    (t.commit hasher).1 = (s.commit hasher).1 ∧ Shadows (s.commit hasher).2 (t.commit hasher).2 := by
  have nodes : (t.storage.writePending t.version).db.nodes = (s.storage.writePending s.version).db.nodes := by
    rw [(writePending_db t.storage t.version).2.2.1,(writePending_db s.storage s.version).2.2.1]
    have values : t.storage.db.putValueSet t.storage.pendingUpdates t.version =
        s.storage.db.putValueSet s.storage.pendingUpdates s.version := by
      funext key
      rw [Db.putValueSet,Db.putValueSet,shadows.pending,shadows.version]
      have previous : t.storage.db.previousTree s.version = s.storage.db.previousTree s.version := by
        cases s.version with
        | zero => rfl
        | succ below => rw [Db.previousTree,Db.previousTree,shadows.nodes]
      rw [previous]
    rw [values,shadows.pending,shadows.nodes,shadows.version]
  refine ⟨?_,⟨?_,?_,?_,?_,?_,shadows.index,shadows.hashOrder,shadows.moment⟩,shadows.version⟩
  · change (t.storage.commit hasher t.version).1 = (s.storage.commit hasher s.version).1
    rw [commit_root,commit_root,Db.calculateStateRoot,Db.calculateStateRoot,nodes,shadows.version]
  · change (t.storage.commit hasher t.version).2.pendingUpdates = (s.storage.commit hasher s.version).2.pendingUpdates
    rw [commit_pending,commit_pending]
  · change (t.storage.commit hasher t.version).2.db.nodes = (s.storage.commit hasher s.version).2.db.nodes
    rw [commit_nodes,commit_nodes,nodes]
  · change (t.storage.commit hasher t.version).2.db.values = (s.storage.commit hasher s.version).2.db.values
    funext key stamp
    rw [commit_values,commit_values,shadows.config,shadows.version,shadows.pending,shadows.values]
  · change (t.storage.commit hasher t.version).2.db.latest = (s.storage.commit hasher s.version).2.db.latest
    funext key
    rw [commit_latest,commit_latest,shadows.version,shadows.pending,shadows.latest]
  · change (t.storage.commit hasher t.version).2.pruningConfig = (s.storage.commit hasher s.version).2.pruningConfig
    rw [commit_config,commit_config,shadows.config]

end Shadows

def Request.prunes (config : PruningConfig) : Request → Bool
  | .initChain _ initialHeight =>
    Storage.prunes config (if initialHeight = 0 then PranklinExecutorService.genesisHeight else initialHeight)
  | _ => false

-- A block commits, and so does the initialisation of a chain that has a name.
def Request.commits : Request → Bool
  | .initChain chainId _ => !chainId.isEmpty
  | .executeTxs _ => true
  | _ => false

namespace PranklinExecutorService
variable {hasher : TreeHasher StateKey StateKey.Value B256} {wire : Wire} {service : PranklinExecutorService} {node : Node}
  {request : Request} {config : PruningConfig}

def Settled (service : PranklinExecutorService) : Prop := service.node.engine.state.storage.pendingUpdates = ∅

theorem commit_shades {s : StateManager} (settled : s.storage.pendingUpdates = ∅)
    (shallow : Storage.prunes s.storage.pruningConfig s.version = false) : Shades (s.commit hasher).2 s := by
  refine ⟨?_,?_,?_,?_,?_,rfl,rfl,rfl⟩
  · exact settled.trans (commit_pending hasher s.storage s.version).symm
  · refine Eq.trans ?_ (commit_nodes hasher s.storage s.version).symm
    rw [(writePending_db s.storage s.version).2.2.1,settled]
    rfl
  · funext key stamp
    refine Eq.trans ?_ (commit_values hasher s.storage s.version key stamp).symm
    rw [shallow,settled]
    simp
  · funext key
    refine Eq.trans ?_ (commit_latest hasher s.storage s.version key).symm
    rw [settled]
    simp
  · exact (commit_config hasher s.storage s.version).symm

theorem executeTxs_node (block : Block) : ∃ pool, executeTxs hasher wire service block =
    (.ok (.executeTxs (executeBatch wire.codec.toCodec {} {service.node with
        engine:={service.node.engine with state:=service.node.engine.state.beginBlock block.height}} block.txs).1
      (service.node.executeTxs hasher wire.codec.toCodec block).1 service.maxBytes),
      ⟨(service.node.executeTxs hasher wire.codec.toCodec block).2,pool,service.maxBytes⟩) := by
  have same := @PoolNonces.executeBatchPooled_node wire.codec.toCodec wire.hash {service.node with
    engine:={service.node.engine with state:=service.node.engine.state.beginBlock block.height}} service.mempool {} block.txs
  unfold executeTxs Node.executeTxs Node.execute
  rcases pooled : executeBatchPooled wire.codec.toCodec wire.hash {} {service.node with
    engine:={service.node.engine with state:=service.node.engine.state.beginBlock block.height}} service.mempool block.txs with
    ⟨stats,node,pool⟩
  rcases plain : executeBatch wire.codec.toCodec {} {service.node with
    engine:={service.node.engine with state:=service.node.engine.state.beginBlock block.height}} block.txs with ⟨counted,bare⟩
  rw [pooled,plain] at same
  obtain ⟨rfl,rfl⟩ := same
  refine ⟨pool,?_⟩
  dsimp only
  rw [pooled]

theorem onAgents_after {ε : Type} (call : Eff AgentRegistry ε Unit) (refusal : ε → ServiceError) :
    (onAgents service call refusal).2 = {service with node:={service.node with auth:=(exec call service.node.auth).2}} := by
  unfold onAgents
  cases exec call service.node.auth with
  | mk result agents => cases result <;> rfl

theorem onAgents_answer {ε : Type} (call : Eff AgentRegistry ε Unit) (refusal : ε → ServiceError) :
    (onAgents service call refusal).1 = .ok .success ∨ ∃ error, (onAgents service call refusal).1 = .error error := by
  unfold onAgents
  cases exec call service.node.auth with
  | mk result agents =>
    cases result with
    | ok _ => exact .inl rfl
    | error error => exact .inr ⟨_,rfl⟩

-- What a request other than a block makes of the engine: nothing, or a commit at another height.
theorem serve_engine (other : ∀ block, request ≠ .executeTxs block) :
    (serve hasher wire service request).2.node.engine = service.node.engine ∨
      ∃ chainId initialHeight height, request = .initChain chainId initialHeight ∧
        validateInitChain chainId initialHeight = .ok height ∧
        (serve hasher wire service request).2.node.engine = {service.node.engine with
          state:=((service.node.engine.state.beginBlock height).commit hasher).2} := by
  have agents : ∀ {ε : Type} (call : Eff AgentRegistry ε Unit) (refusal : ε → ServiceError),
      (onAgents service call refusal).2.node.engine = service.node.engine := by
    intro ε call refusal
    rw [onAgents_after]
  cases request with
  | executeTxs block => exact absurd rfl (other block)
  | initChain chainId initialHeight =>
    change (initChain hasher service chainId initialHeight).2.node.engine = _ ∨ _
    cases valid : validateInitChain chainId initialHeight with
    | error error =>
      left
      rw [initChain,valid]
    | ok height =>
      refine .inr ⟨chainId,initialHeight,height,rfl,valid,?_⟩
      change (initChain hasher service chainId initialHeight).2.node.engine = _
      rw [initChain,valid]
  | submitTransaction tx =>
    left
    change (submitTransaction wire service tx).2.node.engine = _
    unfold submitTransaction
    split
    · rfl
    · split <;> rfl
  | setAgent tx | removeAgent tx => exact .inl (agents _ _)
  | nominateAgent nomination signature domain => exact .inl (agents _ _)
  | getTxs order => exact .inl rfl
  | setFinal blockHeight => exact .inl rfl
  | getTransactionStatus txHash => exact .inl rfl
  | query query => exact .inl rfl

theorem executed_other (other : ∀ block, request ≠ .executeTxs block) (rest : List Request) :
    executed hasher wire service (request :: rest) = executed hasher wire (serve hasher wire service request).2 rest ∧
      Request.blocks (request :: rest) = Request.blocks rest := by
  have unanswered : ∀ stats root bound, (serve hasher wire service request).1 ≠ .ok (.executeTxs stats root bound) := by
    intro stats root bound answered
    have agents : ∀ {ε : Type} (call : Eff AgentRegistry ε Unit) (refusal : ε → ServiceError),
        (onAgents service call refusal).1 ≠ .ok (.executeTxs stats root bound) := by
      intro ε call refusal answered
      rcases @onAgents_answer service ε call refusal with same | ⟨_,same⟩ <;> rw [same] at answered <;> cases answered
    cases request with
    | executeTxs block => exact other block rfl
    | initChain chainId initialHeight =>
      change (initChain hasher service chainId initialHeight).1 = _ at answered
      unfold initChain at answered
      split at answered <;> cases answered
    | submitTransaction tx =>
      change (submitTransaction wire service tx).1 = _ at answered
      unfold submitTransaction at answered
      split at answered
      · cases answered
      · split at answered <;> cases answered
    | setAgent tx | removeAgent tx => exact agents _ _ answered
    | nominateAgent nomination signature domain => exact agents _ _ answered
    | getTransactionStatus txHash =>
      change Except.ok (getTransactionStatus service txHash) = _ at answered
      unfold getTransactionStatus at answered
      split at answered <;> cases answered
    | getTxs order | setFinal blockHeight | query query => cases answered
  constructor
  · rw [executed]
    cases served : serve hasher wire service request with
    | mk answer next =>
      rw [served] at unanswered
      split
      · rename_i stats root bound after same
        cases same
        exact absurd rfl (unanswered stats root bound)
      · rename_i after _ same
        cases same
        rfl
  · cases request with
    | executeTxs block => exact absurd rfl (other block)
    | _ => rfl

theorem executeTxs_settled (block : Block) : (serve hasher wire service (.executeTxs block)).2.Settled := by
  obtain ⟨pool,served⟩ := @executeTxs_node hasher wire service block
  change (executeTxs hasher wire service block).2.Settled
  rw [served]
  exact commit_pending _ _ _

theorem serve_commits (commits : request.commits) : (serve hasher wire service request).2.Settled := by
  cases request with
  | executeTxs block => exact executeTxs_settled block
  | initChain chainId initialHeight =>
    have named : chainId.isEmpty = false := by simpa [Request.commits] using commits
    change (initChain hasher service chainId initialHeight).2.Settled
    rw [initChain,validateInitChain,named]
    exact commit_pending _ _ _
  | _ => cases commits

theorem serve_settled (settled : service.Settled) : (serve hasher wire service request).2.Settled := by
  by_cases other : ∀ block, request ≠ .executeTxs block
  · rcases @serve_engine hasher wire service request other with kept | ⟨_,_,_,_,_,committed⟩
    · rw [Settled,kept]
      exact settled
    · rw [Settled,committed]
      exact commit_pending _ _ _
  · obtain ⟨block,rfl⟩ := not_forall_not.mp other
    exact executeTxs_settled block

-- A service starts with what it has registered still unwritten, and has nothing unwritten between two
-- calls from its first commit on.
theorem run_settled (requests : List Request) (settled : service.Settled ∨ ∃ request ∈ requests, request.commits) :
    (run hasher wire service requests).Settled := by
  induction requests generalizing service with
  | nil => exact settled.resolve_right (by simp)
  | cons request rest ih =>
    refine ih ?_
    rcases settled with settled | ⟨later,inside,commits⟩
    · exact .inl (serve_settled settled)
    · rcases List.mem_cons.mp inside with rfl | inside
      · exact .inl (serve_commits commits)
      · exact .inr ⟨later,inside,commits⟩

theorem serve_mempool (other : ∀ block, request ≠ .executeTxs block) (quiet : ∀ hex, request ≠ .submitTransaction hex) :
    (serve hasher wire service request).2.mempool = service.mempool := by
  have agents : ∀ {ε : Type} (call : Eff AgentRegistry ε Unit) (refusal : ε → ServiceError),
      (onAgents service call refusal).2.mempool = service.mempool := by
    intro ε call refusal
    rw [onAgents_after]
  cases request with
  | executeTxs block => exact absurd rfl (other block)
  | submitTransaction hex => exact absurd rfl (quiet hex)
  | initChain chainId initialHeight =>
    change (initChain hasher service chainId initialHeight).2.mempool = _
    unfold initChain
    split <;> rfl
  | setAgent tx | removeAgent tx => exact agents _ _
  | nominateAgent nomination signature domain => exact agents _ _
  | getTxs order => rfl
  | setFinal blockHeight => rfl
  | getTransactionStatus txHash => rfl
  | query query => rfl

structure Beside (config : PruningConfig) (service : PranklinExecutorService) (node : Node) : Prop where
  engines : Loose Shades node.engine service.node.engine
  settled : service.Settled
  config : service.node.engine.state.storage.pruningConfig = config

theorem Beside.other (beside : Beside config service node) (other : ∀ block, request ≠ .executeTxs block)
    (shallow : request.prunes config = false) : Beside config (serve hasher wire service request).2 node := by
  obtain ⟨⟨shades,levels⟩,settled,same⟩ := beside
  rcases @serve_engine hasher wire service request other with kept | ⟨chainId,initialHeight,height,rfl,valid,committed⟩
  · refine ⟨?_,serve_settled settled,?_⟩
    · rw [kept]
      exact ⟨shades,levels⟩
    · rw [kept]
      exact same
  · have begins : height = if initialHeight = 0 then genesisHeight else initialHeight := by
      unfold validateInitChain at valid
      split at valid
      · cases valid
      · exact (Except.ok.inj valid).symm
    have unpruned : Storage.prunes (service.node.engine.state.beginBlock height).storage.pruningConfig height = false := by
      change Storage.prunes service.node.engine.state.storage.pruningConfig height = false
      rw [same,begins]
      exact shallow
    have shaded := @commit_shades hasher (service.node.engine.state.beginBlock height) settled unpruned
    refine ⟨?_,serve_settled settled,?_⟩
    · rw [committed]
      refine ⟨?_,levels⟩
      exact ⟨shaded.pending.symm.trans shades.pending,shaded.nodes.symm.trans shades.nodes,
        shaded.values.symm.trans shades.values,shaded.latest.symm.trans shades.latest,
        shaded.config.symm.trans shades.config,shaded.index.symm.trans shades.index,
        shaded.hashOrder.symm.trans shades.hashOrder,shaded.moment.symm.trans shades.moment⟩
    · rw [committed]
      exact (commit_config _ _ _).trans same

theorem Beside.block (beside : Beside config service node) (block : Block) :
    (executeBatch wire.codec.toCodec {} {service.node with
        engine:={service.node.engine with state:=service.node.engine.state.beginBlock block.height}} block.txs).1 =
      (executeBatch wire.codec.toCodec {} {node with
        engine:={node.engine with state:=node.engine.state.beginBlock block.height}} block.txs).1 ∧
      (service.node.executeTxs hasher wire.codec.toCodec block).1 = (node.executeTxs hasher wire.codec.toCodec block).1 ∧
      Beside config (serve hasher wire service (.executeTxs block)).2 (node.executeTxs hasher wire.codec.toCodec block).2 := by
  obtain ⟨⟨shades,levels⟩,settled,same⟩ := beside
  have begun : Loose Shadows {node.engine with state:=node.engine.state.beginBlock block.height}
      {service.node.engine with state:=service.node.engine.state.beginBlock block.height} :=
    ⟨shades.beginBlock block.height,levels⟩
  obtain ⟨stats,after⟩ := executeBatch_twin (kin_loose Shadows.mirrors.observes) wire.codec.toCodec
    (Restart.nodeKin_engines _) (n:={node with engine:={node.engine with state:=node.engine.state.beginBlock block.height}})
    (m:={service.node with engine:={service.node.engine with state:=service.node.engine.state.beginBlock block.height}})
    begun {} block.txs
  obtain ⟨root,committed⟩ := after.state.commit hasher
  obtain ⟨pool,served⟩ := @executeTxs_node hasher wire service block
  have kept : (serve hasher wire service (.executeTxs block)).2.node =
      (service.node.executeTxs hasher wire.codec.toCodec block).2 := by
    change (executeTxs hasher wire service block).2.node = _
    rw [served]
  refine ⟨stats,root,?_,executeTxs_settled block,?_⟩
  · rw [kept]
    exact ⟨committed.toShades,after.levels⟩
  · rw [kept]
    exact (commit_config _ _ _).trans ((Restart.execute_pinned wire.codec.toCodec service.node block).2.trans same)

theorem run_beside (requests : List Request) (beside : Beside config service node)
    (shallow : ∀ request ∈ requests, request.prunes config = false) :
    executed hasher wire service requests = node.executed hasher wire.codec.toCodec (Request.blocks requests) ∧
      Beside config (run hasher wire service requests) (node.run hasher wire.codec.toCodec (Request.blocks requests)) := by
  induction requests generalizing service node with
  | nil => exact ⟨rfl,beside⟩
  | cons request rest ih =>
    obtain ⟨first,later⟩ := List.forall_mem_cons.mp shallow
    by_cases other : ∀ block, request ≠ .executeTxs block
    · obtain ⟨same,blocks⟩ := @executed_other hasher wire service request other rest
      rw [same,blocks]
      exact ih (beside.other other first) later
    · obtain ⟨block,rfl⟩ := not_forall_not.mp other
      obtain ⟨stats,root,next⟩ := @Beside.block hasher wire service node config beside block
      obtain ⟨pool,served⟩ := @executeTxs_node hasher wire service block
      obtain ⟨tail,final⟩ := ih next later
      refine ⟨?_,final⟩
      have answered : serve hasher wire service (.executeTxs block) = _ := served
      rw [answered] at tail
      rw [executed,answered]
      dsimp only
      rw [stats,root,tail]
      rfl

-- From a service's first commit on blocks alone move the chain. Whatever the sequencer and the clients
-- call between them, as long as no chain is initialised at a height deep enough to prune: each block is
-- answered with the counts and the root it would have had without those calls, and afterwards the state
-- reads the same from the next height on, and the book is the same.
theorem blocks_alone (hasher : TreeHasher StateKey StateKey.Value B256) (wire : Wire) (service : PranklinExecutorService)
    (opening requests : List Request) (committed : ∃ request ∈ opening, request.commits)
    (shallow : ∀ request ∈ requests,
      request.prunes (run hasher wire service opening).node.engine.state.storage.pruningConfig = false) :
    let begun := run hasher wire service opening
    let last := run hasher wire begun requests
    let bare := begun.node.run hasher wire.codec.toCodec (Request.blocks requests)
    executed hasher wire begun requests = begun.node.executed hasher wire.codec.toCodec (Request.blocks requests) ∧
      (∀ height key, (last.node.engine.state.beginBlock height).get key = (bare.engine.state.beginBlock height).get key) ∧
      last.node.engine.orderbook.level = bare.engine.orderbook.level := by
  obtain ⟨answers,⟨shades,levels⟩,_⟩ := run_beside requests ⟨⟨.refl _,rfl⟩,run_settled opening (.inr committed),rfl⟩ shallow
  exact ⟨answers,fun height key => (shades.beginBlock height).get key,levels⟩

def trustingWire : Wire where
  message _ := "Unexpected length of input"
  recoverAddress tx := .ok tx.sender
  sha256 data := .ofNat 256 (data.foldl (fun digest byte => 257 * digest + byte.toNat) 1)
  hexDecode _ := .error "Invalid character 'z' at position 0"
  display _ := ""
  displayHash _ := ""
  recoverNomination nomination _ _ := .ok nomination.account

def contentsHasher : TreeHasher StateKey StateKey.Value B256 := ⟨0,fun _ => 1⟩

def freshService : PranklinExecutorService := ⟨PoolNonces.freshNode,.new {},1000000⟩

def aliceDeposits : List UInt8 := Bench.written (MempoolCall.Bench.deposit 0 5)

-- After the first initialisation, two blocks between which the chain is initialised again, an agent named
-- and a text refused.
theorem blocks_alone_initialised_again :
    let begun := run contentsHasher trustingWire freshService [.initChain "pranklin" 0]
    let requests : List Request := [.submitTransaction "zz",.executeTxs ⟨2,[aliceDeposits]⟩,
      .initChain "pranklin" 1,.nominateAgent ⟨Bench.alice,Bench.bob,3,0⟩ 0 {},.executeTxs ⟨3,[aliceDeposits,[0]]⟩]
    (executed contentsHasher trustingWire begun requests).map (·.1) = [⟨1,0⟩,⟨0,2⟩] ∧
      executed contentsHasher trustingWire begun requests =
        begun.node.executed contentsHasher trustingWire.codec.toCodec (Request.blocks requests) := by
  intro begun requests
  have shallow : ∀ request ∈ requests, request.prunes begun.node.engine.state.storage.pruningConfig = false := by decide
  exact ⟨by decide +kernel,
    (blocks_alone contentsHasher trustingWire freshService [.initChain "pranklin" 0] requests ⟨_,.head _,rfl⟩ shallow).1⟩

end PranklinExecutorService
end Pranklin
