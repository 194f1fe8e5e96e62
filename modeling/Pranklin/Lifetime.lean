import Pranklin.Crossing
import Pranklin.Enumeration
import Pranklin.ReplicaSync
import Pranklin.Service

namespace Pranklin
open Words Effect Storage TransactionExecutor

namespace StateManager

def setAsset (s : StateManager) (assetId : Nat) (asset : Asset) : StateManager :=
  let s := s.set (.assetInfo assetId) asset
  let list := s.listAllAssets
  if assetId ∈ list then s else s.set .assetList (list ++ [assetId])

def setBridgeOperator (s : StateManager) (address : Address) (isOperator : Bool) : StateManager :=
  if isOperator then s.set (.bridgeOperator address) true else s.delete (.bridgeOperator address)

end StateManager

namespace Server

def defaultMaxBytes : Nat := 1000000

def defaultAssets : List Asset :=
  [⟨0,"USDC","USD Coin",6,true,10000⟩,⟨1,"USDT","Tether USD",6,true,9800⟩,⟨2,"DAI","Dai Stablecoin",18,true,9500⟩]

end Server

namespace StateManager

def initializeAssets (s : StateManager) : StateManager :=
  Server.defaultAssets.foldl (fun s asset => s.setAsset asset.id asset) s

def initializeBridgeOperators (s : StateManager) (operators : List Address) : StateManager :=
  operators.foldl (fun s operator => s.setBridgeOperator operator true) s

end StateManager

namespace PranklinExecutorService

def new (db : Db StateKey StateKey.Value B256) (hashOrder : HashOrder) : PranklinExecutorService :=
  ⟨Node.reopen db hashOrder,.new {},Server.defaultMaxBytes⟩

def onState (service : PranklinExecutorService) (write : StateManager → StateManager) : PranklinExecutorService :=
  {service with node:={service.node with engine:={service.node.engine with state:=write service.node.engine.state}}}

@[simp] theorem onState_state (service : PranklinExecutorService) (write : StateManager → StateManager) :
    (service.onState write).node.engine.state = write service.node.engine.state := rfl

def initializeAssets (service : PranklinExecutorService) : PranklinExecutorService :=
  service.onState fun state => state.initializeAssets

def initializeBridgeOperators (service : PranklinExecutorService) (operators : List Address) : PranklinExecutorService :=
  service.onState fun state => state.initializeBridgeOperators operators

def startServer (db : Db StateKey StateKey.Value B256) (hashOrder : HashOrder) (operators : List Address) :
    PranklinExecutorService :=
  ((new db hashOrder).initializeAssets).initializeBridgeOperators operators

end PranklinExecutorService

def StateKey.ofRegistry : StateKey → Bool
  | .assetInfo _ | .assetList | .bridgeOperator _ => true
  | _ => false

inductive Moment where
  | request (call : Request)
  | restart (hashOrder : HashOrder) (operators : List Address)

-- The calls that commit; initialising a chain is a block without transactions.
def Request.block : Request → Option Block
  | .executeTxs block => some block
  | .initChain chainId initialHeight =>
    match PranklinExecutorService.validateInitChain chainId initialHeight with
    | .error _ => none
    | .ok height => some ⟨height,[]⟩
  | _ => none

def Moment.block : Moment → Option Block
  | .request call => call.block
  | .restart _ _ => none

def Rising (version : Nat) : List Moment → Prop
  | [] => True
  | moment :: rest =>
    match moment.block with
    | none => Rising version rest
    | some block => version ≤ block.height ∧ prunes {} block.height = false ∧ Rising block.height rest

-- Bridge operators: a start adds those it is given to those on the disk, and a commit writes them down.
structure Roster where
  durable : Address → Prop
  current : Address → Prop

def Roster.after (roster : Roster) (moment : Moment) : Roster :=
  match moment with
  | .restart _ operators => {roster with current:=fun address => address ∈ operators ∨ roster.durable address}
  | .request call => if call.block.isSome then {roster with durable:=roster.current} else roster

def Moment.load (moments : List Moment) : Nat := ((moments.filterMap Moment.block).map (·.txs.length)).sum

namespace PranklinExecutorService
section Lives
variable (hasher : TreeHasher StateKey StateKey.Value B256) (wire : Wire) (service : PranklinExecutorService)

def live : Moment → PranklinExecutorService
  | .request call => (serve hasher wire service call).2
  | .restart hashOrder operators => startServer service.node.engine.state.storage.db hashOrder operators

def lifetime (moments : List Moment) : PranklinExecutorService := moments.foldl (live hasher wire) service

def spentNow (moment : Moment) : List (List UInt8 × Transaction) :=
  match moment.block with
  | none => []
  | some block => successes wire.codec.toCodec {service.node with
      engine:={service.node.engine with state:=service.node.engine.state.beginBlock block.height}} block.txs

def spent (service : PranklinExecutorService) : List Moment → List (List UInt8 × Transaction)
  | [] => []
  | moment :: rest => spentNow wire service moment ++ spent (live hasher wire service moment) rest

end Lives

variable {hasher : TreeHasher StateKey StateKey.Value B256} {wire : Wire} {service : PranklinExecutorService}

theorem serve_block (request : Request) : (serve hasher wire service request).2.node.engine =
    match request.block with
    | none => service.node.engine
    | some block => (service.node.executeTxs hasher wire.codec.toCodec block).2.engine := by
  cases request with
  | executeTxs block =>
    obtain ⟨pool,served⟩ := @executeTxs_node hasher wire service block
    change (executeTxs hasher wire service block).2.node.engine = _
    rw [served]
    rfl
  | initChain chainId initialHeight =>
    rw [serve,initChain,Request.block]
    cases validateInitChain chainId initialHeight <;> rfl
  | _ =>
    refine (serve_engine (by simp)).resolve_right ?_
    rintro ⟨chainId,initialHeight,height,other,_⟩
    cases other

end PranklinExecutorService

namespace Lifetime
variable {hasher : TreeHasher StateKey StateKey.Value B256} {codec : Codec} {node : Node} {block : Block} {s t : StateManager}

structure Sound (s : StateManager) : Prop where
  dated : s.Dated
  config : s.storage.pruningConfig = {}

def marker (s : StateManager) : Nat := s.storage.db.currentVersion.getD 0

theorem Sound.get_eq (sound : Sound s) (key : StateKey) : s.get key = (s.pending key).or (s.base key) := by
  rw [StateManager.get_eq,sound.dated.committed_eq]
  rfl

theorem Sound.beginBlock (sound : Sound s) {height : Nat} (later : marker s ≤ height) : Sound (s.beginBlock height) :=
  ⟨⟨sound.dated.marked,sound.dated.bare,later⟩,sound.config⟩

theorem Sound.beginBlock_get (sound : Sound s) {height : Nat} (later : marker s ≤ height) (key : StateKey) :
    (s.beginBlock height).get key = s.get key := by
  rw [(sound.beginBlock later).get_eq,sound.get_eq]
  rfl

def Moored (db : Db StateKey StateKey.Value B256) (s t : StateManager) : Prop := t = s ∧ s.storage.db = db

theorem mirrors_moored (db : Db StateKey StateKey.Value B256) : Mirrors (Moored db) where
  reads := by rintro _ s ⟨rfl,_⟩ key _; rfl
  version := by rintro _ s ⟨rfl,_⟩; rfl
  set := by rintro _ s ⟨rfl,same⟩ key value _; exact ⟨rfl,same⟩
  delete := by rintro _ s ⟨rfl,same⟩ key _; exact ⟨rfl,same⟩
  setPosition := by
    rintro _ s ⟨rfl,same⟩ address marketId position
    obtain ⟨_,moved,_⟩ := StateManager.setPosition_moved s address marketId position
    exact ⟨rfl,moved.db.trans same⟩
  deletePosition := by
    rintro _ s ⟨rfl,same⟩ address marketId
    exact ⟨rfl,(StateManager.deletePosition_moved s address marketId).db.trans same⟩

theorem execute_db (codec : Codec) (node : Node) (block : Block) :
    (node.execute codec block).engine.state.storage.db = node.engine.state.storage.db := by
  let begun : Node := {node with engine:={node.engine with state:=node.engine.state.beginBlock block.height}}
  have moored : Loose (Moored node.engine.state.storage.db) begun.engine begun.engine := ⟨⟨rfl,rfl⟩,rfl⟩
  exact (executeBatch_twin (kin_loose (mirrors_moored _).observes) codec (Restart.nodeKin_engines _) moored {}
    block.txs).2.state.2

structure Committed (executed s : StateManager) (height : Nat) : Prop extends Sound s where
  marked : marker s = height
  version : s.version = height
  buffer : ∀ key, s.pending key = none
  base : ∀ key, s.base key = executed.get key

theorem Committed.get (committed : Committed s t height) (key : StateKey) : t.get key = s.get key := by
  rw [committed.get_eq,committed.buffer,committed.base]
  rfl

theorem executeTxs_committed (sound : Sound node.engine.state) (later : marker node.engine.state ≤ block.height)
    (plain : prunes {} block.height = false) :
    Committed (node.execute codec block).engine.state (node.executeTxs hasher codec block).2.engine.state block.height := by
  obtain ⟨version,config⟩ := Restart.execute_pinned codec node block
  have db := execute_db codec node block
  rw [sound.config] at config
  have dated : (node.execute codec block).engine.state.Dated := by
    refine ⟨?_,?_,?_⟩
    · rw [db]; exact sound.dated.marked
    · rw [db]; exact sound.dated.bare
    · rw [db,version]; exact later
  obtain ⟨after,base⟩ := @StateManager.Dated.commit _ hasher dated (by rw [config,version]; exact plain)
  refine ⟨⟨after,?_⟩,?_,version,fun key => ?_,base⟩
  · exact (commit_config _ _ _).trans config
  · exact (congrArg (Option.getD · 0) (commit_marker _ _ _)).trans version
  · change AList.lookup key ((node.execute codec block).engine.state.storage.commit hasher _).2.pendingUpdates = none
    rw [commit_pending]
    rfl

structure Enrols (s t : StateManager) : Prop where
  db : t.storage.db = s.storage.db
  version : t.version = s.version
  config : t.storage.pruningConfig = s.storage.pruningConfig
  others : ∀ key : StateKey, !key.ofRegistry → t.pending key = s.pending key

namespace Enrols
variable {u : StateManager}

theorem refl (s : StateManager) : Enrols s s := ⟨rfl,rfl,rfl,fun _ _ => rfl⟩

theorem trans (left : Enrols s t) (right : Enrols t u) : Enrols s u where
  db := right.db.trans left.db
  version := right.version.trans left.version
  config := right.config.trans left.config
  others key outside := (right.others key outside).trans (left.others key outside)

theorem set (s : StateManager) {key : StateKey} (value : key.Value) (own : key.ofRegistry) : Enrols s (s.set key value) where
  db := rfl
  version := rfl
  config := rfl
  others read outside := StateManager.pending_set_ne s value (by rintro rfl; simp [own] at outside)

theorem setAsset (s : StateManager) (assetId : Nat) (asset : Asset) : Enrols s (s.setAsset assetId asset) := by
  unfold StateManager.setAsset
  dsimp only
  split
  · exact .set s _ rfl
  · exact (Enrols.set s _ rfl).trans (.set _ _ rfl)

theorem setBridgeOperator (s : StateManager) (operator : Address) : Enrols s (s.setBridgeOperator operator true) := .set s _ rfl

theorem foldl {α : Type} {write : StateManager → α → StateManager} (each : ∀ s item, Enrols s (write s item))
    (items : List α) (s : StateManager) : Enrols s (items.foldl write s) := by
  induction items generalizing s with
  | nil => exact .refl s
  | cons item rest ih => exact (each s item).trans (ih (write s item))

theorem sound (enrols : Enrols s t) (sound : Sound s) : Sound t := by
  obtain ⟨db,version,config,_⟩ := enrols
  refine ⟨⟨?_,?_,?_⟩,config.trans sound.config⟩
  · rw [db]; exact sound.dated.marked
  · rw [db]; exact sound.dated.bare
  · rw [db,version]; exact sound.dated.marker

theorem base (enrols : Enrols s t) (key : StateKey) : t.base key = s.base key := by
  rw [StateManager.base,StateManager.base,enrols.db]

end Enrols

open PranklinExecutorService

theorem startServer_state (db : Db StateKey StateKey.Value B256) (hashOrder : HashOrder) (operators : List Address) :
    (startServer db hashOrder operators).node.engine.state =
      (StateManager.new (.new db {}) hashOrder).initializeAssets.initializeBridgeOperators operators := by
  unfold startServer PranklinExecutorService.initializeBridgeOperators PranklinExecutorService.initializeAssets
  rw [onState_state,onState_state]
  rfl

theorem startServer_enrols (db : Db StateKey StateKey.Value B256) (hashOrder : HashOrder) (operators : List Address) :
    Enrols (.new (.new db {}) hashOrder) (startServer db hashOrder operators).node.engine.state := by
  have assets : ∀ s : StateManager, Enrols s s.initializeAssets := fun s =>
    .foldl (fun s (asset : Asset) => .setAsset s asset.id asset) Server.defaultAssets s
  have bridge : ∀ s : StateManager, Enrols s (s.initializeBridgeOperators operators) := fun s =>
    .foldl .setBridgeOperator operators s
  rw [startServer_state]
  exact (assets _).trans (bridge _)

theorem Sound.reopened (sound : Sound s) (hashOrder : HashOrder) : Sound (.new (.new s.storage.db {}) hashOrder) :=
  ⟨⟨sound.dated.marked,sound.dated.bare,Nat.le_refl _⟩,rfl⟩

-- Between two calls nothing but the writes of the start waits for a commit.
structure Lasting (s : StateManager) : Prop extends Sound s where
  buffer : ∀ key : StateKey, !key.ofRegistry → s.pending key = none

theorem Lasting.get (lasting : Lasting s) (key : StateKey) (outside : !key.ofRegistry) : s.get key = s.base key := by
  rw [lasting.get_eq,lasting.buffer key outside]
  rfl

theorem Lasting.started (dated : (StateManager.new (.new db {}) hashOrder).Dated) (operators : List Address) :
    Lasting (startServer db hashOrder operators).node.engine.state := by
  have enrols := startServer_enrols db hashOrder operators
  exact ⟨enrols.sound ⟨dated,rfl⟩,fun key outside => enrols.others key outside⟩

section Moments
variable {service : PranklinExecutorService} {wire : Wire} {moment : Moment} {rest moments : List Moment} {version : Nat}

theorem live_cases (hasher : TreeHasher StateKey StateKey.Value B256) (wire : Wire) (service : PranklinExecutorService)
    (moment : Moment) :
    (moment.block = none ∧ (live hasher wire service moment).node.engine = service.node.engine) ∨
      (∃ block, moment.block = some block ∧ (live hasher wire service moment).node.engine =
        (service.node.executeTxs hasher wire.codec.toCodec block).2.engine) ∨
      ∃ hashOrder operators, moment = .restart hashOrder operators := by
  cases moment with
  | restart hashOrder operators => exact .inr (.inr ⟨hashOrder,operators,rfl⟩)
  | request call =>
    have served := @serve_block hasher wire service call
    cases commits : call.block with
    | none =>
      rw [commits] at served
      exact .inl ⟨commits,served⟩
    | some block =>
      rw [commits] at served
      exact .inr (.inl ⟨block,commits,served⟩)

theorem live_lasting (lasting : Lasting service.node.engine.state) (below : marker service.node.engine.state ≤ version)
    (rising : Rising version (moment :: rest)) : Lasting (live hasher wire service moment).node.engine.state ∧
      ∃ version, marker (live hasher wire service moment).node.engine.state ≤ version ∧ Rising version rest := by
  rw [Rising] at rising
  rcases live_cases hasher wire service moment with ⟨idle,same⟩ | ⟨block,commits,same⟩ | ⟨hashOrder,operators,rfl⟩
  · rw [idle] at rising
    rw [same]
    exact ⟨lasting,version,below,rising⟩
  · rw [commits] at rising
    obtain ⟨later,plain,rising⟩ := rising
    have committed := @executeTxs_committed hasher wire.codec.toCodec service.node block lasting.toSound (below.trans later) plain
    rw [same]
    exact ⟨⟨committed.toSound,fun key _ => committed.buffer key⟩,block.height,committed.marked.le,rising⟩
  · refine ⟨.started (lasting.toSound.reopened hashOrder).dated operators,version,?_,rising⟩
    have enrols := startServer_enrols service.node.engine.state.storage.db hashOrder operators
    change marker (startServer _ _ _).node.engine.state ≤ version
    rw [marker,enrols.db]
    exact below

theorem nonce_le (txs : List (List UInt8)) (account : Address) :
    (txs.foldl (after codec) node).engine.state.getNonce account ≤ node.engine.state.getNonce account + txs.length := by
  induction txs generalizing node with
  | nil => simp
  | cons data rest ih =>
    have later := @ih (after codec node data)
    rw [List.foldl_cons,List.length_cons]
    rcases Nonces.after_cases codec node data with ⟨_,_,kept⟩ | ⟨tx,_,_,next,moved⟩
    · rw [kept] at later
      omega
    · rw [moved] at later
      split at later
      · rename_i own
        subst own
        have wrapped : addWrap 64 tx.nonce 1 ≤ tx.nonce + 1 := Nat.mod_le _ _
        omega
      · omega

theorem block_nonces (lasting : Lasting service.node.engine.state) (later : marker service.node.engine.state ≤ block.height)
    (plain : prunes {} block.height = false) (account : Address)
    (fits : service.node.engine.state.getNonce account + block.txs.length < 2 ^ 64 - 1) :
    let own := (successes codec {service.node with
      engine:={service.node.engine with state:=service.node.engine.state.beginBlock block.height}} block.txs).filter
        (·.2.sender = account)
    own.map (·.2.nonce) = List.range' (service.node.engine.state.getNonce account) own.length ∧
      (service.node.executeTxs hasher codec block).2.engine.state.getNonce account =
        service.node.engine.state.getNonce account + own.length := by
  let begun : Node := {service.node with
    engine:={service.node.engine with state:=service.node.engine.state.beginBlock block.height}}
  have same : begun.engine.state.getNonce account = service.node.engine.state.getNonce account :=
    congrArg (Option.getD · 0) (lasting.toSound.beginBlock_get later (.nonce account))
  have small : ∀ front, front <+: block.txs → (front.foldl (after codec) begun).engine.state.getNonce account < 2 ^ 64 - 1 := by
    intro front part
    have bound := @nonce_le codec begun front account
    have shorter := part.length_le
    omega
  obtain ⟨nonces,final⟩ := Nonces.run_nonces small
  have kept : (service.node.executeTxs hasher codec block).2.engine.state.getNonce account =
      (service.node.execute codec block).engine.state.getNonce account :=
    congrArg (Option.getD · 0) ((executeTxs_committed lasting.toSound later plain).get (.nonce account))
  rw [same] at nonces final
  refine ⟨nonces,kept.trans ?_⟩
  rw [Node.execute,Nonces.executeBatch_node]
  exact final

theorem live_nonces (lasting : Lasting service.node.engine.state) (below : marker service.node.engine.state ≤ version)
    (rising : Rising version (moment :: rest)) (account : Address)
    (fits : service.node.engine.state.getNonce account + Moment.load [moment] < 2 ^ 64 - 1) :
    let own := (spentNow wire service moment).filter (·.2.sender = account)
    own.map (·.2.nonce) = List.range' (service.node.engine.state.getNonce account) own.length ∧
      (live hasher wire service moment).node.engine.state.getNonce account =
        service.node.engine.state.getNonce account + own.length := by
  rw [Rising] at rising
  unfold spentNow
  rcases live_cases hasher wire service moment with ⟨idle,same⟩ | ⟨block,commits,same⟩ | ⟨hashOrder,operators,rfl⟩
  · rw [idle,same]
    exact ⟨rfl,rfl⟩
  · rw [commits] at rising
    obtain ⟨later,plain,_⟩ := rising
    rw [commits,same]
    refine block_nonces lasting (below.trans later) plain account ?_
    simpa [Moment.load,commits] using fits
  · have started := Lasting.started (lasting.toSound.reopened hashOrder).dated operators
    have base := (startServer_enrols service.node.engine.state.storage.db hashOrder operators).base (.nonce account)
    have kept : (startServer service.node.engine.state.storage.db hashOrder operators).node.engine.state.get (.nonce account) =
        service.node.engine.state.get (.nonce account) := by
      rw [started.get _ rfl,base,lasting.get _ rfl]
      rfl
    exact ⟨rfl,congrArg (Option.getD · 0) kept⟩

theorem successes_length (txs : List (List UInt8)) : (successes codec node txs).length ≤ txs.length := by
  induction txs generalizing node with
  | nil => exact Nat.le_refl _
  | cons data rest ih =>
    have later := @ih (after codec node data)
    rw [successes]
    split
    · exact Nat.succ_le_succ later
    · exact later.trans (Nat.le_succ _)

theorem spentNow_length (wire : Wire) (service : PranklinExecutorService) (moment : Moment) :
    (spentNow wire service moment).length ≤ Moment.load [moment] := by
  unfold spentNow
  cases commits : moment.block with
  | none => simp
  | some block => simpa [Moment.load,commits] using successes_length block.txs

theorem decode_of_mem_spent (inside : entry ∈ spent hasher wire service moments) :
    Transaction.decode wire.codec.toCodec entry.1 = .ok entry.2 := by
  induction moments generalizing service with
  | nil => cases inside
  | cons moment rest ih =>
    rcases List.mem_append.mp inside with now | later
    · unfold spentNow at now
      split at now
      · cases now
      · exact Nonces.decode_of_mem_successes now
    · exact ih later

theorem load_cons (moment : Moment) (rest : List Moment) :
    Moment.load (moment :: rest) = Moment.load [moment] + Moment.load rest := by
  cases commits : moment.block <;> simp [Moment.load,commits]

theorem run_spent (lasting : Lasting service.node.engine.state) (below : marker service.node.engine.state ≤ version)
    (rising : Rising version moments) (account : Address)
    (fits : service.node.engine.state.getNonce account + Moment.load moments < 2 ^ 64 - 1) :
    let own := (spent hasher wire service moments).filter (·.2.sender = account)
    own.map (·.2.nonce) = List.range' (service.node.engine.state.getNonce account) own.length ∧
      (lifetime hasher wire service moments).node.engine.state.getNonce account =
        service.node.engine.state.getNonce account + own.length := by
  induction moments generalizing service version with
  | nil => exact ⟨rfl,rfl⟩
  | cons moment rest ih =>
    rw [load_cons] at fits
    obtain ⟨lasts,next,marked,rises⟩ := @live_lasting hasher service wire moment rest version lasting below rising
    obtain ⟨nonces,final⟩ := @live_nonces hasher service wire moment rest version lasting below rising account (by omega)
    have few := (List.length_filter_le (·.2.sender = account) _).trans (spentNow_length wire service moment)
    obtain ⟨later,last⟩ := ih lasts marked rises (by omega)
    intro own
    have split : own = (spentNow wire service moment).filter (·.2.sender = account) ++
        (spent hasher wire (live hasher wire service moment) rest).filter (·.2.sender = account) := List.filter_append ..
    rw [final] at later last
    rw [split,List.map_append,List.length_append,nonces,later,List.range'_append_1]
    exact ⟨rfl,last.trans (Nat.add_assoc _ _ _)⟩

end Moments

section Batches
variable {P : Engine → Prop}

theorem after_engine (codec : Codec) (node : Node) (data : List UInt8) :
    (after codec node data).engine = node.engine ∨
      ∃ tx, (after codec node data).engine = (exec (executeTxPayloadReadonly tx) node.engine).2 ∨
        (after codec node data).engine = {(exec (executeTxPayloadReadonly tx) node.engine).2 with
          state:=(exec (executeTxPayloadReadonly tx) node.engine).2.state.incrementNonce tx.sender} := by
  unfold after
  rw [executeBytes,exec_bind,exec_tries]
  cases Transaction.decode codec data with
  | error error => exact .inl rfl
  | ok tx =>
  dsimp only
  by_cases accepted : Accepted codec tx node
  · rw [execute_accepted accepted]
    cases ran : exec (executeTxPayloadReadonly tx) node.engine with
    | mk result e =>
      cases result with
      | error error => exact .inr ⟨tx,.inl (by rw [ran])⟩
      | ok _ => exact .inr ⟨tx,.inr (by rw [ran])⟩
  · obtain ⟨error,failed⟩ := execute_rejected accepted
    rw [failed]
    exact .inl rfl

theorem execute_keeps (payload : ∀ tx e, P e → P (exec (executeTxPayloadReadonly tx) e).2)
    (counted : ∀ (e : Engine) sender, P e → P {e with state:=e.state.incrementNonce sender})
    (begun : P {node.engine with state:=node.engine.state.beginBlock block.height}) : P (node.execute codec block).engine := by
  rw [Node.execute,Nonces.executeBatch_node]
  generalize start : ({node with engine:={node.engine with state:=node.engine.state.beginBlock block.height}} : Node) = first
  have begun : P first.engine := start ▸ begun
  clear start
  induction block.txs generalizing first with
  | nil => exact begun
  | cons data rest ih =>
    refine ih _ ?_
    rcases after_engine codec first data with same | ⟨tx,failed | passed⟩
    · rwa [same]
    · rw [failed]; exact payload tx _ begun
    · rw [passed]; exact counted _ _ (payload tx _ begun)

theorem execute_registry (codec : Codec) (node : Node) (block : Block) (key : StateKey) (own : key.ofRegistry) :
    (node.execute codec block).engine.state.get key = (node.engine.state.beginBlock block.height).get key := by
  refine execute_keeps (P:=fun e => e.state.get key = (node.engine.state.beginBlock block.height).get key) ?_ ?_ rfl
  · intro tx e same
    exact (payload_spared tx e key (by cases key <;> first | rfl | cases own)).trans same
  · intro e sender same
    exact (StateManager.get_set_ne _ _ (by rintro rfl; cases own)).trans same

end Batches

section Registry
variable {service : PranklinExecutorService} {wire : Wire} {moment : Moment} {rest moments : List Moment} {version : Nat}

theorem listAllAssets_setAsset (s : StateManager) (assetId : Nat) (asset : Asset) :
    (s.setAsset assetId asset).listAllAssets = if assetId ∈ s.listAllAssets then s.listAllAssets else s.listAllAssets ++ [assetId] := by
  have same : (s.set (.assetInfo assetId) asset).listAllAssets = s.listAllAssets :=
    congrArg (Option.getD · []) (StateManager.get_set_ne s _ (by simp))
  unfold StateManager.setAsset
  dsimp only
  rw [same]
  split
  · exact same
  · change Option.getD (StateManager.get _ .assetList) [] = _
    rw [StateManager.get_set_self]
    rfl

theorem getAsset_setAsset (s : StateManager) (assetId read : Nat) (asset : Asset) :
    (s.setAsset assetId asset).getAsset read = if read = assetId then some asset else s.getAsset read := by
  have first : (s.set (.assetInfo assetId) asset).getAsset read = if read = assetId then some asset else s.getAsset read := by
    by_cases same : read = assetId
    · subst same
      simp [StateManager.getAsset,StateManager.get_set_self]
    · simp [StateManager.getAsset,StateManager.get_set_ne,same]
  unfold StateManager.setAsset
  dsimp only
  split
  · exact first
  · exact (StateManager.get_set_ne _ _ (by simp)).trans first

structure Stocked (assets : List Asset) (s : StateManager) : Prop where
  once : s.listAllAssets.Nodup
  listed : ∀ asset ∈ assets, asset.id ∈ s.listAllAssets
  known : ∀ asset ∈ assets, s.getAsset asset.id = some asset

theorem stocked_foldl (assets : List Asset) (distinct : (assets.map Asset.id).Nodup) {s : StateManager}
    (once : s.listAllAssets.Nodup) :
    Stocked assets (assets.foldl (fun s asset => s.setAsset asset.id asset) s) := by
  induction assets using List.reverseRecOn with
  | nil => exact ⟨once,by simp,by simp⟩
  | append_singleton front asset ih =>
    rw [List.map_append,List.nodup_append] at distinct
    obtain ⟨nodup,listed,known⟩ := ih distinct.1
    have apart : ∀ other ∈ front, other.id ≠ asset.id :=
      fun other inside => distinct.2.2 _ (List.mem_map_of_mem inside) _ (by simp)
    rw [List.foldl_append]
    refine ⟨?_,fun other inside => ?_,fun other inside => ?_⟩
    · rw [List.foldl_cons,List.foldl_nil,listAllAssets_setAsset]
      split
      · exact nodup
      · rename_i absent
        exact List.nodup_append.mpr ⟨nodup,List.nodup_singleton _,fun id inside _ single =>
          List.mem_singleton.mp single ▸ fun same => absent (same ▸ inside)⟩
    · rw [List.foldl_cons,List.foldl_nil,listAllAssets_setAsset]
      split
      · rename_i present
        rcases List.mem_append.mp inside with earlier | last
        · exact listed other earlier
        · exact List.mem_singleton.mp last ▸ present
      · rcases List.mem_append.mp inside with earlier | last
        · exact List.mem_append_left _ (listed other earlier)
        · exact List.mem_append_right _ (by simp [List.mem_singleton.mp last])
    · rw [List.foldl_cons,List.foldl_nil,getAsset_setAsset]
      rcases List.mem_append.mp inside with earlier | last
      · rw [if_neg (apart other earlier)]
        exact known other earlier
      · rw [List.mem_singleton.mp last,if_pos rfl]

structure Registered (roster : Roster) (s : StateManager) : Prop where
  kept : ∀ address, s.base (.bridgeOperator address) = some true ↔ roster.durable address
  shown : ∀ address, s.get (.bridgeOperator address) = some true ↔ roster.current address
  once : ((s.base .assetList).getD []).Nodup
  stocked : Stocked Server.defaultAssets s

def ofOperators : StateKey → Bool
  | .bridgeOperator _ => true
  | _ => false

theorem agree_foldl {α : Type} {keys : StateKey → Bool} {write : StateManager → α → StateManager}
    (each : ∀ s item, StateManager.Agree keys s (write s item)) (items : List α) (s : StateManager) :
    StateManager.Agree keys s (items.foldl write s) := by
  induction items generalizing s with
  | nil => exact .refl _ s
  | cons item rest ih => exact (each s item).trans (ih (write s item))

theorem setAsset_agree (s : StateManager) (asset : Asset) : StateManager.Agree ofOperators s (s.setAsset asset.id asset) := by
  unfold StateManager.setAsset
  dsimp only
  split
  · exact (StateManager.Agree.refl _ s).set rfl
  · exact ((StateManager.Agree.refl _ s).set rfl).set rfl

theorem setBridgeOperator_agree (s : StateManager) (operator : Address) :
    StateManager.Agree (!ofOperators ·) s (s.setBridgeOperator operator true) := (StateManager.Agree.refl _ s).set rfl

theorem get_operators (operators : List Address) (s : StateManager) (address : Address) :
    (operators.foldl (fun s operator => s.setBridgeOperator operator true) s).get (.bridgeOperator address) = some true ↔
      address ∈ operators ∨ s.get (.bridgeOperator address) = some true := by
  induction operators generalizing s with
  | nil => simp
  | cons operator rest ih =>
    refine (ih _).trans ?_
    by_cases same : address = operator
    · subst same
      simp [StateManager.setBridgeOperator,StateManager.get_set_self]
    · simp [StateManager.setBridgeOperator,StateManager.get_set_ne,same]

theorem startServer_registered {db : Db StateKey StateKey.Value B256} {hashOrder : HashOrder} {durable : Address → Prop}
    (dated : (StateManager.new (.new db {}) hashOrder).Dated)
    (kept : ∀ address, (StateManager.new (.new db {}) hashOrder).base (.bridgeOperator address) = some true ↔ durable address)
    (once : (((StateManager.new (.new db {}) hashOrder).base .assetList).getD []).Nodup) (operators : List Address) :
    Registered ⟨durable,fun address => address ∈ operators ∨ durable address⟩
      (startServer db hashOrder operators).node.engine.state := by
  have enrols := startServer_enrols db hashOrder operators
  have bare : ∀ key, (StateManager.new (.new db {}) hashOrder).get key = (StateManager.new (.new db {}) hashOrder).base key := by
    intro key
    rw [StateManager.get_eq,dated.committed_eq]
    rfl
  have stock : Stocked Server.defaultAssets (StateManager.new (.new db {}) hashOrder).initializeAssets :=
    stocked_foldl Server.defaultAssets (by decide) (by rw [StateManager.listAllAssets,bare]; exact once)
  have operatorsOnly : StateManager.Agree ofOperators (.new (.new db {}) hashOrder)
      (StateManager.new (.new db {}) hashOrder).initializeAssets := agree_foldl setAsset_agree _ _
  rw [startServer_state] at enrols ⊢
  generalize (StateManager.new (.new db {}) hashOrder).initializeAssets = stocked at enrols stock operatorsOnly ⊢
  have unbridged : StateManager.Agree (!ofOperators ·) stocked (stocked.initializeBridgeOperators operators) :=
    agree_foldl setBridgeOperator_agree operators stocked
  refine ⟨fun address => ?_,fun address => ?_,?_,?_,fun asset inside => ?_,fun asset inside => ?_⟩
  · rw [enrols.base]
    exact kept address
  · refine (get_operators operators stocked address).trans (or_congr_right ?_)
    rw [operatorsOnly _ rfl,bare]
    exact kept address
  · rw [enrols.base]
    exact once
  · rw [StateManager.listAllAssets,unbridged .assetList rfl]
    exact stock.once
  · rw [StateManager.listAllAssets,unbridged .assetList rfl]
    exact stock.listed asset inside
  · exact (unbridged (.assetInfo asset.id) rfl).trans (stock.known asset inside)

theorem live_registered {roster : Roster} (lasting : Lasting service.node.engine.state)
    (below : marker service.node.engine.state ≤ version) (rising : Rising version (moment :: rest))
    (registered : Registered roster service.node.engine.state) :
    Registered (roster.after moment) (live hasher wire service moment).node.engine.state := by
  rw [Rising] at rising
  cases moment with
  | restart hashOrder operators =>
    exact startServer_registered (lasting.toSound.reopened hashOrder).dated registered.kept registered.once operators
  | request call =>
    have served := @serve_block hasher wire service call
    change match call.block with | none => _ | some block => _ at rising
    change Registered (if call.block.isSome then _ else _) (serve hasher wire service call).2.node.engine.state
    cases commits : call.block with
    | none =>
      rw [commits] at served
      rw [served]
      exact registered
    | some block =>
      rw [commits] at served rising
      obtain ⟨later,plain,_⟩ := rising
      have committed := @executeTxs_committed hasher wire.codec.toCodec service.node block lasting.toSound (below.trans later) plain
      have base : ∀ key : StateKey, key.ofRegistry →
          (service.node.executeTxs hasher wire.codec.toCodec block).2.engine.state.base key = service.node.engine.state.get key := by
        intro key own
        rw [committed.base,execute_registry _ _ _ _ own,lasting.toSound.beginBlock_get (below.trans later)]
      have shown : ∀ key : StateKey, key.ofRegistry →
          (service.node.executeTxs hasher wire.codec.toCodec block).2.engine.state.get key = service.node.engine.state.get key :=
        fun key own => (committed.get key).trans ((committed.base key).symm.trans (base key own))
      rw [served]
      refine ⟨fun address => ?_,fun address => ?_,?_,?_,fun asset inside => ?_,fun asset inside => ?_⟩
      · rw [base _ rfl]
        exact registered.shown address
      · rw [shown _ rfl]
        exact registered.shown address
      · rw [base _ rfl]
        exact registered.stocked.once
      · rw [StateManager.listAllAssets,shown _ rfl]
        exact registered.stocked.once
      · rw [StateManager.listAllAssets,shown _ rfl]
        exact registered.stocked.listed asset inside
      · exact (shown _ rfl).trans (registered.stocked.known asset inside)

theorem run_registered {roster : Roster} (lasting : Lasting service.node.engine.state)
    (below : marker service.node.engine.state ≤ version) (rising : Rising version moments)
    (registered : Registered roster service.node.engine.state) :
    Registered (moments.foldl Roster.after roster) (lifetime hasher wire service moments).node.engine.state := by
  induction moments generalizing service version roster with
  | nil => exact registered
  | cons moment rest ih =>
    obtain ⟨lasts,next,marked,rises⟩ := @live_lasting hasher service wire moment rest version lasting below rising
    exact ih lasts marked rises (live_registered lasting below rising registered)

end Registry

-- Over the whole life of a service, whatever is called and however often it is restarted, as long as heights do
-- not fall and nothing is pruned: what blocks execute of an account carries consecutive nonces from the account's
-- first one on, its nonce is their number further, and no byte string is executed twice.
theorem nonces_spent_once (hasher : TreeHasher StateKey StateKey.Value B256) (wire : Wire)
    (db : Db StateKey StateKey.Value B256) (hashOrder : HashOrder) (operators : List Address)
    (dated : (StateManager.new (.new db {}) hashOrder).Dated) (moments : List Moment)
    (rising : Rising (db.currentVersion.getD 0) moments) (account : Address)
    (fits : (startServer db hashOrder operators).node.engine.state.getNonce account + Moment.load moments < 2 ^ 64 - 1) :
    let service := startServer db hashOrder operators
    let own := (spent hasher wire service moments).filter (·.2.sender = account)
    own.map (·.2.nonce) = List.range' (service.node.engine.state.getNonce account) own.length ∧
      (lifetime hasher wire service moments).node.engine.state.getNonce account =
        service.node.engine.state.getNonce account + own.length ∧
      (own.map (·.1)).Nodup := by
  intro service own
  have begins : marker service.node.engine.state ≤ db.currentVersion.getD 0 := by
    rw [marker,(startServer_enrols db hashOrder operators).db]
    exact Nat.le_refl _
  obtain ⟨nonces,final⟩ := @run_spent hasher service wire moments _ (.started dated operators) begins rising account fits
  refine ⟨nonces,final,?_⟩
  -- The bytes determine the transaction and so its nonce.
  have decoded : own.map (·.2.nonce) = (own.map (·.1)).map fun data =>
      ((Transaction.decode wire.codec.toCodec data).toOption.map Transaction.nonce).getD 0 := by
    rw [List.map_map]
    refine List.map_congr_left fun entry inside => ?_
    simp [decode_of_mem_spent (List.mem_filter.mp inside).1,Except.toOption]
  refine List.Nodup.of_map
    (fun data => ((Transaction.decode wire.codec.toCodec data).toOption.map Transaction.nonce).getD 0) ?_
  rw [← decoded]
  exact nonces ▸ List.nodup_range'

theorem dated_empty : (StateManager.new (.new .empty {}) .keep).Dated := ⟨nofun,fun _ _ _ => rfl,Nat.le_refl _⟩

theorem nonces_spent_once_restarted :
    let moments : List Moment := [.request (.executeTxs ⟨2,[aliceDeposits]⟩),.restart .keep [],
      .request (.executeTxs ⟨3,[aliceDeposits,Bench.written (MempoolCall.Bench.deposit 1 5)]⟩)]
    ((spent contentsHasher trustingWire (startServer .empty .keep []) moments).filter
        (·.2.sender = Bench.alice)).map (·.2.nonce) = [0,1] ∧
      (((spent contentsHasher trustingWire (startServer .empty .keep []) moments).filter
        (·.2.sender = Bench.alice)).map (·.1)).Nodup := by
  intro moments
  have rising : Rising 0 moments := ⟨by decide,by decide,by decide,by decide,trivial⟩
  exact ⟨by decide +kernel,(nonces_spent_once contentsHasher trustingWire .empty .keep [] dated_empty moments rising Bench.alice
    (by decide +kernel)).2.2⟩

theorem isBridgeOperator_iff (s : StateManager) (address : Address) :
    s.isBridgeOperator address = true ↔ s.get (.bridgeOperator address) = some true := by
  rw [StateManager.isBridgeOperator]
  cases s.get (.bridgeOperator address) with
  | none => simp
  | some isOperator => exact Option.some_inj.symm

-- Over the whole life of a service the default assets stay registered, each once and as they were set, and an
-- address is a bridge operator if the database knew it, if the running process was given it, or if an earlier one
-- was and then committed anything: no start takes a right away that was ever written down.
theorem registry_kept (hasher : TreeHasher StateKey StateKey.Value B256) (wire : Wire)
    (db : Db StateKey StateKey.Value B256) (hashOrder : HashOrder) (operators : List Address)
    (dated : (StateManager.new (.new db {}) hashOrder).Dated)
    (once : (StateManager.new (.new db {}) hashOrder).listAllAssets.Nodup) (moments : List Moment)
    (rising : Rising (db.currentVersion.getD 0) moments) :
    let opened := StateManager.new (.new db {}) hashOrder
    let last := (lifetime hasher wire (startServer db hashOrder operators) moments).node.engine.state
    let roster := moments.foldl Roster.after ⟨(opened.isBridgeOperator ·),
      fun address => address ∈ operators ∨ opened.isBridgeOperator address⟩
    (∀ address, last.isBridgeOperator address ↔ roster.current address) ∧
      ∀ asset ∈ Server.defaultAssets, last.listAllAssets.count asset.id = 1 ∧ last.getAsset asset.id = some asset := by
  intro opened last roster
  have begins : marker (startServer db hashOrder operators).node.engine.state ≤ db.currentVersion.getD 0 := by
    rw [marker,(startServer_enrols db hashOrder operators).db]
    exact Nat.le_refl _
  have bare : ∀ key, opened.base key = opened.get key := by
    intro key
    rw [StateManager.get_eq,dated.committed_eq]
    rfl
  have registered : Registered roster last := by
    refine run_registered (.started dated operators) begins rising (startServer_registered dated (fun address => ?_) ?_ operators)
    · exact (Eq.congr_left (bare _)).trans (isBridgeOperator_iff opened address).symm
    · rw [bare]
      exact once
  refine ⟨fun address => (isBridgeOperator_iff last address).trans (registered.shown address),fun asset inside => ?_⟩
  exact ⟨List.count_eq_one_of_mem registered.stocked.once (registered.stocked.listed asset inside),
    registered.stocked.known asset inside⟩

theorem registry_kept_unnamed :
    let moments : List Moment := [.request (.executeTxs ⟨2,[]⟩),.restart .keep []]
    (lifetime contentsHasher trustingWire (startServer .empty .keep [Bench.bob]) moments).node.engine.state.isBridgeOperator
        Bench.bob = true ∧
      ∀ asset ∈ Server.defaultAssets, (lifetime contentsHasher trustingWire (startServer .empty .keep [Bench.bob])
        moments).node.engine.state.getAsset asset.id = some asset := by
  intro moments
  have rising : Rising 0 moments := ⟨by decide,by decide,trivial⟩
  obtain ⟨operators,assets⟩ := registry_kept contentsHasher trustingWire .empty .keep [Bench.bob] dated_empty List.nodup_nil
    moments rising
  exact ⟨(operators Bench.bob).mpr (.inr (.inl (by decide))),fun asset inside => (assets asset inside).2⟩

section Book
variable {service : PranklinExecutorService} {wire : Wire} {version : Nat} {e after : Engine}

theorem reachable_rebased (reached : Reachable e) (reads : ∀ key, after.state.get key = e.state.get key)
    (orderbook : after.orderbook = e.orderbook) (borrowed : after.borrowed = e.borrowed) : Reachable after :=
  reached.elsewhere ⟨fun key _ => reads key,orderbook,borrowed⟩

theorem startServer_reachable {db : Db StateKey StateKey.Value B256} {hashOrder : HashOrder}
    (empty : (StateManager.new (.new db {}) hashOrder).NoOrders) (operators : List Address) :
    Reachable (startServer db hashOrder operators).node.engine := by
  have listed : ∀ s (asset : Asset), StateManager.Agree StateKey.ofOrders s (s.setAsset asset.id asset) := by
    intro s asset
    unfold StateManager.setAsset
    dsimp only
    split
    · exact (StateManager.Agree.refl _ s).set rfl
    · exact ((StateManager.Agree.refl _ s).set rfl).set rfl
  have named : ∀ s operator, StateManager.Agree StateKey.ofOrders s (s.setBridgeOperator operator true) :=
    fun s operator => (StateManager.Agree.refl _ s).set rfl
  have spared : StateManager.Agree StateKey.ofOrders (.new (.new db {}) hashOrder)
      (startServer db hashOrder operators).node.engine.state := by
    have assets : ∀ s : StateManager, StateManager.Agree StateKey.ofOrders s s.initializeAssets := agree_foldl listed _
    have bridge : ∀ s : StateManager, StateManager.Agree StateKey.ofOrders s (s.initializeBridgeOperators operators) :=
      agree_foldl named operators
    rw [startServer_state]
    exact (assets _).trans (bridge _)
  exact (Reachable.start empty).elsewhere ⟨spared,rfl,rfl⟩

theorem executeTxs_reachable (sound : Sound node.engine.state) (later : marker node.engine.state ≤ block.height)
    (plain : prunes {} block.height = false) (reached : Reachable node.engine) :
    Reachable (node.executeTxs hasher codec block).2.engine := by
  have begun : Reachable {node.engine with state:=node.engine.state.beginBlock block.height} :=
    reachable_rebased reached (sound.beginBlock_get later) rfl rfl
  have executed : Reachable (node.execute codec block).engine :=
    execute_keeps (fun tx _ => ReplicaSync.payload_reachable tx)
      (fun e sender reached => reached.elsewhere ⟨(StateManager.Agree.refl _ e.state).set rfl,rfl,rfl⟩) begun
  exact reachable_rebased executed (executeTxs_committed sound later plain).get rfl rfl

theorem run_reachable (requests : List Request) (lasting : Lasting service.node.engine.state)
    (below : marker service.node.engine.state ≤ version) (rising : Rising version (requests.map .request))
    (reached : Reachable service.node.engine) :
    Lasting (run hasher wire service requests).node.engine.state ∧ Reachable (run hasher wire service requests).node.engine := by
  induction requests generalizing service version with
  | nil => exact ⟨lasting,reached⟩
  | cons request rest ih =>
    obtain ⟨lasts,next,marked,rises⟩ := @live_lasting hasher service wire (.request request) (rest.map .request) version
      lasting below rising
    refine ih lasts marked rises ?_
    have served := @serve_block hasher wire service request
    rw [List.map_cons,Rising] at rising
    change match request.block with | none => _ | some block => _ at rising
    cases commits : request.block with
    | none =>
      rw [commits] at served
      rwa [served]
    | some block =>
      rw [commits] at served rising
      rw [served]
      exact executeTxs_reachable lasting.toSound (below.trans rising.1) rising.2.1 reached

theorem mem_activeOrders {d : Desk} {ledger : Ledger} (shown : Represents d ledger) (marketId orderId : Nat) :
    orderId ∈ d.state.getActiveOrdersByMarket marketId ↔
      ∃ order, d.state.getOrder orderId = some order ∧ order.marketId = marketId ∧ order.status = .active := by
  rw [shown.listed]
  constructor
  · intro inside
    obtain ⟨order,chosen,rfl⟩ := List.mem_map.mp inside
    obtain ⟨member,market⟩ := List.mem_filter.mp chosen
    exact ⟨order,shown.stored order member,of_decide_eq_true market,(shown.live order member).1⟩
  · rintro ⟨order,found,market,active⟩
    obtain ⟨rfl,_,inside⟩ := shown.complete orderId order found
    exact List.mem_map_of_mem (List.mem_filter.mpr ⟨inside active,decide_eq_true market⟩)

end Book

-- A service that has started on a database without orders keeps its book over any requests, of the sequencer and
-- of clients, as long as heights do not fall and nothing is pruned. Seen from whatever block comes next, the queues
-- hold the active orders in state, each once, as the active lists do, and where bids and asks cross they have one owner.
theorem book_kept (hasher : TreeHasher StateKey StateKey.Value B256) (wire : Wire)
    (db : Db StateKey StateKey.Value B256) (hashOrder : HashOrder) (operators : List Address)
    (dated : (StateManager.new (.new db {}) hashOrder).Dated) (empty : (StateManager.new (.new db {}) hashOrder).NoOrders)
    (requests : List Request) (rising : Rising (db.currentVersion.getD 0) (requests.map .request)) (height : Nat)
    (next : (run hasher wire (startServer db hashOrder operators) requests).node.engine.state.version ≤ height) :
    let last := (run hasher wire (startServer db hashOrder operators) requests).node.engine
    let e := {last with state:=last.state.beginBlock height}
    (∀ slot orderId, orderId ∈ e.desk.queue slot ↔
        ∃ order, e.state.getOrder orderId = some order ∧ order.slot = slot ∧ order.status = .active) ∧
      (∀ slot, (e.desk.queue slot).Nodup) ∧
      (∀ marketId orderId, orderId ∈ e.state.getActiveOrdersByMarket marketId ↔
        ∃ order, e.state.getOrder orderId = some order ∧ order.marketId = marketId ∧ order.status = .active) ∧
      ∀ marketId bidPrice askPrice bidId askId, bidId ∈ e.desk.queue ⟨marketId,true,bidPrice⟩ →
        askId ∈ e.desk.queue ⟨marketId,false,askPrice⟩ → askPrice ≤ bidPrice →
        ∃ bid ask, e.state.getOrder bidId = some bid ∧ e.state.getOrder askId = some ask ∧ bid.owner = ask.owner := by
  intro last e
  have begins : marker (startServer db hashOrder operators).node.engine.state ≤ db.currentVersion.getD 0 := by
    rw [marker,(startServer_enrols db hashOrder operators).db]
    exact Nat.le_refl _
  obtain ⟨lasting,reached⟩ := @run_reachable hasher _ wire _ requests (.started dated operators) begins rising
    (startServer_reachable empty operators)
  have begun : Reachable e :=
    reachable_rebased reached (lasting.toSound.beginBlock_get (lasting.dated.marker.trans next)) rfl rfl
  obtain ⟨ledger,shown⟩ := Atomicity.reachable_represents begun
  refine ⟨shown.toQueued.queues,shown.toQueued.once,mem_activeOrders shown,?_⟩
  intro marketId bidPrice askPrice bidId askId bids asks cross
  obtain ⟨bid,bidFound,bidSlot,bidActive⟩ := (shown.toQueued.queues _ bidId).mp bids
  obtain ⟨ask,askFound,askSlot,askActive⟩ := (shown.toQueued.queues _ askId).mp asks
  obtain ⟨rfl,buys,rfl⟩ := Slot.mk.inj bidSlot
  obtain ⟨market,sells,rfl⟩ := Slot.mk.inj askSlot
  exact ⟨bid,ask,bidFound,askFound,Crossing.reachable_uncrossed begun bidId bid askId ask bidFound askFound bidActive askActive
    buys sells market.symm cross⟩

namespace Bench

def listed : StateManager := (Pranklin.Bench.state.commit contentsHasher).2

theorem listed_sound : Sound listed ∧ ∀ key, listed.base key = Pranklin.Bench.state.get key := by
  have dated : Pranklin.Bench.state.Dated := ⟨nofun,fun _ _ _ => rfl,Nat.le_refl _⟩
  obtain ⟨after,base⟩ := @StateManager.Dated.commit _ contentsHasher dated rfl
  exact ⟨⟨after,rfl⟩,base⟩

theorem listed_noOrders : (StateManager.new (.new listed.storage.db {}) .keep).NoOrders := by
  obtain ⟨sound,base⟩ := listed_sound
  have reads : ∀ key : StateKey, key.ofOrders || key.ofPositions → (StateManager.new (.new listed.storage.db {}) .keep).get key = none := by
    intro key chosen
    rw [(sound.reopened .keep).get_eq]
    exact (base key).trans (Pranklin.Bench.reads_none key chosen)
  refine ⟨fun orderId => reads _ rfl,fun marketId => ?_⟩
  rw [StateManager.getActiveOrdersByMarket,reads (.activeOrderList marketId) rfl]
  rfl

def placed (sender : Address) (order : PlaceOrderTx) : List UInt8 :=
  Pranklin.Bench.written {Nonces.deposit 0 with sender:=sender,payload:=.placeOrder order}

def orders : List Request :=
  [.executeTxs ⟨2,[placed Pranklin.Bench.alice Pranklin.Bench.ask,placed Pranklin.Bench.carol Pranklin.Bench.ask]⟩,
    .initChain "pranklin" 2,.executeTxs ⟨3,[placed Pranklin.Bench.bob Pranklin.Bench.bid]⟩]

end Bench

theorem book_kept_second_ask :
    1 ∈ {(run contentsHasher trustingWire (startServer Bench.listed.storage.db .keep []) Bench.orders).node.engine with
      state:=(run contentsHasher trustingWire (startServer Bench.listed.storage.db .keep [])
        Bench.orders).node.engine.state.beginBlock 4}.desk.queue ⟨0,false,100⟩ ∧
      ∃ order, ((run contentsHasher trustingWire (startServer Bench.listed.storage.db .keep [])
        Bench.orders).node.engine.state.beginBlock 4).getOrder 1 = some order ∧ order.status = .active := by
  have rising : Rising 0 (Bench.orders.map .request) :=
    ⟨by decide,by decide,by decide,by decide,by decide,by decide,trivial⟩
  have later : (run contentsHasher trustingWire (startServer Bench.listed.storage.db .keep [])
      Bench.orders).node.engine.state.version ≤ 4 := by decide +kernel
  have rests : 1 ∈ {(run contentsHasher trustingWire (startServer Bench.listed.storage.db .keep []) Bench.orders).node.engine with
      state:=(run contentsHasher trustingWire (startServer Bench.listed.storage.db .keep [])
        Bench.orders).node.engine.state.beginBlock 4}.desk.queue ⟨0,false,100⟩ := by decide +kernel
  have kept := (book_kept contentsHasher trustingWire Bench.listed.storage.db .keep []
    (Bench.listed_sound.1.reopened .keep).dated Bench.listed_noOrders Bench.orders rising 4 later).1
  obtain ⟨order,found,_,active⟩ := (kept ⟨0,false,100⟩ 1).mp rests
  exact ⟨rests,order,found,active⟩

end Lifetime
end Pranklin
