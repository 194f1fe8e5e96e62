import Pranklin.Locking
import Pranklin.Service

namespace Pranklin
open Locking TransactionExecutor Storage Effect

-- The locks that the handlers share, in the order in which a block takes them.
inductive Lock where
  | engine
  | auth
  | mempool
  | snapshotExporter
deriving DecidableEq

namespace Lock

def rank : Lock → Nat
  | .engine => 0
  | .auth => 1
  | .mempool => 2
  | .snapshotExporter => 3

-- The exporter is only cloned.
abbrev Data : Lock → Type
  | .engine => Engine
  | .auth => AgentRegistry
  | .mempool => Mempool
  | .snapshotExporter => Unit

end Lock

structure Progress where
  stats : TxExecutionStats := {}
  response : Option (Except ServiceError Response) := none

def Progress.answered (progress : Progress) (response : Except ServiceError Response) : Progress :=
  {progress with response:=some response}

namespace PranklinExecutorService

def cells (service : PranklinExecutorService) : Store Lock.Data
  | .engine => service.node.engine
  | .auth => service.node.auth
  | .mempool => service.mempool
  | .snapshotExporter => ()

end PranklinExecutorService

namespace Handlers
open PranklinExecutorService

abbrev Program := List (Op Lock.Data Progress)

def answering (response : Except ServiceError Response) : Op Lock.Data Progress := .act (.think (·.answered response))

def peeking (lock : Lock) (answer : lock.Data → Response) : Program :=
  [.acquire lock .read,.act (.peek lock fun progress data => progress.answered (.ok (answer data))),.release lock]

def altering (lock : Lock) (call : lock.Data → Except ServiceError Response × lock.Data) : Program :=
  [.acquire lock .write,
    .act (.alter lock fun progress data => (progress.answered (call data).1,(call data).2)),
    .release lock]

def executing (wire : Wire) (data : List UInt8) : Act Lock.Data Progress where
  uses := [.engine,.auth,.mempool]
  writes := [.engine,.auth,.mempool]
  run progress store :=
    let (result,node,pool) := executePooled wire.codec.toCodec wire.hash data ⟨store .engine,store .auth⟩ (store .mempool)
    let stats := match result with
      | .ok _ => {progress.stats with successful:=progress.stats.successful + 1}
      | .error _ => {progress.stats with failed:=progress.stats.failed + 1}
    ({progress with stats:=stats},fun
      | .engine => node.engine
      | .auth => node.auth
      | .mempool => pool
      | .snapshotExporter => store .snapshotExporter)
  frame _ store lock outside := by cases lock <;> simp at outside ⊢
  blind progress one other same := by
    have engine := same .engine (by simp)
    have auth := same .auth (by simp)
    have mempool := same .mempool (by simp)
    simp [engine,auth,mempool]

section Programs
variable (hasher : TreeHasher StateKey StateKey.Value B256) (wire : Wire) (maxBytes : Nat) (exporter : Bool)

-- A text that holds a transaction is followed by a look at the lock of the agents, for the
-- check of the signature.
def checking (tx : String) : Program :=
  match Rpc.decodeHexTx wire.codec tx with
  | .error _ => []
  | .ok bytes =>
    match Transaction.decode wire.codec.toCodec bytes with
    | .error _ => []
    | .ok _ => [.acquire .auth .read,.release .auth]

def beginning (height : Nat) : Act Lock.Data Progress :=
  .alter .engine fun progress engine => (progress,{engine with state:=engine.state.beginBlock height})

def committing (response : Progress → B256 → Response) : Act Lock.Data Progress :=
  .alter .engine fun progress engine =>
    let (root,state) := engine.state.commit hasher
    (progress.answered (.ok (response progress root)),{engine with state:=state})

-- The guards of a block are dropped from the last to the first.
def closing : Program := [.release .mempool,.release .auth,.release .engine]

def onAgents (call : Eff AgentRegistry ε Unit) (refusal : ε → ServiceError) : Program :=
  altering .auth fun agents =>
    match Effect.exec call agents with
    | (.ok _,agents) => (.ok .success,agents)
    | (.error error,agents) => (.error (refusal error),agents)

def handler : Request → Program
  | .initChain chainId initialHeight =>
    match validateInitChain chainId initialHeight with
    | .error error => [answering (.error error)]
    | .ok height => [.acquire .engine .write,.act (beginning height),
        .act (committing hasher fun _ root => .initChain root maxBytes),.release .engine]
  | .getTxs order => peeking .mempool fun pool => .getTxs (Server.fetchTxsAlong wire.encode maxBytes pool order)
  | .executeTxs block =>
    [.acquire .engine .write,.acquire .auth .write,.acquire .mempool .write,.act (beginning block.height)] ++
      (block.txs.map (executing wire)).map Op.act ++
      [.act (committing hasher fun progress root => .executeTxs progress.stats root maxBytes)] ++
      (if exporter then [.acquire .snapshotExporter .write,.release .snapshotExporter] else []) ++
      closing
  | .setFinal _ => [answering (.ok .setFinal)]
  | .submitTransaction tx => checking wire tx ++
    match Rpc.decodeAndVerifyTx wire.codec tx with
    | .error error => [answering (.error (.rpc error))]
    | .ok tx => altering .mempool fun pool =>
      match pool.add wire.hash tx with
      | (.error error,pool) => (.error (.mempoolError ("Failed to add to mempool: " ++ mempoolErrorText wire error)),pool)
      | (.ok _,pool) => (.ok (.submitted (wire.hash tx)),pool)
  | .getTransactionStatus txHash => peeking .mempool fun pool =>
    if (pool.get txHash).isSome then .status txHash "pending" none
    else .status txHash "not_found" (some "Transaction not found")
  | .query (.getPositions _) => [answering (.ok (.answer (.positions [])))]
  | .query (.listOrders _ _) => [answering (.ok (.answer (.orders [])))]
  | .query (.listAgents _) => [answering (.ok (.answer (.agents [])))]
  | .query query => peeking .engine fun engine => .answer (query.answer engine.state)
  | .setAgent tx => checking wire tx ++
    match Rpc.decodeAndVerifyTx wire.codec tx with
    | .error error => [answering (.error (.rpc error))]
    | .ok _ => onAgents (Rpc.setAgent wire.codec tx) .rpc
  | .removeAgent tx => checking wire tx ++
    match Rpc.decodeAndVerifyTx wire.codec tx with
    | .error error => [answering (.error (.rpc error))]
    | .ok _ => onAgents (Rpc.removeAgent wire.codec tx) .rpc
  | .nominateAgent nomination signature domain =>
    onAgents (AuthService.nominateAgent wire.codec nomination signature domain) .auth

end Programs

-- Every handler takes the locks in one order and keeps those it works under to its last act.
section Discipline
variable {hasher : TreeHasher StateKey StateKey.Value B256} {wire : Wire} {maxBytes : Nat} {exporter : Bool}

theorem peeking_sound (lock : Lock) (answer : lock.Data → Response) :
    Sound Lock.rank (fun _ => none) False (peeking lock answer) := by
  simp [peeking,Sound,Act.peek,acts,Function.update_apply]

theorem altering_sound (lock : Lock) (call : lock.Data → Except ServiceError Response × lock.Data) :
    Sound Lock.rank (fun _ => none) False (altering lock call) := by
  simp [altering,Sound,Act.alter,acts,Function.update_apply]

theorem answering_sound (response : Except ServiceError Response) :
    Sound Lock.rank (fun _ => none) False [answering response] := by
  simp [answering,Sound,Act.think]

theorem checking_sound (tx : String) {rest : Program} (sound : Sound Lock.rank (fun _ => none) False rest) :
    Sound Lock.rank (fun _ => none) False (checking wire tx ++ rest) := by
  unfold checking
  split
  · exact sound
  · split
    · exact sound
    · simpa [Sound,Function.update_idem,Function.update_eq_self] using sound

theorem closing_sound {held : Lock → Option Mode} {begun : Prop} (engine : held .engine ≠ none) (auth : held .auth ≠ none)
    (mempool : held .mempool ≠ none) (exporter : held .snapshotExporter = none) :
    Sound Lock.rank held begun closing := by
  refine ⟨mempool,fun _ => rfl,by simpa using auth,fun _ => rfl,by simpa using engine,fun _ => rfl,fun lock => ?_⟩
  cases lock <;> simp [exporter]

theorem handler_sound (request : Request) :
    Sound Lock.rank (fun _ => none) False (handler hasher wire maxBytes exporter request) := by
  cases request with
  | initChain chainId initialHeight =>
    rw [handler]
    split
    · exact answering_sound _
    · simp [Sound,beginning,committing,Act.alter,acts,Function.update_apply]
  | getTxs order => exact peeking_sound _ _
  | executeTxs block =>
    rw [handler]
    simp only [List.cons_append,List.nil_append,List.append_assoc]
    refine ⟨by simp,fun lock locked => ?_,fun lock locked => ?_,?_,?_,Sound.after_acts ?_ ⟨?_,?_,?_⟩⟩
    · cases lock <;> simp [Lock.rank] at locked ⊢
    · cases lock <;> simp [Lock.rank] at locked ⊢
    · simp [beginning,Act.alter]
    · simp [beginning,Act.alter]
    · simp [Covered,executing]
    · simp [committing,Act.alter]
    · simp [committing,Act.alter]
    · cases exporter with
      | false => exact closing_sound (by simp) (by simp) (by simp) (by simp)
      | true =>
        refine ⟨fun lock locked => ?_,by simp,fun _ => rfl,closing_sound (by simp) (by simp) (by simp) (by simp)⟩
        cases lock <;> simp [Lock.rank] at locked ⊢
  | setFinal blockHeight => exact answering_sound _
  | submitTransaction tx =>
    refine checking_sound tx ?_
    split
    · exact answering_sound _
    · exact altering_sound _ _
  | getTransactionStatus txHash => exact peeking_sound _ _
  | query query =>
    cases query <;> first | exact answering_sound _ | exact peeking_sound _ _
  | setAgent tx | removeAgent tx =>
    refine checking_sound tx ?_
    split
    · exact answering_sound _
    · exact altering_sound _ _
  | nominateAgent nomination signature domain => exact altering_sound _ _

end Discipline

section Meaning
variable {hasher : TreeHasher StateKey StateKey.Value B256} {wire : Wire} {service : PranklinExecutorService} {exporter : Bool}

def Serves (past : List (Act Lock.Data Progress)) (service : PranklinExecutorService)
    (served : Except ServiceError Response × PranklinExecutorService) : Prop :=
  (perform past ({},cells service)).1.response = some served.1 ∧ (perform past ({},cells service)).2 = cells served.2

theorem update_engine (engine : Engine) :
    Function.update (cells service) .engine engine = cells {service with node:={service.node with engine:=engine}} := by
  funext lock
  cases lock <;> rfl

theorem update_auth (agents : AgentRegistry) :
    Function.update (cells service) .auth agents = cells {service with node:={service.node with auth:=agents}} := by
  funext lock
  cases lock <;> rfl

theorem update_mempool (pool : Mempool) :
    Function.update (cells service) .mempool pool = cells {service with mempool:=pool} := by
  funext lock
  cases lock <;> rfl

theorem beginning_run (height : Nat) (progress : Progress) : (beginning height).run progress (cells service) =
    (progress,cells {service with node:={service.node with
      engine:={service.node.engine with state:=service.node.engine.state.beginBlock height}}}) :=
  Prod.ext rfl (update_engine _)

theorem committing_run (response : Progress → B256 → Response) (progress : Progress) :
    (committing hasher response).run progress (cells service) =
      (progress.answered (.ok (response progress (service.node.engine.state.commit hasher).1)),
        cells {service with node:={service.node with
          engine:={service.node.engine with state:=(service.node.engine.state.commit hasher).2}}}) :=
  Prod.ext rfl (update_engine _)

theorem checking_acts (tx : String) : acts (checking wire tx) = [] := by
  unfold checking
  split
  · rfl
  · split <;> rfl

theorem altering_performs (lock : Lock) (call : lock.Data → Except ServiceError Response × lock.Data) (progress : Progress)
    (store : Store Lock.Data) : perform (acts (altering lock call)) (progress,store) =
      (progress.answered (call (store lock)).1,Function.update store lock (call (store lock)).2) := rfl

theorem onAgents_serves {ε : Type} (call : Eff AgentRegistry ε Unit) (refusal : ε → ServiceError) :
    Serves (acts (onAgents call refusal)) service (PranklinExecutorService.onAgents service call refusal) := by
  rw [PranklinExecutorService.onAgents]
  cases called : exec call service.node.auth with
  | mk result agents =>
    have altered : perform (acts (onAgents call refusal)) ({},cells service) = _ := altering_performs .auth _ _ _
    rw [Serves,altered]
    cases result <;> simp [cells,called,Progress.answered,← update_auth]

theorem executing_serves (txs : List (List UInt8)) (progress : Progress) :
    perform (txs.map (executing wire)) (progress,cells service) =
      let (stats,node,pool) := executeBatchPooled wire.codec.toCodec wire.hash progress.stats service.node service.mempool txs
      ({progress with stats:=stats},cells {service with node:=node,mempool:=pool}) := by
  induction txs generalizing progress service with
  | nil => rfl
  | cons data rest ih =>
    have first : (executing wire data).run progress (cells service) =
        let (result,node,pool) := executePooled wire.codec.toCodec wire.hash data service.node service.mempool
        let stats := match result with
          | .ok _ => {progress.stats with successful:=progress.stats.successful + 1}
          | .error _ => {progress.stats with failed:=progress.stats.failed + 1}
        ({progress with stats:=stats},cells {service with node:=node,mempool:=pool}) := by
      refine Prod.ext rfl ?_
      funext lock
      cases lock <;> rfl
    have later : perform ((data :: rest).map (executing wire)) (progress,cells service) =
      perform (rest.map (executing wire)) ((executing wire data).run progress (cells service)) := rfl
    rw [later,first,executeBatchPooled]
    rcases executePooled wire.codec.toCodec wire.hash data service.node service.mempool with ⟨result | result,node,pool⟩
    · exact @ih {service with node:=node,mempool:=pool} _
    · exact @ih {service with node:=node,mempool:=pool} _

theorem handler_serves (request : Request) :
    Serves (acts (handler hasher wire service.maxBytes exporter request)) service (serve hasher wire service request) := by
  cases request with
  | initChain chainId initialHeight =>
    rw [handler,serve,initChain]
    cases validateInitChain chainId initialHeight with
    | error error => exact ⟨rfl,rfl⟩
    | ok height => simp [Serves,acts,perform,beginning_run,committing_run,Progress.answered]
  | getTxs order => exact ⟨rfl,rfl⟩
  | executeTxs block =>
    have performed := @executing_serves wire {service with node:={service.node with
      engine:={service.node.engine with state:=service.node.engine.state.beginBlock block.height}}} block.txs {}
    have locking : acts (if exporter then [.acquire .snapshotExporter .write,.release .snapshotExporter] else [] : Program) = [] := by
      cases exporter <;> rfl
    rw [handler,serve,executeTxs,Serves]
    simp only [acts_append,acts_map,acts,locking,closing,perform_append,List.append_nil]
    have begun : perform [beginning block.height] ({},cells service) = _ := beginning_run block.height {}
    rw [begun,performed]
    dsimp only
    rcases executeBatchPooled wire.codec.toCodec wire.hash {} {service.node with
      engine:={service.node.engine with state:=service.node.engine.state.beginBlock block.height}} service.mempool block.txs with
      ⟨stats,node,pool⟩
    have committed := @committing_run hasher {service with node:=node,mempool:=pool}
      (fun progress root => .executeTxs progress.stats root service.maxBytes) {stats:=stats}
    simp [perform,committed,Progress.answered]
  | setFinal blockHeight => exact ⟨rfl,rfl⟩
  | submitTransaction tx =>
    rw [handler,serve,submitTransaction,acts_append,checking_acts,List.nil_append]
    cases Rpc.decodeAndVerifyTx wire.codec tx with
    | error error => exact ⟨rfl,rfl⟩
    | ok tx =>
      dsimp only
      rw [Serves,altering_performs]
      cases called : service.mempool.add wire.hash tx with
      | mk result pool => cases result <;> simp [cells,called,Progress.answered,← update_mempool]
  | getTransactionStatus txHash =>
    exact ⟨rfl,rfl⟩
  | query query =>
    cases query <;> exact ⟨rfl,rfl⟩
  | setAgent tx =>
    rw [handler,serve,acts_append,checking_acts,List.nil_append]
    cases decoded : Rpc.decodeAndVerifyTx wire.codec tx with
    | error error =>
      rw [PranklinExecutorService.onAgents,Rpc.setAgent,exec_bind,exec_tries,decoded]
      exact ⟨rfl,rfl⟩
    | ok tx => exact onAgents_serves _ _
  | removeAgent tx =>
    rw [handler,serve,acts_append,checking_acts,List.nil_append]
    cases decoded : Rpc.decodeAndVerifyTx wire.codec tx with
    | error error =>
      rw [PranklinExecutorService.onAgents,Rpc.removeAgent,exec_bind,exec_tries,decoded]
      exact ⟨rfl,rfl⟩
    | ok tx => exact onAgents_serves _ _
  | nominateAgent nomination signature domain => exact onAgents_serves _ _

theorem serve_maxBytes (request : Request) : (serve hasher wire service request).2.maxBytes = service.maxBytes := by
  have agents : ∀ {ε : Type} (call : Eff AgentRegistry ε Unit) (refusal : ε → ServiceError),
      (PranklinExecutorService.onAgents service call refusal).2.maxBytes = service.maxBytes := by
    intro ε call refusal
    rw [onAgents_after]
  cases request with
  | initChain chainId initialHeight =>
    rw [serve,initChain]
    split <;> rfl
  | submitTransaction tx =>
    rw [serve,submitTransaction]
    split
    · rfl
    · split <;> rfl
  | setAgent tx | removeAgent tx => exact agents _ _
  | nominateAgent nomination signature domain => exact agents _ _
  | getTxs order | executeTxs block | setFinal blockHeight | getTransactionStatus txHash | query query => rfl

theorem run_maxBytes (requests : List Request) : (run hasher wire service requests).maxBytes = service.maxBytes := by
  induction requests generalizing service with
  | nil => rfl
  | cons request rest ih => exact (@ih (serve hasher wire service request).2).trans (serve_maxBytes request)

theorem handler_works (request : Request) : acts (handler hasher wire service.maxBytes exporter request) ≠ [] := by
  intro idle
  have served := (@handler_serves hasher wire service exporter request).1
  rw [idle] at served
  cases served

theorem serial_cells {ι : Type} (requests : ι → Request) (order : List ι) :
    serial (fun i => handler hasher wire service.maxBytes exporter (requests i)) (fun _ => {}) (cells service) order =
      cells (run hasher wire service (order.map requests)) := by
  induction order generalizing service with
  | nil => rfl
  | cons i rest ih =>
    have first := (@handler_serves hasher wire service exporter (requests i)).2
    have later := @ih (serve hasher wire service (requests i)).2
    rw [serve_maxBytes,← first] at later
    exact later

end Meaning

section Interleavings
variable {ι : Type} [DecidableEq ι]

def begin (hasher : TreeHasher StateKey StateKey.Value B256) (wire : Wire) (exporter : Bool)
    (service : PranklinExecutorService) (requests : ι → Request) : System ι Lock.Data Progress :=
  .begin (fun i => handler hasher wire service.maxBytes exporter (requests i)) (fun _ => {}) (cells service)

-- Handlers that run at the same time answer and leave behind what the service does on the same requests,
-- one after another, in one order; those that have done their work at any moment are how it begins. So no
-- answer shows a block halfway, and who begins after an answer was given comes after it.
theorem handlers_serial (hasher : TreeHasher StateKey StateKey.Value B256) (wire : Wire) (exporter : Bool)
    (service : PranklinExecutorService) (requests : ι → Request) (states : Nat → System ι Lock.Data Progress) (n : Nat)
    (first : states 0 = begin hasher wire exporter service requests) (steps : ∀ k < n, Locking.Step (states k) (states (k + 1)))
    (done : (states n).Done) :
    ∃ order : List ι, order.Nodup ∧ (∀ i, i ∈ order) ∧ (states n).store = cells (run hasher wire service (order.map requests)) ∧
      (∀ front i back, order = front ++ i :: back → ((states n).tasks i).note.response =
        some (serve hasher wire (run hasher wire service (front.map requests)) (requests i)).1) ∧
      (∀ k ≤ n, ∃ finished, finished <+: order ∧ ∀ i, i ∈ finished ↔ acts ((states k).tasks i).todo = []) ∧
      ∀ k ≤ n, ∀ i j, acts ((states k).tasks i).todo = [] → acts ((states k).tasks j).todo ≠ [] →
        order.idxOf i < order.idxOf j := by
  obtain ⟨order,distinct,all,stored,noted,initial⟩ :=
    run_serial (fun i => handler_sound (requests i)) (fun i => handler_works (requests i)) first steps done
  refine ⟨order,distinct,all,stored.trans (serial_cells _ _),fun front i back split => ?_,initial,fun k below i j complete busy => ?_⟩
  · have served := (@handler_serves hasher wire (run hasher wire service (front.map requests)) exporter (requests i)).1
    rw [run_maxBytes] at served
    rw [noted front i back split,serial_cells]
    exact served
  · obtain ⟨finished,front,settled⟩ := initial k below
    exact prefix_before front ((settled i).mpr complete) fun inside => busy ((settled j).mp inside)

def depositAndLook : Bool → Request
  | true => .executeTxs ⟨2,[aliceDeposits]⟩
  | false => .query (.getBalance Bench.alice 0)

theorem handlers_serial_looks :
    ∃ (states : Nat → System Bool Lock.Data Progress) (n : Nat),
      states 0 = begin contentsHasher trustingWire true freshService depositAndLook ∧
      (∀ k < n, Locking.Step (states k) (states (k + 1))) ∧ (states n).Done ∧
      (((states n).tasks false).note.response = some (.ok (.answer (.balance 0))) ∨
        ((states n).tasks false).note.response = some (.ok (.answer (.balance 5)))) := by
  have orderly : Orderly Lock.rank _ (begin contentsHasher trustingWire true freshService depositAndLook) :=
    orderly_begin fun i => handler_sound (depositAndLook i)
  obtain ⟨last,run,done⟩ := orderly.finishes
  obtain ⟨states,n,first,rfl,steps⟩ := exists_states run
  obtain ⟨order,distinct,all,_,answers,_⟩ :=
    handlers_serial contentsHasher trustingWire true freshService depositAndLook states n first steps done
  refine ⟨states,n,first,steps,done,?_⟩
  obtain ⟨front,back,split⟩ := List.append_of_mem (all false)
  rw [answers front false back split]
  rw [split] at distinct
  match front with
  | [] => exact .inl rfl
  | [true] => exact .inr (by decide +kernel)
  | true :: true :: rest | true :: false :: rest | false :: rest => simp at distinct

theorem handlers_finish [Fintype ι] (hasher : TreeHasher StateKey StateKey.Value B256) (wire : Wire) (exporter : Bool)
    (service : PranklinExecutorService) (requests : ι → Request) (states : Nat → System ι Lock.Data Progress) (n : Nat)
    (first : states 0 = begin hasher wire exporter service requests) (steps : ∀ k < n, Locking.Step (states k) (states (k + 1))) :
    n ≤ ∑ i, 2 * (handler hasher wire service.maxBytes exporter (requests i)).length ∧
      ((∀ next, ¬Locking.Step (states n) next) → (states n).Done) ∧
      ∃ last, Relation.ReflTransGen Locking.Step (states n) last ∧ last.Done := by
  obtain ⟨orderly,_⟩ := run_explains (fun i => handler_sound (requests i)) (fun i => handler_works (requests i)) first steps
  refine ⟨?_,fun stuck => ?_,orderly.finishes⟩
  · have bounded := run_bounded steps
    rw [first] at bounded
    exact (Nat.le_of_add_right_le bounded).trans left_begin
  · by_contra unfinished
    obtain ⟨next,step⟩ := orderly.progress unfinished
    exact stuck next step

theorem handlers_finish_waiting :
    3 ≤ ∑ i, 2 * (handler contentsHasher trustingWire freshService.maxBytes true (depositAndLook i)).length ∧
      ∃ now last : System Bool Lock.Data Progress, now.queue .engine = [false] ∧ (now.tasks true).held .engine = some .write ∧
        Relation.ReflTransGen Locking.Step now last ∧ last.Done := by
  let start := begin contentsHasher trustingWire true freshService depositAndLook
  let asked := start.setQueue .engine [true]
  let locked := (asked.setTask true ((asked.tasks true).onHeld (asked.tasks true).todo.tail .engine (some .write))).setQueue .engine []
  let waiting := locked.setQueue .engine [false]
  let states : Nat → System Bool Lock.Data Progress
    | 0 => start
    | 1 => asked
    | 2 => locked
    | _ => waiting
  have steps : ∀ k < 3, Locking.Step (states k) (states (k + 1)) := by
    intro k below
    match k with
    | 0 => exact .ask (i:=true) rfl List.not_mem_nil
    | 1 => exact .grant (i:=true) rfl rfl fun j => rfl
    | 2 => exact .ask (i:=false) rfl List.not_mem_nil
  obtain ⟨bound,_,last,run,done⟩ := handlers_finish contentsHasher trustingWire true freshService depositAndLook states 3 rfl steps
  exact ⟨bound,waiting,last,rfl,rfl,run,done⟩

end Interleavings
end Handlers
end Pranklin
