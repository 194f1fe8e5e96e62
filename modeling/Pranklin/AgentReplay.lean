import Pranklin.AgentRpc

namespace Pranklin
open Effect TransactionExecutor

structure Use where
  grant : Grant
  before : AgentRegistry
  inBlock : Bool

def Use.after (use : Use) : AgentRegistry := use.grant.apply use.before

namespace Grant

def spends : Grant → Option (Address × Nat)
  | .setAgent nonce sender _ => some (sender,nonce)
  | .removeAgent nonce sender _ => some (sender,nonce)
  | .nominate _ => none

theorem spends_of_transaction {tx : Transaction} {grant : Grant} (named : ofTransaction tx = some grant) :
    grant.spends = some (tx.sender,tx.nonce) := by
  obtain ⟨nonce,sender,payload,signature⟩ := tx
  cases payload <;> cases named <;> rfl

end Grant

namespace AgentStep
variable {codec : AgentCodec} {node : Node} {agents final : AgentRegistry}

def bytesUses (codec : Codec) (node : Node) (data : List UInt8) : List Use :=
  match Transaction.decode codec data,(exec (executeBytes codec data) node).1 with
  | .ok tx,.ok _ => (Grant.ofTransaction tx).toList.map fun grant => ⟨grant,node.auth,true⟩
  | _,_ => []

def blockUses (codec : Codec) (node : Node) : List (List UInt8) → List Use
  | [] => []
  | data :: rest => bytesUses codec node data ++ blockUses codec (TransactionExecutor.after codec node data) rest

def uses (codec : AgentCodec) (node : Node) : AgentStep → List Use
  | .rpcSetAgent hex =>
    match Rpc.decodeAndVerifyTx codec hex with
    | .ok tx =>
      match tx.payload with
      | .setAgent agent => [⟨.setAgent tx.nonce tx.sender agent,node.auth,false⟩]
      | _ => []
    | .error _ => []
  | .rpcRemoveAgent hex =>
    match Rpc.decodeAndVerifyTx codec hex with
    | .ok tx =>
      match tx.payload with
      | .removeAgent agent => [⟨.removeAgent tx.nonce tx.sender agent,node.auth,false⟩]
      | _ => []
    | .error _ => []
  | .nominateAgent nomination signature domain =>
    match codec.recoverNomination nomination domain signature with
    | .ok recovered => if recovered = nomination.account then [⟨.nominate nomination,node.auth,false⟩] else []
    | .error _ => []
  | .block txs => blockUses codec.toCodec node txs

def usesOf (codec : AgentCodec) (node : Node) : List AgentStep → List Use
  | [] => []
  | step :: steps => step.uses codec node ++ usesOf codec (step.after codec node) steps

def Chained (agents : AgentRegistry) : List Use → AgentRegistry → Prop
  | [],final => final = agents
  | use :: rest,final => use.before = agents ∧ Chained use.after rest final

theorem Chained.append {front back : List Use} {middle : AgentRegistry} (first : Chained agents front middle)
    (second : Chained middle back final) : Chained agents (front ++ back) final := by
  induction front generalizing agents with
  | nil =>
    cases first
    exact second
  | cons use front ih => exact ⟨first.1,ih first.2⟩

theorem agentsAfter_eq (tx : Transaction) (agents : AgentRegistry) :
    agentsAfter tx agents = ((Grant.ofTransaction tx).map fun grant => grant.apply agents).getD agents := by
  obtain ⟨nonce,sender,payload,signature⟩ := tx
  cases payload <;> rfl

theorem grant_goes_through {tx : Transaction} {grant : Grant} (named : Grant.ofTransaction tx = some grant) (e : Engine) :
    ∃ after, exec (executeTxPayloadReadonly tx) e = (.ok (),after) := by
  obtain ⟨nonce,sender,payload,signature⟩ := tx
  cases payload with
  | setAgent agent => exact ⟨_,rfl⟩
  | removeAgent agent => exact ⟨_,rfl⟩
  | _ => cases named

theorem chained_bytes (codec : Codec) (node : Node) (data : List UInt8) :
    Chained node.auth (bytesUses codec node data) (TransactionExecutor.after codec node data).auth := by
  unfold bytesUses TransactionExecutor.after
  rw [executeBytes,exec_bind,exec_tries]
  cases decoded : Transaction.decode codec data with
  | error error => rfl
  | ok tx =>
  dsimp only
  by_cases accepted : Accepted codec tx node
  case neg =>
    obtain ⟨error,failed⟩ := execute_rejected accepted
    rw [failed]
    rfl
  rw [execute_accepted accepted,agentsAfter_eq]
  cases named : Grant.ofTransaction tx with
  | some grant =>
    obtain ⟨after,done⟩ := grant_goes_through named node.engine
    rw [done]
    dsimp only
    rw [named]
    exact ⟨rfl,rfl⟩
  | none =>
    cases exec (executeTxPayloadReadonly tx) node.engine with
    | mk result e =>
      cases result with
      | error error => rfl
      | ok _ =>
        dsimp only
        rw [named]
        rfl

theorem chained_block (codec : Codec) (node : Node) (txs : List (List UInt8)) :
    Chained node.auth (blockUses codec node txs) (txs.foldl (TransactionExecutor.after codec) node).auth := by
  induction txs generalizing node with
  | nil => rfl
  | cons data txs ih => exact (chained_bytes codec node data).append (ih _)

theorem chained_step (codec : AgentCodec) (node : Node) (step : AgentStep) :
    Chained node.auth (step.uses codec node) (step.after codec node).auth := by
  cases step with
  | rpcSetAgent hex =>
    dsimp only [uses,AgentStep.after]
    rw [Rpc.setAgent,exec_bind,exec_tries]
    cases Rpc.decodeAndVerifyTx codec hex with
    | error error => rfl
    | ok tx =>
      dsimp only
      cases tx.payload with
      | setAgent agent => exact ⟨rfl,rfl⟩
      | _ => rfl
  | rpcRemoveAgent hex =>
    dsimp only [uses,AgentStep.after]
    rw [Rpc.removeAgent,exec_bind,exec_tries]
    cases Rpc.decodeAndVerifyTx codec hex with
    | error error => rfl
    | ok tx =>
      dsimp only
      cases tx.payload with
      | removeAgent agent => exact ⟨rfl,rfl⟩
      | _ => rfl
  | nominateAgent nomination signature domain =>
    dsimp only [uses,AgentStep.after]
    rw [AuthService.nominateAgent,exec_bind,exec_tries]
    cases codec.recoverNomination nomination domain signature with
    | error error => rfl
    | ok recovered =>
      dsimp only [Except.mapError]
      split
      · exact ⟨rfl,rfl⟩
      · rfl
  | block txs =>
    dsimp only [uses,AgentStep.after]
    rw [Nonces.executeBatch_node]
    exact chained_block codec.toCodec node txs

theorem chained_run (codec : AgentCodec) (node : Node) (steps : List AgentStep) :
    Chained node.auth (usesOf codec node steps) (run codec node steps).auth := by
  induction steps generalizing node with
  | nil => rfl
  | cons step steps ih => exact (chained_step codec node step).append (ih _)

-- What the earlier uses leave open: the registry says already what the grant would write, or
-- only blocks have used it so far and one uses it now.
def Allowed (past : List Use) (use : Use) : Prop :=
  use.grant.Stands use.before ∨ ∀ p ∈ past, p.grant = use.grant → p.inBlock = true ∧ use.inBlock = true

-- No account runs out of nonces within a block.
def Below (codec : AgentCodec) (node : Node) : AgentStep → Prop
  | .block txs => ∀ front, front <+: txs → ∀ account,
    (front.foldl (TransactionExecutor.after codec.toCodec) node).engine.state.getNonce account < 2 ^ 64 - 1
  | _ => True

def Unrepeated (codec : AgentCodec) (past : List Use) (node : Node) : List AgentStep → Prop
  | [] => True
  | step :: steps => (∀ use ∈ step.uses codec node, Allowed past use) ∧ step.Below codec node ∧
    Unrepeated codec (past ++ step.uses codec node) (step.after codec node) steps

structure Quiet (past : List Use) (node : Node) : Prop where
  pairs : past.Pairwise fun a b => a.grant = b.grant → b.grant.Stands b.before
  spent : ∀ p ∈ past, p.inBlock = true → ∀ sender nonce, p.grant.spends = some (sender,nonce) →
    nonce < node.engine.state.getNonce sender

theorem bytesUses_cases (codec : Codec) (node : Node) (data : List UInt8)
    (below : ∀ account, node.engine.state.getNonce account < 2 ^ 64 - 1) :
    (∀ account, node.engine.state.getNonce account ≤
        (TransactionExecutor.after codec node data).engine.state.getNonce account) ∧
      (bytesUses codec node data = [] ∨ ∃ grant sender, bytesUses codec node data = [⟨grant,node.auth,true⟩] ∧
        grant.spends = some (sender,node.engine.state.getNonce sender) ∧
        node.engine.state.getNonce sender <
          (TransactionExecutor.after codec node data).engine.state.getNonce sender) := by
  rcases Nonces.after_cases codec node data with ⟨error,failed,kept⟩ | ⟨tx,decoded,done,next,moved⟩
  · refine ⟨fun account => by rw [kept],.inl ?_⟩
    unfold bytesUses
    rw [failed]
    split
    · rename_i refused
      cases refused
    · rfl
  · have one : Words.addWrap 64 tx.nonce 1 = tx.nonce + 1 := by
      refine Words.addWrap_of_lt ?_
      have room := below tx.sender
      omega
    refine ⟨?_,?_⟩
    · intro account
      rw [moved]
      split
      · rename_i own
        rw [own,one,next]
        exact Nat.le_succ _
      · exact Nat.le_refl _
    · unfold bytesUses
      rw [decoded,done]
      dsimp only
      cases named : Grant.ofTransaction tx with
      | none => exact .inl rfl
      | some grant =>
        refine .inr ⟨grant,tx.sender,rfl,?_,?_⟩
        · rw [Grant.spends_of_transaction named,next]
        · rw [moved,if_pos rfl,one,next]
          exact Nat.lt_succ_self _

theorem Quiet.add {past : List Use} (quiet : Quiet past node) {use : Use} {after : Node}
    (fresh : ∀ p ∈ past, p.grant = use.grant → use.grant.Stands use.before)
    (grows : ∀ account, node.engine.state.getNonce account ≤ after.engine.state.getNonce account)
    (own : use.inBlock = true → ∀ sender nonce, use.grant.spends = some (sender,nonce) →
      nonce < after.engine.state.getNonce sender) : Quiet (past ++ [use]) after := by
  refine ⟨?_,?_⟩
  · refine List.pairwise_append.mpr ⟨quiet.pairs,List.pairwise_singleton _ _,?_⟩
    intro p inside last listed same
    rw [List.mem_singleton.mp listed] at same ⊢
    exact fresh p inside same
  · intro p inside
    rcases List.mem_append.mp inside with inside | inside
    · intro block sender nonce spends
      exact (quiet.spent p inside block sender nonce spends).trans_le (grows sender)
    · rw [List.mem_singleton.mp inside]
      exact own

theorem Quiet.grown {past : List Use} (quiet : Quiet past node) {after : Node}
    (grows : ∀ account, node.engine.state.getNonce account ≤ after.engine.state.getNonce account) : Quiet past after :=
  ⟨quiet.pairs,fun p inside block sender nonce spends =>
    (quiet.spent p inside block sender nonce spends).trans_le (grows sender)⟩

theorem Quiet.bytes {past : List Use} (quiet : Quiet past node) {codec : Codec} {data : List UInt8}
    (below : ∀ account, node.engine.state.getNonce account < 2 ^ 64 - 1)
    (allowed : ∀ use ∈ bytesUses codec node data, Allowed past use) :
    Quiet (past ++ bytesUses codec node data) (TransactionExecutor.after codec node data) := by
  obtain ⟨grows,none | ⟨grant,sender,one,spends,spent⟩⟩ := bytesUses_cases codec node data below
  · rw [none,List.append_nil]
    exact quiet.grown grows
  · rw [one] at allowed ⊢
    apply quiet.add _ grows
    · intro _ other nonce same
      rw [spends] at same
      cases same
      exact spent
    · intro p inside same
      rcases allowed _ (List.mem_singleton.mpr rfl) with stands | blocks
      · exact stands
      · -- A block has used the grant before: its nonce is spent.
        have old := quiet.spent p inside (blocks p inside same).1 sender _ (by rw [same]; exact spends)
        exact absurd old (Nat.lt_irrefl _)

theorem inBlock_of_mem_bytesUses {codec : Codec} {data : List UInt8} {use : Use}
    (inside : use ∈ bytesUses codec node data) : use.inBlock = true := by
  unfold bytesUses at inside
  split at inside
  · obtain ⟨_,_,rfl⟩ := List.mem_map.mp inside
    rfl
  · cases inside

theorem inBlock_of_mem_blockUses {codec : Codec} {txs : List (List UInt8)} {use : Use}
    (inside : use ∈ blockUses codec node txs) : use.inBlock = true := by
  induction txs generalizing node with
  | nil => cases inside
  | cons data txs ih =>
    rcases List.mem_append.mp inside with inside | inside
    · exact inBlock_of_mem_bytesUses inside
    · exact ih inside

theorem Allowed.later {past : List Use} {use : Use} (allowed : Allowed past use) {more : List Use}
    (blocks : ∀ p ∈ more, p.inBlock = true) (own : use.inBlock = true) : Allowed (past ++ more) use := by
  rcases allowed with stands | open_
  · exact .inl stands
  · refine .inr fun p inside same => ?_
    rcases List.mem_append.mp inside with inside | inside
    · exact open_ p inside same
    · exact ⟨blocks p inside,own⟩

theorem Quiet.block {past : List Use} (quiet : Quiet past node) {codec : Codec} {txs : List (List UInt8)}
    (below : ∀ front, front <+: txs → ∀ account,
      (front.foldl (TransactionExecutor.after codec) node).engine.state.getNonce account < 2 ^ 64 - 1)
    (allowed : ∀ use ∈ blockUses codec node txs, Allowed past use) :
    Quiet (past ++ blockUses codec node txs) (txs.foldl (TransactionExecutor.after codec) node) := by
  induction txs generalizing node past with
  | nil => exact (List.append_nil past).symm ▸ quiet
  | cons data txs ih =>
    rw [blockUses] at allowed ⊢
    have next := quiet.bytes (below [] List.nil_prefix) fun use inside => allowed use (List.mem_append_left _ inside)
    rw [← List.append_assoc]
    refine ih next (fun front part => below (data :: front) (List.cons_prefix_cons.mpr ⟨rfl,part⟩)) ?_
    intro use inside
    exact (allowed use (List.mem_append_right _ inside)).later (fun p => inBlock_of_mem_bytesUses)
      (inBlock_of_mem_blockUses inside)

theorem request_uses (codec : AgentCodec) (node : Node) (step : AgentStep) (request : ∀ txs, step ≠ .block txs) :
    (step.after codec node).engine = node.engine ∧
      (step.uses codec node = [] ∨ ∃ grant, step.uses codec node = [⟨grant,node.auth,false⟩]) := by
  cases step with
  | rpcSetAgent hex =>
    refine ⟨rfl,?_⟩
    dsimp only [uses]
    split
    · split
      · exact .inr ⟨_,rfl⟩
      · exact .inl rfl
    · exact .inl rfl
  | rpcRemoveAgent hex =>
    refine ⟨rfl,?_⟩
    dsimp only [uses]
    split
    · split
      · exact .inr ⟨_,rfl⟩
      · exact .inl rfl
    · exact .inl rfl
  | nominateAgent nomination signature domain =>
    refine ⟨rfl,?_⟩
    dsimp only [uses]
    split
    · split
      · exact .inr ⟨_,rfl⟩
      · exact .inl rfl
    · exact .inl rfl
  | block txs => exact absurd rfl (request txs)

theorem Quiet.step {past : List Use} (quiet : Quiet past node) (step : AgentStep) (below : step.Below codec node)
    (allowed : ∀ use ∈ step.uses codec node, Allowed past use) :
    Quiet (past ++ step.uses codec node) (step.after codec node) := by
  by_cases request : ∀ txs, step ≠ .block txs
  · obtain ⟨engine,none | ⟨grant,one⟩⟩ := request_uses codec node step request
    · rw [none,List.append_nil]
      exact quiet.grown fun account => by rw [engine]
    · rw [one] at allowed ⊢
      apply quiet.add _ fun account => by rw [engine]
      · intro block
        cases block
      · intro p inside same
        rcases allowed _ (List.mem_singleton.mpr rfl) with stands | blocks
        · exact stands
        · cases (blocks p inside same).2
  · push Not at request
    obtain ⟨txs,rfl⟩ := request
    dsimp only [AgentStep.after]
    rw [Nonces.executeBatch_node]
    exact quiet.block below allowed

theorem Quiet.run {past : List Use} (quiet : Quiet past node) {steps : List AgentStep}
    (unrepeated : Unrepeated codec past node steps) : Quiet (past ++ usesOf codec node steps) (run codec node steps) := by
  induction steps generalizing node past with
  | nil => exact (List.append_nil past).symm ▸ quiet
  | cons step steps ih =>
    obtain ⟨allowed,below,rest⟩ := unrepeated
    rw [usesOf,← List.append_assoc]
    exact ih (quiet.step step below allowed) rest

-- No grant moves the registry twice, and using one again authorizes nobody.
structure Final (uses : List Use) : Prop where
  once : uses.Pairwise fun a b => a.grant = b.grant → a.after = a.before ∨ b.after = b.before
  revoked : uses.Pairwise fun a b => a.grant = b.grant → ∀ account agent permission,
    b.before.isAuthorized account agent permission = false → b.after.isAuthorized account agent permission = false

-- Where requests and nominations repeat no grant that was used before, revoking is final; the
-- registry moves by the listed uses only.
theorem grants_final (codec : AgentCodec) (node : Node) (steps : List AgentStep)
    (unrepeated : Unrepeated codec [] node steps) :
    Final (usesOf codec node steps) ∧ Chained node.auth (usesOf codec node steps) (run codec node steps).auth := by
  have start : Quiet [] node := ⟨List.Pairwise.nil,fun _ inside => nomatch inside⟩
  have pairs := (start.run unrepeated).pairs
  rw [List.nil_append] at pairs
  refine ⟨⟨?_,?_⟩,chained_run codec node steps⟩
  · exact pairs.imp fun stands same => .inr (Grant.apply_of_stands (stands same))
  · refine pairs.imp fun stands same account agent permission before => ?_
    rw [Use.after,Grant.apply_of_stands (stands same)]
    exact before

theorem nonces_after_le (codec : Codec) (node : Node) (txs : List (List UInt8)) (account : Address) :
    (txs.foldl (TransactionExecutor.after codec) node).engine.state.getNonce account ≤
      node.engine.state.getNonce account + txs.length := by
  induction txs generalizing node with
  | nil => exact Nat.le_refl _
  | cons data txs ih =>
    have rest := ih (TransactionExecutor.after codec node data)
    rw [List.foldl_cons,List.length_cons]
    rcases Nonces.after_cases codec node data with ⟨_,_,kept⟩ | ⟨tx,_,_,next,moved⟩
    · rw [kept] at rest
      omega
    · have small : Words.addWrap 64 tx.nonce 1 ≤ tx.nonce + 1 := Nat.mod_le _ _
      rw [moved] at rest
      split at rest
      · rename_i own
        subst own
        omega
      · omega

theorem grant_of_mem_bytesUses {codec : Codec} {data : List UInt8} {tx : Transaction} {use : Use}
    (decoded : Transaction.decode codec data = .ok tx) (inside : use ∈ bytesUses codec node data) :
    Grant.ofTransaction tx = some use.grant := by
  unfold bytesUses at inside
  rw [decoded] at inside
  split at inside
  · rename_i same _
    cases same
    obtain ⟨grant,named,rfl⟩ := List.mem_map.mp inside
    exact Option.mem_toList.mp named
  · cases inside

section Requests
variable {tx : Transaction}

theorem uses_setAgent (read : Rpc.decodeAndVerifyTx codec hex = .ok tx) (payload : tx.payload = .setAgent agent)
    (node : Node) : uses codec node (.rpcSetAgent hex) = [⟨.setAgent tx.nonce tx.sender agent,node.auth,false⟩] := by
  dsimp only [uses]
  rw [read]
  dsimp only
  rw [payload]

theorem uses_removeAgent (read : Rpc.decodeAndVerifyTx codec hex = .ok tx) (payload : tx.payload = .removeAgent agent)
    (node : Node) : uses codec node (.rpcRemoveAgent hex) = [⟨.removeAgent tx.nonce tx.sender agent,node.auth,false⟩] := by
  dsimp only [uses]
  rw [read]
  dsimp only
  rw [payload]

theorem after_setAgent (read : Rpc.decodeAndVerifyTx codec hex = .ok tx) (payload : tx.payload = .setAgent agent)
    (node : Node) :
    after codec node (.rpcSetAgent hex) = {node with auth:=node.auth.setAgent tx.sender agent.agent agent.permissions} := by
  dsimp only [after]
  rw [Rpc.setAgent,exec_bind,exec_tries,read]
  dsimp only
  rw [payload]
  rfl

theorem after_removeAgent (read : Rpc.decodeAndVerifyTx codec hex = .ok tx) (payload : tx.payload = .removeAgent agent)
    (node : Node) :
    after codec node (.rpcRemoveAgent hex) = {node with auth:=node.auth.removeAgent tx.sender agent.agent} := by
  dsimp only [after]
  rw [Rpc.removeAgent,exec_bind,exec_tries,read]
  dsimp only
  rw [payload]
  rfl

end Requests

namespace Bench
open Pranklin.Bench

def hexCodec : AgentCodec := {trusting with
  hexDecode:=hexDecode
  display:=fun _ => ""
  recoverNomination:=fun nomination _ _ => .ok nomination.account}

def granting : Transaction := ⟨0,alice,.setAgent ⟨bob,1⟩,.rawBorsh 0⟩
def revoking : Transaction := ⟨1,alice,.removeAgent ⟨bob⟩,.rawBorsh 0⟩

def freshNode : Node := Node.new fresh.storage .keep

theorem written_granting : Transaction.decode hexCodec.toCodec (written granting) = .ok granting :=
  decode_written (by decide +kernel) (by decide +kernel)

theorem read_granting : Rpc.decodeAndVerifyTx hexCodec (hexText granting) = .ok granting :=
  decodeAndVerifyTx_hexText rfl rfl (by decide +kernel) (by decide +kernel)

theorem read_revoking : Rpc.decodeAndVerifyTx hexCodec (hexText revoking) = .ok revoking :=
  decodeAndVerifyTx_hexText rfl rfl (by decide +kernel) (by decide +kernel)

theorem uses_granting (node : Node) :
    AgentStep.uses hexCodec node (.rpcSetAgent (hexText granting)) = [⟨.setAgent 0 alice ⟨bob,1⟩,node.auth,false⟩] :=
  uses_setAgent read_granting rfl node

theorem uses_revoking (node : Node) :
    AgentStep.uses hexCodec node (.rpcRemoveAgent (hexText revoking)) = [⟨.removeAgent 1 alice ⟨bob⟩,node.auth,false⟩] :=
  uses_removeAgent read_revoking rfl node

theorem after_granting (node : Node) : AgentStep.after hexCodec node (.rpcSetAgent (hexText granting)) =
    {node with auth:=node.auth.setAgent alice bob 1} := after_setAgent read_granting rfl node

theorem after_revoking (node : Node) : AgentStep.after hexCodec node (.rpcRemoveAgent (hexText revoking)) =
    {node with auth:=node.auth.removeAgent alice bob} := after_removeAgent read_revoking rfl node

end Bench

open Pranklin.Bench in
theorem grant_replayed :
    ¬∀ (codec : AgentCodec) (node : Node) (steps : List AgentStep), Final (usesOf codec node steps) := by
  intro all
  have revoked := (all Bench.hexCodec Bench.freshNode [.rpcSetAgent (hexText Bench.granting),
    .rpcRemoveAgent (hexText Bench.revoking),.rpcSetAgent (hexText Bench.granting)]).revoked
  simp only [usesOf,Bench.uses_granting,Bench.uses_revoking,Bench.after_granting,Bench.after_revoking,List.cons_append,
    List.nil_append] at revoked
  have again := (List.pairwise_cons.mp revoked).1 _ (List.mem_cons_of_mem _ List.mem_cons_self) rfl alice bob 1
  revert again
  decide +kernel

open Pranklin.Bench in
theorem grants_final_revoked_twice :
    let steps : List AgentStep := [.block [written Bench.granting],.rpcRemoveAgent (hexText Bench.revoking),
      .rpcRemoveAgent (hexText Bench.revoking)]
    Unrepeated Bench.hexCodec [] Bench.freshNode steps ∧ Final (usesOf Bench.hexCodec Bench.freshNode steps) := by
  intro steps
  have unrepeated : Unrepeated Bench.hexCodec [] Bench.freshNode steps := by
    refine ⟨?_,?_,?_,trivial,?_,trivial,trivial⟩
    · intro use _
      exact .inr fun _ inside => nomatch inside
    · intro front part account
      have bound := nonces_after_le Bench.hexCodec.toCodec Bench.freshNode front account
      have zero : Bench.freshNode.engine.state.getNonce account = 0 := rfl
      have short := part.length_le
      rw [List.length_singleton] at short
      omega
    · intro use inside
      rw [Bench.uses_revoking] at inside
      rcases List.mem_singleton.mp inside
      refine .inr fun p inside same => ?_
      -- Only the block's grant was used before, and it names no removal.
      rcases List.mem_append.mp inside with inside | inside
      · cases inside
      rw [uses,blockUses,blockUses,List.append_nil] at inside
      have named := grant_of_mem_bytesUses Bench.written_granting inside
      rw [same] at named
      cases named
    · intro use inside
      rw [Bench.uses_revoking] at inside
      rcases List.mem_singleton.mp inside
      rw [Bench.after_revoking]
      exact .inl (Grant.apply_stands _ (.removeAgent 1 alice ⟨bob⟩))
  exact ⟨unrepeated,(grants_final Bench.hexCodec Bench.freshNode _ unrepeated).1⟩

end AgentStep
end Pranklin
