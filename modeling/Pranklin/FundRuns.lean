import Mathlib.Algebra.BigOperators.Group.List.Basic
import Pranklin.Calls
import Pranklin.Insurance

namespace Pranklin
open Words Effect LiquidationEngine

structure Attempt where
  before : Engine
  trader : Address
  marketId : Nat
  markPrice : Nat
  liquidator : Address

namespace Attempt

def ran (a : Attempt) : Except EngineError (Option LiquidationResult) × Engine :=
  exec (liquidateWithIncentive a.trader a.marketId a.markPrice a.liquidator) a.before

def fund (a : Attempt) : InsuranceFund := a.before.liquidation.insuranceFunds a.marketId

def contribution (a : Attempt) : Nat := LiquidationEngine.contribution a.before a.trader a.marketId a.markPrice a.liquidator

-- The fund pays out of what it has just before and receives; what is reported is what moved.
structure Settled (a : Attempt) (usage : Nat) : Prop where
  covered : usage ≤ a.fund.balance
  fund : a.ran.2.liquidation.insuranceFunds a.marketId = ⟨a.fund.balance - usage + a.contribution,
    a.fund.totalContributions + a.contribution,a.fund.totalPayouts + usage⟩
  others : ∀ marketId, marketId ≠ a.marketId →
    a.ran.2.liquidation.insuranceFunds marketId = a.before.liquidation.insuranceFunds marketId
  reported : ∀ result, a.ran.1 = .ok (some result) → result.insuranceFundUsage = usage ∧
    result.liquidatorReward + result.insuranceFundContribution ≤ result.liquidationFee ∧
    result.liquidationFee ≤ result.liquidatorReward + result.insuranceFundContribution + 1

end Attempt

-- The calls of the liquidation engine. The state and the book are lent to each call by its
-- caller, so that anything may have happened to them in between.
inductive InsuranceCall where
  | liquidateWithIncentive (lent : Engine) (trader : Address) (marketId markPrice : Nat) (liquidator : Address)
  | processLiquidationBatch (lent : Engine) (heap : List PositionRisk) (marketId markPrice : Nat)
    (liquidator : Address) (maxLiquidations : Nat)
  | setFeeSplit (liquidatorBps insuranceFundBps : Nat)

def attemptsEach (markPrice : Nat) (liquidator : Address) (e : Engine) : List (Address × Nat) → List Attempt
  | [] => []
  | (trader,marketId) :: rest =>
    let attempt : Attempt := ⟨e,trader,marketId,markPrice,liquidator⟩
    attempt :: match attempt.ran with
      | (.ok _,after) => attemptsEach markPrice liquidator after rest
      | (.error _,_) => []

namespace InsuranceCall

-- A split whose assertion fails changes nothing.
def after (engine : LiquidationEngine) : InsuranceCall → LiquidationEngine
  | .liquidateWithIncentive lent trader marketId markPrice liquidator =>
    (exec (LiquidationEngine.liquidateWithIncentive trader marketId markPrice liquidator)
      {lent with liquidation:=engine}).2.liquidation
  | .processLiquidationBatch lent heap marketId markPrice liquidator maxLiquidations =>
    (exec (LiquidationEngine.processLiquidationBatch heap marketId markPrice liquidator maxLiquidations)
      {lent with liquidation:=engine}).2.liquidation
  | .setFeeSplit liquidatorBps insuranceFundBps => (engine.setFeeSplit liquidatorBps insuranceFundBps).getD engine

def reported (engine : LiquidationEngine) : InsuranceCall → List LiquidationResult
  | .liquidateWithIncentive lent trader marketId markPrice liquidator =>
    match (exec (LiquidationEngine.liquidateWithIncentive trader marketId markPrice liquidator)
      {lent with liquidation:=engine}).1 with
    | .ok result => result.toList
    | .error _ => []
  | .processLiquidationBatch lent heap marketId markPrice liquidator maxLiquidations =>
    match (exec (LiquidationEngine.processLiquidationBatch heap marketId markPrice liquidator maxLiquidations)
      {lent with liquidation:=engine}).1 with
    | .ok results => results
    | .error _ => []
  | .setFeeSplit _ _ => []

def attempts (engine : LiquidationEngine) : InsuranceCall → List Attempt
  | .liquidateWithIncentive lent trader marketId markPrice liquidator =>
    [⟨{lent with liquidation:=engine},trader,marketId,markPrice,liquidator⟩]
  | .processLiquidationBatch lent heap marketId markPrice liquidator maxLiquidations =>
    match lent.state.getMarket marketId with
    | none => []
    | some market => attemptsEach markPrice liquidator {lent with liquidation:=engine}
      ((getAtRiskPositions heap market.maintenanceMarginBps).take maxLiquidations)
  | .setFeeSplit _ _ => []

def run (engine : LiquidationEngine) (calls : List InsuranceCall) : LiquidationEngine := calls.foldl after engine

def attemptsOf (engine : LiquidationEngine) : List InsuranceCall → List Attempt
  | [] => []
  | call :: calls => call.attempts engine ++ attemptsOf (call.after engine) calls

def contributed (attempts : List Attempt) (marketId : Nat) : Nat :=
  (attempts.map fun a => if a.marketId = marketId then a.contribution else 0).sum

def Shares : InsuranceCall → Prop
  | .setFeeSplit liquidatorBps insuranceFundBps => liquidatorBps ≤ basisPoints ∧ insuranceFundBps ≤ basisPoints
  | _ => True

structure Books (engine : LiquidationEngine) (given : Nat → Nat) : Prop where
  split : Split engine
  books : ∀ marketId, (engine.insuranceFunds marketId).balance + (engine.insuranceFunds marketId).totalPayouts =
    (engine.insuranceFunds marketId).totalContributions
  total : ∀ marketId, (engine.insuranceFunds marketId).totalContributions = given marketId

theorem contributed_cons (a : Attempt) (rest : List Attempt) (marketId : Nat) :
    contributed (a :: rest) marketId = (if a.marketId = marketId then a.contribution else 0) + contributed rest marketId :=
  List.sum_cons

theorem contributed_append (front back : List Attempt) (marketId : Nat) :
    contributed (front ++ back) marketId = contributed front marketId + contributed back marketId := by
  unfold contributed
  rw [List.map_append,List.sum_append]

theorem attempt_books {given : Nat → Nat} {a : Attempt} (books : Books a.before.liquidation given)
    (room : given a.marketId + a.contribution < 2 ^ 128) :
    (∃ usage, a.Settled usage) ∧ Books a.ran.2.liquidation
      (fun marketId => given marketId + if a.marketId = marketId then a.contribution else 0) := by
  have balanced : InsuranceFund.Balanced (a.before.liquidation.insuranceFunds a.marketId) :=
    ⟨books.books _,by rw [books.total]; omega⟩
  obtain ⟨usage,covered,moved,reported⟩ := @liquidateWithIncentive_books a.before a.trader a.liquidator a.marketId
    a.markPrice balanced books.split (by rw [books.total]; exact room)
  have own : a.ran.2.liquidation.insuranceFunds a.marketId = _ := (congrArg (·.insuranceFunds a.marketId) moved).trans
    (moveFund_own a.before.liquidation a.marketId usage a.contribution)
  have others : ∀ marketId, marketId ≠ a.marketId →
      a.ran.2.liquidation.insuranceFunds marketId = a.before.liquidation.insuranceFunds marketId :=
    fun marketId other => (congrArg (·.insuranceFunds marketId) moved).trans (Function.update_of_ne other ..)
  refine ⟨⟨usage,covered,own,others,reported⟩,?_,?_,?_⟩
  · unfold Split
    rw [Attempt.ran,moved]
    exact books.split
  · intro marketId
    by_cases same : marketId = a.marketId
    · subst same
      have before := books.books a.marketId
      rw [own]
      dsimp only
      omega
    · rw [others marketId same]
      exact books.books marketId
  · intro marketId
    by_cases same : a.marketId = marketId
    · subst same
      rw [own,if_pos rfl,← books.total]
    · rw [others marketId (Ne.symm same),if_neg same]
      exact books.total marketId

section Each
variable {markPrice : Nat} {liquidator : Address}

theorem each_books {listed : List (Address × Nat)} {e : Engine} {given : Nat → Nat} (books : Books e.liquidation given)
    (room : ∀ marketId, given marketId + contributed (attemptsEach markPrice liquidator e listed) marketId < 2 ^ 128) :
    (∀ a ∈ attemptsEach markPrice liquidator e listed, ∃ usage, a.Settled usage) ∧
      Books (exec (liquidateEach markPrice liquidator listed) e).2.liquidation
        (fun marketId => given marketId + contributed (attemptsEach markPrice liquidator e listed) marketId) := by
  induction listed generalizing e given with
  | nil => exact ⟨List.forall_mem_nil _,books⟩
  | cons target listed ih =>
    obtain ⟨trader,marketId⟩ := target
    rw [attemptsEach] at room ⊢
    rw [liquidateEach]
    have first := room marketId
    rw [contributed_cons,if_pos rfl] at first
    obtain ⟨settled,after⟩ := @attempt_books given ⟨e,trader,marketId,markPrice,liquidator⟩ books (by dsimp only; omega)
    simp only [contributed_cons] at room ⊢
    cases ran : Attempt.ran ⟨e,trader,marketId,markPrice,liquidator⟩ with
    | mk result next =>
    rw [ran] at after room
    cases result with
    | error error =>
      rw [exec_error_bind ran]
      refine ⟨?_,after⟩
      intro a inside
      rcases List.mem_singleton.mp inside
      exact settled
    | ok result =>
      dsimp only at after room ⊢
      obtain ⟨rest,final⟩ := ih after (fun other => by have := room other; omega)
      rw [exec_ok_bind ran,exec_bind_pure]
      refine ⟨?_,?_⟩
      · intro a inside
        rcases List.mem_cons.mp inside with rfl | inside
        · exact settled
        · exact rest a inside
      · simpa only [Nat.add_assoc] using final

theorem each_reported {listed : List (Address × Nat)} {e : Engine} {results : List LiquidationResult}
    (done : (exec (liquidateEach markPrice liquidator listed) e).1 = .ok results) :
    ∀ result ∈ results, ∃ a ∈ attemptsEach markPrice liquidator e listed, a.ran.1 = .ok (some result) := by
  induction listed generalizing e results with
  | nil =>
    cases done
    exact List.forall_mem_nil _
  | cons target listed ih =>
    obtain ⟨trader,marketId⟩ := target
    rw [liquidateEach] at done
    rw [attemptsEach]
    cases ran : Attempt.ran ⟨e,trader,marketId,markPrice,liquidator⟩ with
    | mk first next =>
    cases first with
    | error error =>
      rw [exec_error_bind ran] at done
      cases done
    | ok first =>
      rw [exec_ok_bind ran,exec_bind_pure] at done
      cases later : (exec (liquidateEach markPrice liquidator listed) next).1 with
      | error error =>
        rw [later] at done
        cases done
      | ok others =>
        rw [later] at done
        cases done
        intro result inside
        rcases List.mem_append.mp inside with inside | inside
        · refine ⟨_,List.mem_cons_self,?_⟩
          rw [ran,Option.mem_toList.mp inside]
        · obtain ⟨a,listed,same⟩ := ih later result inside
          exact ⟨a,List.mem_cons_of_mem _ listed,same⟩

end Each

theorem call_books {engine : LiquidationEngine} {given : Nat → Nat} (books : Books engine given) (call : InsuranceCall)
    (shares : call.Shares)
    (room : ∀ marketId, given marketId + contributed (call.attempts engine) marketId < 2 ^ 128) :
    (∀ a ∈ call.attempts engine, ∃ usage, a.Settled usage) ∧
      Books (call.after engine) (fun marketId => given marketId + contributed (call.attempts engine) marketId) := by
  cases call with
  | liquidateWithIncentive lent trader marketId markPrice liquidator =>
    have first := room marketId
    rw [attempts,contributed_cons,if_pos rfl] at first
    obtain ⟨settled,moved⟩ := @attempt_books given ⟨{lent with liquidation:=engine},trader,marketId,markPrice,liquidator⟩
      books (by dsimp only; omega)
    refine ⟨?_,?_⟩
    · intro a inside
      rcases List.mem_singleton.mp inside
      exact settled
    · simp only [attempts,contributed_cons]
      exact moved
  | processLiquidationBatch lent heap marketId markPrice liquidator maxLiquidations =>
    dsimp only [attempts,InsuranceCall.after] at room ⊢
    rw [LiquidationEngine.processLiquidationBatch,exec_reads_bind]
    cases found : lent.state.getMarket marketId with
    | none => exact ⟨List.forall_mem_nil _,books⟩
    | some market =>
      rw [found] at room
      rw [exec_orThrow_some_bind]
      exact each_books books room
  | setFeeSplit liquidatorBps insuranceFundBps =>
    refine ⟨List.forall_mem_nil _,?_⟩
    obtain ⟨one,other⟩ := shares
    unfold basisPoints at one other
    have sum : addWrap 32 liquidatorBps insuranceFundBps = liquidatorBps + insuranceFundBps := addWrap_of_lt (by omega)
    dsimp only [InsuranceCall.after]
    rw [LiquidationEngine.setFeeSplit,sum]
    split
    · rename_i whole
      exact ⟨whole,books.books,books.total⟩
    · exact books

theorem call_reported (engine : LiquidationEngine) (call : InsuranceCall) :
    ∀ result ∈ call.reported engine, ∃ a ∈ call.attempts engine, a.ran.1 = .ok (some result) := by
  intro result inside
  cases call with
  | liquidateWithIncentive lent trader marketId markPrice liquidator =>
    refine ⟨_,List.mem_singleton.mpr rfl,?_⟩
    dsimp only [reported] at inside
    split at inside
    · rename_i value done
      rw [Option.mem_toList] at inside
      rw [Attempt.ran,done,inside]
    · cases inside
  | processLiquidationBatch lent heap marketId markPrice liquidator maxLiquidations =>
    dsimp only [reported] at inside
    split at inside
    · rename_i results done
      rw [LiquidationEngine.processLiquidationBatch,exec_reads_bind] at done
      unfold attempts
      dsimp only at done ⊢
      cases found : lent.state.getMarket marketId with
      | none =>
        rw [found] at done
        cases done
      | some market =>
        rw [found,exec_orThrow_some_bind] at done
        exact each_reported done result inside
    · cases inside
  | setFeeSplit => cases inside

theorem run_books {engine : LiquidationEngine} {given : Nat → Nat} (books : Books engine given)
    {calls : List InsuranceCall} (shares : ∀ call ∈ calls, call.Shares)
    (room : ∀ marketId, given marketId + contributed (attemptsOf engine calls) marketId < 2 ^ 128) :
    (∀ a ∈ attemptsOf engine calls, ∃ usage, a.Settled usage) ∧
      Books (run engine calls) (fun marketId => given marketId + contributed (attemptsOf engine calls) marketId) := by
  induction calls generalizing engine given with
  | nil => exact ⟨List.forall_mem_nil _,books⟩
  | cons call calls ih =>
    obtain ⟨own,shares⟩ := List.forall_mem_cons.mp shares
    rw [attemptsOf] at room ⊢
    simp only [contributed_append] at room ⊢
    obtain ⟨settled,moved⟩ := call_books books call own fun marketId => by have := room marketId; omega
    obtain ⟨rest,final⟩ := ih moved shares fun marketId => by have := room marketId; omega
    refine ⟨?_,?_⟩
    · intro a inside
      rcases List.mem_append.mp inside with inside | inside
      · exact settled a inside
      · exact rest a inside
    · simp only [Nat.add_assoc] at final
      exact final

theorem attemptsOf_append (engine : LiquidationEngine) (front back : List InsuranceCall) :
    attemptsOf engine (front ++ back) = attemptsOf engine front ++ attemptsOf (run engine front) back := by
  induction front generalizing engine with
  | nil => rfl
  | cons call front ih =>
    rw [List.cons_append,attemptsOf,attemptsOf,ih,List.append_assoc]
    rfl

def opening (enablePartialLiquidations : Bool) : LiquidationEngine :=
  {LiquidationEngine.new with enablePartialLiquidations:=enablePartialLiquidations}

-- As long as what a fund has been given fits into its counter, the books of every market
-- balance after every call, every attempt moves what it reports, and every result that a
-- call returns is one of its attempts.
theorem insurance_books (enable : Bool) (calls : List InsuranceCall) (shares : ∀ call ∈ calls, call.Shares)
    (room : ∀ marketId, contributed (attemptsOf (opening enable) calls) marketId < 2 ^ 128) :
    (∀ front, front <+: calls → ∀ marketId,
        let fund := (run (opening enable) front).insuranceFunds marketId
        fund.balance + fund.totalPayouts = fund.totalContributions ∧
          fund.totalContributions = contributed (attemptsOf (opening enable) front) marketId) ∧
      (∀ a ∈ attemptsOf (opening enable) calls, ∃ usage, a.Settled usage) ∧
      ∀ front call, front ++ [call] <+: calls → ∀ result ∈ call.reported (run (opening enable) front),
        ∃ a ∈ call.attempts (run (opening enable) front), a.ran.1 = .ok (some result) ∧ ∃ usage, a.Settled usage := by
  have start : Books (opening enable) fun _ => 0 := ⟨rfl,fun _ => rfl,fun _ => rfl⟩
  have settled := (run_books start shares (by simpa only [Nat.zero_add] using room)).1
  refine ⟨?_,settled,?_⟩
  · intro front part marketId
    obtain ⟨back,rfl⟩ := part
    have final := (run_books start (fun call inside => shares call (List.mem_append_left _ inside)) fun marketId => by
      have whole := room marketId
      rw [attemptsOf_append,contributed_append] at whole
      omega : _ ∧ Books (run (opening enable) front) _).2
    exact ⟨final.books marketId,by rw [final.total marketId,Nat.zero_add]⟩
  · intro front call part result inside
    obtain ⟨a,listed,done⟩ := call_reported (run (opening enable) front) call result inside
    refine ⟨a,listed,done,settled a ?_⟩
    obtain ⟨back,rfl⟩ := part
    rw [List.append_assoc,attemptsOf_append]
    exact List.mem_append_right _ (List.mem_append_left _ listed)

def sinking : Engine := Engine.new (Bench.state.setPosition Bench.alice 0 ⟨10000,100,true,100000,0⟩)

-- With a split of 30 to 70, Carol liquidates Alice at price 92, and a batch at 90 finds
-- such a position once more and draws on the fund.
def bench : List InsuranceCall :=
  [.setFeeSplit 3000 7000,.liquidateWithIncentive sinking Bench.alice 0 92 Bench.carol,
    .processLiquidationBatch sinking [⟨Bench.bob,0,100⟩,⟨Bench.alice,0,120⟩] 0 90 Bench.carol 5]

theorem insurance_books_bench :
    (∀ marketId, contributed (attemptsOf (opening true) bench) marketId < 2 ^ 128) ∧
      ∀ marketId, let fund := (run (opening true) bench).insuranceFunds marketId
        fund.balance + fund.totalPayouts = fund.totalContributions ∧
          fund.totalContributions = contributed (attemptsOf (opening true) bench) marketId := by
  have small : contributed (attemptsOf (opening true) bench) 0 < 2 ^ 128 := by decide +kernel
  have markets : (attemptsOf (opening true) bench).map (·.marketId) = [0,0,0] := by decide +kernel
  have room : ∀ marketId, contributed (attemptsOf (opening true) bench) marketId < 2 ^ 128 := by
    intro marketId
    by_cases own : marketId = 0
    · rw [own]
      exact small
    · have bare : contributed (attemptsOf (opening true) bench) marketId = 0 := by
        refine List.sum_eq_zero fun amount inside => ?_
        obtain ⟨a,listed,rfl⟩ := List.mem_map.mp inside
        have zero : a.marketId ∈ [0,0,0] := markets ▸ List.mem_map_of_mem listed
        have first : a.marketId = 0 := by simpa using zero
        rw [if_neg (by rw [first]; exact Ne.symm own)]
      rw [bare]
      exact Nat.two_pow_pos _
  refine ⟨room,fun marketId => ?_⟩
  refine (insurance_books true bench ?_ room).1 bench List.prefix_rfl marketId
  intro call inside
  rcases List.mem_cons.mp inside with rfl | inside
  · exact ⟨by decide,by decide⟩
  · rcases List.mem_cons.mp inside with rfl | inside
    · trivial
    · rcases List.mem_singleton.mp inside
      trivial

end InsuranceCall
end Pranklin
