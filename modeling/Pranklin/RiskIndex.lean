import Pranklin.FundRuns
import Pranklin.PositionIndex

namespace Pranklin
open Words Effect LiquidationEngine InsuranceCall

-- The heap of each market as a list: in which order one is walked is left open.
abbrev RiskIndex := Nat → Option (List PositionRisk)

namespace RiskIndex

def push (index : RiskIndex) (marketId : Nat) (risk : PositionRisk) : RiskIndex :=
  Function.update index marketId (some (risk :: (index marketId).getD []))

-- Value and equity are computed and kept beside the ratio, where nothing reads them.
def createPositionRisk (trader : Address) (marketId : Nat) (position : Position) (markPrice : Nat) :
    Except EngineError PositionRisk := do
  let marginRatio ← calculateMarginRatio position markPrice
  let _ ← calculatePositionValue position markPrice
  let _ ← calculatePositionEquity position markPrice
  return ⟨trader,marketId,marginRatio⟩

def updateRiskIndex (state : StateManager) (trader : Address) (marketId markPrice : Nat) (index : RiskIndex) :
    Except EngineError Unit × RiskIndex :=
  match state.getPosition trader marketId with
  | none => (.ok (),index)
  | some position =>
    if position.size = 0 then (.ok (),index)
    else
      match createPositionRisk trader marketId position markPrice with
      | .error error => (.error error,index)
      | .ok risk => (.ok (),index.push marketId risk)

def pushEach (marketId markPrice : Nat) (index : RiskIndex) : List (Address × Position) → Except EngineError Unit × RiskIndex
  | [] => (.ok (),index)
  | (trader,position) :: rest =>
    if position.size = 0 then pushEach marketId markPrice index rest
    else
      match createPositionRisk trader marketId position markPrice with
      | .error error => (.error error,index)
      | .ok risk => pushEach marketId markPrice (index.push marketId risk) rest

-- The heap is dropped first; an error leaves what has been pushed so far.
def rebuildRiskIndex (state : StateManager) (marketId markPrice : Nat) (index : RiskIndex) :
    Except EngineError Unit × RiskIndex :=
  pushEach marketId markPrice (Function.update index marketId (some [])) (state.getAllPositionsInMarket marketId)

end RiskIndex

inductive RiskCall where
  | updateRiskIndex (state : StateManager) (trader : Address) (marketId markPrice : Nat)
  | rebuildRiskIndex (state : StateManager) (marketId markPrice : Nat)

namespace RiskCall

def after (index : RiskIndex) : RiskCall → RiskIndex
  | .updateRiskIndex state trader marketId markPrice => (RiskIndex.updateRiskIndex state trader marketId markPrice index).2
  | .rebuildRiskIndex state marketId markPrice => (RiskIndex.rebuildRiskIndex state marketId markPrice index).2

def run (calls : List RiskCall) : RiskIndex := calls.foldl after fun _ => none

def heap (calls : List RiskCall) (marketId : Nat) : List PositionRisk := (run calls marketId).getD []

def Filed (index : RiskIndex) : Prop := ∀ marketId heap, index marketId = some heap → ∀ risk ∈ heap, risk.marketId = marketId

theorem createPositionRisk_market {risk : PositionRisk}
    (created : RiskIndex.createPositionRisk trader marketId position markPrice = .ok risk) : risk.marketId = marketId := by
  obtain ⟨_,_,created⟩ := bind_eq_ok created
  obtain ⟨_,_,created⟩ := bind_eq_ok created
  obtain ⟨_,_,created⟩ := bind_eq_ok created
  cases created
  rfl

theorem Filed.push {index : RiskIndex} {risk : PositionRisk} (filed : Filed index) (own : risk.marketId = marketId) :
    Filed (index.push marketId risk) := by
  intro read heap found other inside
  by_cases same : read = marketId
  · subst same
    rw [RiskIndex.push,Function.update_self] at found
    cases found
    rcases List.mem_cons.mp inside with rfl | inside
    · exact own
    · cases present : index read with
      | none =>
        rw [present] at inside
        cases inside
      | some heap =>
        rw [present] at inside
        exact filed read heap present other inside
  · rw [RiskIndex.push,Function.update_of_ne same] at found
    exact filed read heap found other inside

theorem Filed.pushEach {index : RiskIndex} (filed : Filed index) (marketId markPrice : Nat)
    (positions : List (Address × Position)) : Filed (RiskIndex.pushEach marketId markPrice index positions).2 := by
  induction positions generalizing index with
  | nil => exact filed
  | cons entry rest ih =>
    obtain ⟨trader,position⟩ := entry
    rw [RiskIndex.pushEach]
    split
    · exact ih filed
    · cases created : RiskIndex.createPositionRisk trader marketId position markPrice with
      | error error => exact filed
      | ok risk =>
        apply ih
        exact filed.push (createPositionRisk_market created)

theorem Filed.after {index : RiskIndex} (filed : Filed index) (call : RiskCall) : Filed (call.after index) := by
  cases call with
  | updateRiskIndex state trader marketId markPrice =>
    unfold RiskCall.after RiskIndex.updateRiskIndex
    dsimp only
    split
    · exact filed
    · split
      · exact filed
      · split
        · exact filed
        · rename_i risk created
          exact filed.push (createPositionRisk_market created)
  | rebuildRiskIndex state marketId markPrice =>
    apply Filed.pushEach
    intro read heap found risk inside
    by_cases same : read = marketId
    · subst same
      rw [Function.update_self] at found
      cases found
      cases inside
    · rw [Function.update_of_ne same] at found
      exact filed read heap found risk inside

theorem run_filed (calls : List RiskCall) : Filed (run calls) := by
  induction calls using List.reverseRecOn with
  | nil =>
    intro _ _ found
    cases found
  | append_singleton calls call ih =>
    rw [run,List.foldl_append]
    exact ih.after call

theorem heap_market (calls : List RiskCall) (marketId : Nat) : ∀ risk ∈ heap calls marketId, risk.marketId = marketId := by
  intro risk inside
  unfold heap at inside
  cases found : run calls marketId with
  | none =>
    rw [found] at inside
    cases inside
  | some heap =>
    rw [found] at inside
    exact run_filed calls marketId heap found risk inside

end RiskCall
end Pranklin
