import Pranklin.Interrupted
import Pranklin.Relief

namespace Pranklin
open Words Effect LiquidationEngine

namespace OneSided
open Interrupted OpenInterest
variable {e after : Engine} {trader liquidator : Address} {marketId markPrice price size : Nat} {position : Position}
  {market : Market} {amounts : LiquidationAmounts} {result : LiquidationResult}

def longs (e : Engine) (marketId : Nat) : Nat := ∑ address : Address, longSize (e.state.getPosition address marketId)

def shorts (e : Engine) (marketId : Nat) : Nat := ∑ address : Address, shortSize (e.state.getPosition address marketId)

def Balanced (e : Engine) (marketId : Nat) : Prop := longs e marketId = shorts e marketId

theorem distribute_positions
    (ran : exec (distribute trader marketId price liquidator market position size amounts) e = (.ok result,after)) :
    result.liquidatedSize = size ∧ ∀ holder read, after.state.getPosition holder read =
      (seizedState e.state trader marketId position size).getPosition holder read := by
  rw [distribute,exec_reads_bind,exec_ok_bind (draw_exec e marketId amounts)] at ran
  obtain ⟨rfl,positions,_⟩ := paid_ok ran
  exact ⟨rfl,positions⟩

theorem liquidated_positions (found : e.state.getPosition trader marketId = some position)
    (ran : exec (liquidateWithIncentive trader marketId markPrice liquidator) e = (.ok (some result),after)) :
    ∀ holder read, ¬(holder = trader ∧ read = marketId) →
      after.state.getPosition holder read = e.state.getPosition holder read := by
  have course := liquidateWithIncentive_liquidation ran
  generalize outcome : (Except.ok (some result) : Except EngineError (Option LiquidationResult)) = answer at course
  cases course with
  | refused error undue => cases outcome
  | spared _ safe => cases outcome
  | due priced present risky settled =>
    rename_i other answer
    cases answer with
    | error error => cases outcome
    | ok answer =>
    have unplaced := unplaced_cancelTraderOrders trader marketId e
    have before : ∀ holder read, (withdrawn e trader marketId).state.getPosition holder read =
        e.state.getPosition holder read := fun holder read => unplaced.reads (.position holder read) rfl
    rw [settleLiquidation_exec ((before trader marketId).trans found)] at settled
    cases reckoned : reckon (withdrawn e trader marketId).liquidation position other (other.normalizePrice markPrice) with
    | error error =>
      rw [reckoned] at settled
      cases settled
    | ok computed =>
      rw [reckoned] at settled
      intro holder read elsewhere
      rw [(distribute_positions settled).2,getPosition_seizedState,if_neg elsewhere,before]

def TakesNothing (e : Engine) (trader : Address) (marketId markPrice : Nat) : Prop :=
  ∀ market position, e.state.getMarket marketId = some market → e.state.getPosition trader marketId = some position →
    shouldLiquidate e.state trader marketId (market.normalizePrice markPrice) market = .ok true →
    Relief.Stalls e.liquidation position (market.normalizePrice markPrice) market

section Sums

theorem sum_lowered {f g : Address → Nat} {amount : Nat} (trader : Address) (others : ∀ holder, holder ≠ trader → g holder = f holder)
    (own : g trader + amount = f trader) : ∑ holder : Address, g holder + amount = ∑ holder : Address, f holder := by
  rw [← Finset.add_sum_erase _ f (Finset.mem_univ trader),← Finset.add_sum_erase _ g (Finset.mem_univ trader)]
  have rest : ∑ holder ∈ Finset.univ.erase trader, g holder = ∑ holder ∈ Finset.univ.erase trader, f holder :=
    Finset.sum_congr rfl fun holder inside => others holder (Finset.ne_of_mem_erase inside)
  rw [rest]
  omega

theorem sides_after (drops : e.state.DropsPositions) (registered : e.state.getMarket marketId = some market)
    (found : e.state.getPosition trader marketId = some position)
    (ran : exec (liquidateWithIncentive trader marketId markPrice liquidator) e = (.ok (some result),after)) :
    let taken := seizedSize e.liquidation position (market.normalizePrice markPrice) market
    longs after marketId + (if position.isLong then taken else 0) = longs e marketId ∧
      shorts after marketId + (if position.isLong then 0 else taken) = shorts e marketId := by
  have liquidated := (liquidated_of_ok registered found ran).1
  have stored := liquidated.stored
  rw [drops.committed,liquidated.reported] at stored
  dsimp only at stored ⊢
  generalize sized : seizedSize e.liquidation position (market.normalizePrice markPrice) market = taken at stored
  have within : taken ≤ position.size := sized ▸ seizedSize_le e.liquidation
  have elsewhere := liquidated_positions found ran
  constructor
  · apply sum_lowered trader
    · intro holder other
      rw [elsewhere holder marketId fun same => other same.1]
    · rw [stored,found]
      split
      · rw [longSize,longSize,Option.elim_none,Option.elim_some]
        split <;> omega
      · rw [longSize,longSize,Option.elim_some,Option.elim_some,leftover]
        dsimp only
        split <;> omega
  · apply sum_lowered trader
    · intro holder other
      rw [elsewhere holder marketId fun same => other same.1]
    · rw [stored,found]
      split
      · rw [shortSize,shortSize,Option.elim_none,Option.elim_some]
        split <;> omega
      · rw [shortSize,shortSize,Option.elim_some,Option.elim_some,leftover]
        dsimp only
        split <;> omega

theorem long_side_after {taken : Nat} (drops : e.state.DropsPositions) (registered : e.state.getMarket marketId = some market)
    (found : e.state.getPosition trader marketId = some position) (long : position.isLong = true)
    (sized : seizedSize e.liquidation position (market.normalizePrice markPrice) market = taken) (positive : 0 < taken)
    (ran : exec (liquidateWithIncentive trader marketId markPrice liquidator) e = (.ok (some result),after)) :
    longs after marketId + taken = longs e marketId ∧ shorts after marketId = shorts e marketId ∧
      (Balanced e marketId → ¬Balanced after marketId) := by
  have sides := sides_after drops registered found ran
  dsimp only at sides
  rw [sized,long,if_pos rfl,if_pos rfl,Nat.add_zero] at sides
  refine ⟨sides.1,sides.2,fun before balanced => ?_⟩
  unfold Balanced at before balanced
  omega

-- A liquidation sets a balanced market off balance whenever it takes anything; other markets stay as they are.
theorem stays_balanced_iff {answer : Option LiquidationResult} (drops : e.state.DropsPositions)
    (ran : exec (liquidateWithIncentive trader marketId markPrice liquidator) e = (.ok answer,after)) :
    (∀ read, read ≠ marketId → (Balanced after read ↔ Balanced e read)) ∧
      (Balanced e marketId → (Balanced after marketId ↔ TakesNothing e trader marketId markPrice)) := by
  have course := liquidateWithIncentive_liquidation ran
  generalize outcome : (Except.ok answer : Except EngineError (Option LiquidationResult)) = outcome at course
  have idle : ∀ read, after = e → (Balanced after read ↔ Balanced e read) := by
    rintro read rfl
    exact Iff.rfl
  cases course with
  | refused error undue => cases outcome
  | spared registered safe =>
    refine ⟨fun read _ => idle read rfl,fun before => iff_of_true before ?_⟩
    intro market position present _ risky
    rw [registered] at present
    cases present
    rw [safe] at risky
    cases risky
  | due priced registered risky settled =>
    rename_i market answered
    cases answered with
    | error error => cases outcome
    | ok result =>
    cases outcome
    obtain ⟨position,found,_⟩ := held_of_due risky
    have elsewhere := liquidated_positions found ran
    obtain ⟨held,worth⟩ := Relief.held_and_priced ((shouldLiquidate_of_position found risky).mp rfl)
    constructor
    · intro read other
      have same : ∀ holder, after.state.getPosition holder read = e.state.getPosition holder read :=
        fun holder => elsewhere holder read fun own => other own.2
      unfold Balanced longs shorts
      simp only [same]
    · intro before
      have sides := sides_after drops registered found ran
      dsimp only at sides
      have takes : TakesNothing e trader marketId markPrice ↔
          seizedSize e.liquidation position (market.normalizePrice markPrice) market = 0 := by
        rw [Relief.seizedSize_eq_zero held worth]
        constructor
        · intro all
          exact all market position registered found risky
        · intro stalls other another present stored _
          rw [registered] at present
          rw [found] at stored
          cases present
          cases stored
          exact stalls
      rw [takes]
      unfold Balanced at before ⊢
      split at sides <;> omega

end Sums

def paired : Engine := Engine.new ((Bench.state.setPosition Bench.alice 0 ⟨10000,100,true,100000,0⟩).setPosition
  Bench.bob 0 ⟨10000,100,false,100000,0⟩)

theorem paired_position (holder : Address) : paired.state.getPosition holder 0 =
    if holder = Bench.bob then some ⟨10000,100,false,100000,0⟩
    else if holder = Bench.alice then some ⟨10000,100,true,100000,0⟩ else none := by
  rw [paired,Engine.new,StateManager.getPosition_setPosition,StateManager.getPosition_setPosition,Bench.noPositions]
  simp only [and_true]

theorem paired_balanced : Balanced paired 0 := by
  have different : Bench.alice ≠ Bench.bob := by decide
  have long : longs paired 0 = 10000 := by
    have sizes : ∀ holder, longSize (paired.state.getPosition holder 0) = if holder = Bench.alice then 10000 else 0 := by
      intro holder
      rw [paired_position]
      by_cases bob : holder = Bench.bob
      · rw [if_pos bob,if_neg (bob ▸ different.symm)]
        rfl
      · rw [if_neg bob]
        split <;> rfl
    unfold longs
    simp only [sizes,Finset.sum_ite_eq',Finset.mem_univ,if_true]
  have short : shorts paired 0 = 10000 := by
    have sizes : ∀ holder, shortSize (paired.state.getPosition holder 0) = if holder = Bench.bob then 10000 else 0 := by
      intro holder
      rw [paired_position]
      split
      · rfl
      · split <;> rfl
    unfold shorts
    simp only [sizes,Finset.sum_ite_eq',Finset.mem_univ,if_true]
  exact long.trans short.symm

theorem paired_drops : paired.state.DropsPositions := by
  apply Isolation.drops_of_flat
  intro address marketId
  rw [paired,Engine.new,StateManager.committed_setPosition,StateManager.committed_setPosition]
  exact StateManager.committed_of_get_none (Bench.reads_none _ rfl)

theorem paired_facts :
    paired.state.getMarket 0 = some Bench.market ∧
      paired.state.getPosition Bench.alice 0 = some ⟨10000,100,true,100000,0⟩ ∧
      (exec (liquidateWithIncentive Bench.alice 0 92 Bench.carol) paired).1 =
        .ok (some ⟨Bench.alice,0,1000,92,920,19080,some Bench.carol,460,460,0⟩) ∧
      seizedSize paired.liquidation ⟨10000,100,true,100000,0⟩ (Bench.market.normalizePrice 92) Bench.market = 1000 := by
  decide +kernel

def unpaired : Engine := (exec (liquidateWithIncentive Bench.alice 0 92 Bench.carol) paired).2

theorem paired_ran : exec (liquidateWithIncentive Bench.alice 0 92 Bench.carol) paired =
    (.ok (some ⟨Bench.alice,0,1000,92,920,19080,some Bench.carol,460,460,0⟩),unpaired) := exec_of_result paired_facts.2.2.1

-- At 92 a tenth of Alice's position is liquidated and nobody takes it over.
theorem liquidation_unbalances :
    Balanced paired 0 ∧ longs unpaired 0 + 1000 = longs paired 0 ∧ shorts unpaired 0 = shorts paired 0 ∧
      ¬Balanced unpaired 0 := by
  obtain ⟨registered,found,_,taken⟩ := paired_facts
  obtain ⟨long,short,unbalanced⟩ := long_side_after paired_drops registered found rfl taken (by decide) paired_ran
  exact ⟨paired_balanced,long,short,unbalanced paired_balanced⟩

theorem stays_balanced_on_bench :
    (∀ read, read ≠ 0 → (Balanced unpaired read ↔ Balanced paired read)) ∧
      (Balanced paired 0 → (Balanced unpaired 0 ↔ TakesNothing paired Bench.alice 0 92)) :=
  stays_balanced_iff paired_drops paired_ran

end OneSided
end Pranklin
