import Pranklin.Calls
import Pranklin.Premium

namespace Pranklin
open Words Effect Proportion

namespace FundingRateCalculator
variable {c : FundingRateCalculator} {e after : Engine} {market : Market}
  {marketId markPrice oraclePrice first timestamp : Nat} {rest : List Nat}

def charge (markPrice oraclePrice scaled : Nat) : Int := if oraclePrice ≤ markPrice then scaled else -scaled

-- Off an interval of one nothing reaches the sign bit; there the whole premium has to keep off it.
def Straight (c : FundingRateCalculator) (markPrice oraclePrice span interval : Nat) : Prop :=
  interval = 1 → c.clampedPremium markPrice oraclePrice * span < 2 ^ 63

theorem Straight.mono {span span' interval : Nat} (straight : Straight c markPrice oraclePrice span interval)
    (less : span' ≤ span) : Straight c markPrice oraclePrice span' interval := by
  intro unit
  exact Nat.lt_of_le_of_lt (Nat.mul_le_mul_left _ less) (straight unit)

theorem calculateFundingRate_straight {elapsed interval : Nat} {rate : Int} (paced : 0 < interval)
    (straight : Straight c markPrice oraclePrice elapsed interval)
    (done : c.calculateFundingRate markPrice oraclePrice elapsed interval = .ok rate) :
    rate = charge markPrice oraclePrice (c.clampedPremium markPrice oraclePrice * elapsed / interval) := by
  rcases Nat.eq_zero_or_pos oraclePrice with rfl | priced
  · cases done
    rw [clampedPremium_unpriced,Nat.zero_mul,Nat.zero_div]
    exact (if_pos (Nat.zero_le _)).symm
  · obtain ⟨scaled,came,rfl⟩ := calculateFundingRate_ok priced done
    have small : scaled < 2 ^ 63 := by
      by_cases unit : interval = 1
      · subst unit
        rw [(scaled_one came).1]
        exact straight rfl
      · exact scaled_lt came unit
    rcases scale_ok came with ⟨_,_,rfl⟩ | ⟨still,_⟩
    · unfold charge
      by_cases above : oraclePrice ≤ markPrice
      · rw [signedRate_above above,if_pos small,if_pos above]
      · rw [signedRate_below above,if_pos (Nat.le_of_lt small),if_neg above]
    · omega

def updateAll (c : FundingRateCalculator) (marketId markPrice oraclePrice : Nat) : List Nat → EngineM Unit
  | [] => pure ()
  | timestamp :: later => do
    c.updateFundingRate marketId markPrice oraclePrice timestamp
    updateAll c marketId markPrice oraclePrice later

def spans : Nat → List Nat → List Nat
  | _,[] => []
  | last,timestamp :: later => (timestamp - last) :: spans timestamp later

theorem length_spans (last : Nat) (later : List Nat) : (spans last later).length = later.length := by
  induction later generalizing last with
  | nil => rfl
  | cons timestamp later ih => exact congrArg Nat.succ (ih timestamp)

theorem sum_spans (last : Nat) (later : List Nat) (ascending : (last :: later).Pairwise (· < ·)) :
    last + (spans last later).sum = (last :: later).getLast (List.cons_ne_nil _ _) := by
  induction later generalizing last with
  | nil => rfl
  | cons timestamp later ih =>
    rw [List.pairwise_cons] at ascending
    have next := ascending.1 timestamp List.mem_cons_self
    rw [List.getLast_cons (List.cons_ne_nil _ _),← ih timestamp ascending.2,spans,List.sum_cons]
    omega

theorem charge_add (first second : Nat) :
    charge markPrice oraclePrice (first + second) = charge markPrice oraclePrice first + charge markPrice oraclePrice second := by
  unfold charge
  split <;> omega

def fundingIndex (e : Engine) (marketId : Nat) : Int := (e.state.getFundingRate marketId).index

def lastUpdate (e : Engine) (marketId : Nat) : Nat := (e.state.getFundingRate marketId).lastUpdate

theorem updateFundingRate_stamps (registered : e.state.getMarket marketId = some market)
    (ran : exec (c.updateFundingRate marketId markPrice oraclePrice timestamp) e = (.ok (),after)) :
    after.state.getMarket marketId = some market ∧ lastUpdate after marketId = timestamp := by
  obtain ⟨rate,_,stored⟩ := updateFundingRate_ok registered ran
  rw [lastUpdate,stored,StateManager.getFundingRate_setFundingRate,StateManager.getMarket_setFundingRate]
  exact ⟨registered,rfl⟩

theorem updateFundingRate_index (registered : e.state.getMarket marketId = some market) (paced : 0 < market.fundingInterval)
    (begun : 0 < lastUpdate e marketId)
    (straight : Straight c markPrice oraclePrice (timestamp - lastUpdate e marketId) market.fundingInterval)
    (ran : exec (c.updateFundingRate marketId markPrice oraclePrice timestamp) e = (.ok (),after)) :
    fundingIndex after marketId = fundingIndex e marketId + charge markPrice oraclePrice
      (c.clampedPremium markPrice oraclePrice * (timestamp - lastUpdate e marketId) / market.fundingInterval) := by
  obtain ⟨rate,reckoned,stored⟩ := updateFundingRate_ok registered ran
  have elapsed : timeElapsed (e.state.getFundingRate marketId) timestamp = timestamp - lastUpdate e marketId := if_pos begun
  rw [elapsed] at reckoned
  rw [fundingIndex,stored,StateManager.getFundingRate_setFundingRate]
  rw [calculateFundingRate_straight paced straight reckoned]
  rfl

-- What the updates of a run accumulate, by induction on the timestamps still to come.
theorem updateAll_index (paced : 0 < market.fundingInterval) (later : List Nat) :
    ∀ e after, e.state.getMarket marketId = some market → 0 < lastUpdate e marketId →
      (lastUpdate e marketId :: later).Pairwise (· < ·) →
      Straight c markPrice oraclePrice (spans (lastUpdate e marketId) later).sum market.fundingInterval →
      exec (c.updateAll marketId markPrice oraclePrice later) e = (.ok (),after) →
      fundingIndex after marketId = fundingIndex e marketId + charge markPrice oraclePrice
        (accrued (c.clampedPremium markPrice oraclePrice) market.fundingInterval (spans (lastUpdate e marketId) later)) := by
  induction later with
  | nil =>
    intro e after _ _ _ _ ran
    cases ran
    rw [spans,accrued_nil,charge]
    split <;> simp
  | cons timestamp later ih =>
    intro e after registered begun ascending straight ran
    obtain ⟨_,middle,one,ran⟩ := exec_bind_ok ran
    rw [spans,List.sum_cons] at straight
    rw [List.pairwise_cons] at ascending
    have next := ascending.1 timestamp List.mem_cons_self
    obtain ⟨kept,stamped⟩ := updateFundingRate_stamps registered one
    have moved := updateFundingRate_index registered paced begun (straight.mono (Nat.le_add_right _ _)) one
    have others := ih middle after kept (stamped ▸ by omega) (stamped ▸ ascending.2)
      (stamped ▸ straight.mono (Nat.le_add_left _ _)) ran
    rw [others,moved,stamped,spans,accrued_cons,charge_add,Int.add_assoc]

theorem updateAll_index_diff {often once : Engine} (registered : e.state.getMarket marketId = some market)
    (paced : 0 < market.fundingInterval) (begun : 0 < first) (more : rest ≠ [])
    (ascending : (first :: rest).Pairwise (· < ·))
    (straight : Straight c markPrice oraclePrice (rest.getLast more - first) market.fundingInterval)
    (ranOften : exec (c.updateAll marketId markPrice oraclePrice (first :: rest)) e = (.ok (),often))
    (ranOnce : exec (c.updateAll marketId markPrice oraclePrice [first,rest.getLast more]) e = (.ok (),once)) :
    ∃ lost, lost + 1 ≤ rest.length ∧ fundingIndex often marketId + charge markPrice oraclePrice lost = fundingIndex once marketId := by
  obtain ⟨_,started,one,ranOften⟩ := exec_bind_ok ranOften
  rw [updateAll,exec_ok_bind one] at ranOnce
  obtain ⟨kept,stamped⟩ := updateFundingRate_stamps registered one
  have whole := sum_spans first rest ascending
  rw [List.getLast_cons more] at whole
  have behind : first < rest.getLast more := (List.pairwise_cons.mp ascending).1 _ (List.getLast_mem more)
  have ends : spans first [rest.getLast more] = [(spans first rest).sum] := by
    rw [spans,spans,← whole,Nat.add_sub_cancel_left]
  have sum : rest.getLast more - first = (spans first rest).sum := by omega
  have manyMoved := updateAll_index paced rest started often kept (stamped ▸ begun) (stamped ▸ ascending)
    (stamped ▸ sum ▸ straight) ranOften
  have onceMoved := updateAll_index paced [rest.getLast more] started once kept (stamped ▸ begun)
    (by rw [stamped]; simpa using behind) (by rw [stamped,ends,List.sum_singleton,← sum]; exact straight) ranOnce
  have below := accrued_le (c.clampedPremium markPrice oraclePrice) market.fundingInterval (spans first rest)
  have above := le_accrued (c.clampedPremium markPrice oraclePrice) market.fundingInterval (spans first rest)
    (by rw [← List.length_pos_iff,length_spans]; exact List.length_pos_iff.mpr more)
  rw [length_spans] at above
  rw [stamped] at manyMoved onceMoved
  rw [ends,accrued_cons,accrued_nil,Nat.add_zero] at onceMoved
  obtain ⟨lost,gap⟩ := Nat.exists_eq_add_of_le below
  refine ⟨lost,by omega,?_⟩
  rw [manyMoved,onceMoved,gap,charge_add,Int.add_assoc]

theorem index_gap_lt_updates {often once : Engine} (registered : e.state.getMarket marketId = some market)
    (paced : 0 < market.fundingInterval) (begun : 0 < first) (more : rest ≠ [])
    (ascending : (first :: rest).Pairwise (· < ·))
    (straight : Straight c markPrice oraclePrice (rest.getLast more - first) market.fundingInterval)
    (ranOften : exec (c.updateAll marketId markPrice oraclePrice (first :: rest)) e = (.ok (),often))
    (ranOnce : exec (c.updateAll marketId markPrice oraclePrice [first,rest.getLast more]) e = (.ok (),once)) :
    (fundingIndex once marketId - fundingIndex often marketId).natAbs + 1 ≤ rest.length ∧
      (oraclePrice ≤ markPrice → fundingIndex often marketId ≤ fundingIndex once marketId) ∧
      (markPrice < oraclePrice → fundingIndex once marketId ≤ fundingIndex often marketId) := by
  obtain ⟨lost,few,same⟩ := updateAll_index_diff registered paced begun more ascending straight ranOften ranOnce
  unfold charge at same
  split at same
  · exact ⟨by omega,fun _ => by omega,fun below => by omega⟩
  · exact ⟨by omega,fun above => by omega,fun _ => by omega⟩

def hurried : Engine := (exec (default.updateAll 0 101 100 [1,36,71,73]) (Engine.new Bench.state)).2

def patient : Engine := (exec (default.updateAll 0 101 100 [1,73]) (Engine.new Bench.state)).2

theorem index_gap_two :
    (exec (default.updateAll 0 101 100 [1,36,71,73]) (Engine.new Bench.state)).1 = .ok () ∧
      (exec (default.updateAll 0 101 100 [1,73]) (Engine.new Bench.state)).1 = .ok () ∧
      Bench.state.getMarket 0 = some Bench.market ∧ [1,36,71,73].Pairwise (· < ·) ∧
      ¬(fundingIndex patient 0 - fundingIndex hurried 0).natAbs ≤ 1 := by
  decide +kernel

theorem index_gap_lt_updates_on_bench :
    (fundingIndex patient 0 - fundingIndex hurried 0).natAbs + 1 ≤ [36,71,73].length ∧
      (100 ≤ 101 → fundingIndex hurried 0 ≤ fundingIndex patient 0) ∧
      (101 < 100 → fundingIndex patient 0 ≤ fundingIndex hurried 0) :=
  have setting : (exec (default.updateAll 0 101 100 [1,36,71,73]) (Engine.new Bench.state)).1 = .ok () ∧
      (exec (default.updateAll 0 101 100 [1,73]) (Engine.new Bench.state)).1 = .ok () ∧
      Bench.state.getMarket 0 = some Bench.market := by decide +kernel
  index_gap_lt_updates setting.2.2 (by decide) (by decide) (by decide) (by decide) (fun unit => absurd unit (by decide))
    (exec_of_result setting.1) (exec_of_result setting.2.1)

end FundingRateCalculator
end Pranklin
