import Pranklin.Calls

namespace Pranklin
open Words Effect

theorem exists_threshold {P : Nat → Prop} (down : ∀ p q, 0 < q → q ≤ p → P p → P q) (bound : Nat) :
    ∃ threshold, ∀ p, 0 < p → p < bound → (P p ↔ p < threshold) := by
  by_cases fails : ∃ p, 0 < p ∧ ¬P p
  · classical
    obtain ⟨positive,first⟩ := Nat.find_spec fails
    refine ⟨Nat.find fails,fun p above _ => ⟨fun holds => ?_,fun below => ?_⟩⟩
    · by_contra beyond
      exact first (down p _ positive (Nat.le_of_not_lt beyond) holds)
    · by_contra fails_here
      exact Nat.find_min fails below ⟨above,fails_here⟩
  · refine ⟨bound,fun p above inside => ⟨fun _ => inside,fun _ => ?_⟩⟩
    by_contra fails_here
    exact fails ⟨p,above,fails_here⟩

def equity (position : Position) (price : Nat) : Nat :=
  if position.isLong then position.margin + position.size * price - position.size * position.entryPrice
  else position.margin + position.size * position.entryPrice - position.size * price

def UnderMargined (position : Position) (price maintenanceMarginBps : Nat) : Prop :=
  equity position price * basisPoints < maintenanceMarginBps * (position.size * price)

instance (position : Position) (price maintenanceMarginBps : Nat) :
    Decidable (UnderMargined position price maintenanceMarginBps) := Nat.decLt _ _

-- The two tests part exactly where the requirement, rounded down, is met and the exact one is missed.
def Undecided (position : Position) (price maintenanceMarginBps : Nat) : Prop :=
  equity position price = position.size * price * maintenanceMarginBps / basisPoints ∧
    ¬basisPoints ∣ position.size * price * maintenanceMarginBps

namespace LiquidationEngine
variable {position : Position} {price markPrice : Nat} {state : StateManager} {trader : Address} {marketId : Nat}
  {market : Market}

theorem profit_or_loss (ran : PositionManager.calculatePnl position price = .ok (pnl,isProfit)) :
    equity position price = if isProfit then position.margin + pnl else position.margin - pnl := by
  unfold PositionManager.calculatePnl at ran
  split at ran
  · rename_i empty
    cases ran
    simp [equity,empty]
  obtain ⟨entryValue,entered,ran⟩ := bind_eq_ok ran
  obtain ⟨markValue,marked,ran⟩ := bind_eq_ok ran
  obtain ⟨_,rfl⟩ := checkedMul_eq_some.mp (orOverflow_eq_ok.mp entered)
  obtain ⟨_,rfl⟩ := checkedMul_eq_some.mp (orOverflow_eq_ok.mp marked)
  unfold equity
  split at ran
  · rename_i long
    rw [if_pos long]
    split at ran
    · cases ran
      simp only [if_true]
      omega
    · cases ran
      simp only [Bool.false_eq_true,if_false]
      omega
  · rename_i short
    rw [if_neg short]
    split at ran
    · cases ran
      simp only [if_true]
      omega
    · cases ran
      simp only [Bool.false_eq_true,if_false]
      omega

theorem equity_of_ok (ran : calculatePositionEquity position price = .ok found) : found = equity position price := by
  obtain ⟨⟨pnl,isProfit⟩,reckoned,ran⟩ := bind_eq_ok ran
  rw [profit_or_loss reckoned]
  cases isProfit with
  | true => exact (checkedAdd_eq_some.mp (orOverflow_eq_ok.mp ran)).2
  | false =>
    cases ran
    rfl

theorem value_of_ok (ran : calculatePositionValue position price = .ok found) : found = position.size * price :=
  (checkedMul_eq_some.mp (orOverflow_eq_ok.mp ran)).2

theorem ratio_lt {equity value bps : Nat} (bounded : bps < 2 ^ 32) (positive : 0 < value) :
    min (equity * basisPoints / value) (2 ^ 32 - 1) < bps ↔ equity * basisPoints < bps * value := by
  rw [← Nat.div_lt_iff_lt_mul positive]
  omega

theorem shouldLiquidate_of_position (found : state.getPosition trader marketId = some position)
    (ran : shouldLiquidate state trader marketId price market = .ok due) :
    due = true ↔ UnderMargined position price market.maintenanceMarginBps := by
  unfold shouldLiquidate at ran
  rw [found] at ran
  dsimp only at ran
  unfold UnderMargined
  split at ran
  · rename_i empty
    cases ran
    simp [empty]
  rename_i held
  obtain ⟨ratio,reckoned,ran⟩ := bind_eq_ok ran
  cases ran
  unfold calculateMarginRatio at reckoned
  rw [if_neg held] at reckoned
  obtain ⟨_,first,reckoned⟩ := bind_eq_ok reckoned
  obtain ⟨_,second,reckoned⟩ := bind_eq_ok reckoned
  cases equity_of_ok first
  cases value_of_ok second
  have bounded := market.words32.2.1
  rw [decide_eq_true_eq]
  split at reckoned
  · rename_i worthless
    cases reckoned
    rw [worthless]
    omega
  · rename_i worth
    obtain ⟨_,reckoned⟩ := checkedMul_bind_ok reckoned
    cases reckoned
    exact ratio_lt bounded (Nat.pos_of_ne_zero worth)

theorem shouldLiquidate_iff (ran : shouldLiquidate state trader marketId price market = .ok due) :
    due = true ↔ ∃ position, state.getPosition trader marketId = some position ∧
      UnderMargined position price market.maintenanceMarginBps := by
  cases found : state.getPosition trader marketId with
  | none =>
    unfold shouldLiquidate at ran
    rw [found] at ran
    cases ran
    simp
  | some position =>
    rw [shouldLiquidate_of_position found ran]
    simp

theorem bounds_of_answer (found : state.getPosition trader marketId = some position) (held : 0 < position.size)
    (priced : 0 < price) (asked : shouldLiquidate state trader marketId price market = .ok due) :
    position.size * position.entryPrice < 2 ^ 128 ∧ position.size * price < 2 ^ 128 ∧
      equity position price * basisPoints < 2 ^ 128 := by
  unfold shouldLiquidate at asked
  rw [found] at asked
  dsimp only at asked
  rw [if_neg (Nat.ne_of_gt held)] at asked
  obtain ⟨ratio,reckoned,_⟩ := bind_eq_ok asked
  unfold calculateMarginRatio at reckoned
  rw [if_neg (Nat.ne_of_gt held)] at reckoned
  obtain ⟨_,weighed,reckoned⟩ := bind_eq_ok reckoned
  obtain ⟨_,valued,reckoned⟩ := bind_eq_ok reckoned
  cases equity_of_ok weighed
  obtain ⟨word,rfl⟩ := checkedMul_eq_some.mp (orOverflow_eq_ok.mp valued)
  rw [if_neg (Nat.ne_of_gt (Nat.mul_pos held priced))] at reckoned
  obtain ⟨_,scaled,_⟩ := bind_eq_ok reckoned
  obtain ⟨pnl,compared,_⟩ := bind_eq_ok weighed
  unfold PositionManager.calculatePnl at compared
  rw [if_neg (Nat.ne_of_gt held)] at compared
  obtain ⟨_,entered,_⟩ := bind_eq_ok compared
  exact ⟨(checkedMul_eq_some.mp (orOverflow_eq_ok.mp entered)).1,word,(checkedMul_eq_some.mp (orOverflow_eq_ok.mp scaled)).1⟩

theorem calculatePnl_of_bounds (entry : position.size * position.entryPrice < 2 ^ 128)
    (value : position.size * price < 2 ^ 128) : ∃ pnl isProfit, PositionManager.calculatePnl position price = .ok (pnl,isProfit) := by
  unfold PositionManager.calculatePnl
  split
  · exact ⟨_,_,rfl⟩
  · rw [checkedMul_eq_some.mpr ⟨entry,rfl⟩,checkedMul_eq_some.mpr ⟨value,rfl⟩]
    simp only [orOverflow]
    change ∃ pnl isProfit, (if position.isLong then _ else _) = _
    split
    · split
      · exact ⟨_,_,rfl⟩
      · exact ⟨_,_,rfl⟩
    · split
      · exact ⟨_,_,rfl⟩
      · exact ⟨_,_,rfl⟩

theorem answer_of_bounds (found : state.getPosition trader marketId = some position)
    (entry : position.size * position.entryPrice < 2 ^ 128) (value : position.size * price < 2 ^ 128)
    (scaled : equity position price * basisPoints < 2 ^ 128) :
    ∃ due, shouldLiquidate state trader marketId price market = .ok due := by
  obtain ⟨pnl,isProfit,compared⟩ := calculatePnl_of_bounds entry value
  have weighed : calculatePositionEquity position price = .ok (equity position price) := by
    unfold calculatePositionEquity
    rw [compared]
    have worth := profit_or_loss compared
    cases isProfit with
    | true =>
      have word : position.margin + pnl < 2 ^ 128 := by
        rw [if_pos rfl] at worth
        unfold basisPoints at scaled
        omega
      rw [worth]
      exact orOverflow_eq_ok.mpr (checkedAdd_eq_some.mpr ⟨word,rfl⟩)
    | false => rw [worth]; rfl
  have valued : calculatePositionValue position price = .ok (position.size * price) :=
    orOverflow_eq_ok.mpr (checkedMul_eq_some.mpr ⟨value,rfl⟩)
  have ratio : ∃ ratio, calculateMarginRatio position price = .ok ratio := by
    unfold calculateMarginRatio
    rw [weighed,valued]
    split
    · exact ⟨_,rfl⟩
    · change ∃ ratio, (if position.size * price = 0 then _ else _) = _
      split
      · exact ⟨_,rfl⟩
      · rw [checkedMul_eq_some.mpr ⟨scaled,rfl⟩]
        exact ⟨_,rfl⟩
  obtain ⟨ratio,reckoned⟩ := ratio
  unfold shouldLiquidate
  rw [found]
  dsimp only
  split
  · exact ⟨_,rfl⟩
  · rw [reckoned]
    exact ⟨_,rfl⟩

theorem lt_floor_iff {equity required : Nat} :
    equity < required / basisPoints ↔
      equity * basisPoints < required ∧ ¬(equity = required / basisPoints ∧ ¬basisPoints ∣ required) := by
  unfold basisPoints
  omega

end LiquidationEngine

namespace RiskEngine
open LiquidationEngine
variable {position : Position} {price : Nat} {state : StateManager} {trader : Address} {marketId : Nat} {market : Market}

theorem checkLiquidation_of_position (registered : state.getMarket marketId = some market)
    (found : state.getPosition trader marketId = some position)
    (ran : checkLiquidation state trader marketId price = .ok due) :
    due = true ↔ equity position price < position.size * price * market.maintenanceMarginBps / basisPoints := by
  unfold checkLiquidation at ran
  rw [found] at ran
  dsimp only at ran
  split at ran
  · rename_i empty
    cases ran
    simp [empty]
  rw [registered] at ran
  obtain ⟨_,ran⟩ := checkedMul_bind_ok ran
  obtain ⟨_,ran⟩ := checkedMul_bind_ok ran
  obtain ⟨⟨pnl,isProfit⟩,reckoned,ran⟩ := bind_eq_ok ran
  rw [profit_or_loss reckoned]
  cases isProfit with
  | true =>
    obtain ⟨_,ran⟩ := checkedAdd_bind_ok ran
    cases ran
    rw [decide_eq_true_eq,if_pos rfl]
  | false =>
    cases ran
    rw [decide_eq_true_eq,if_neg Bool.false_ne_true]

end RiskEngine

namespace Margins
open LiquidationEngine RiskEngine
variable {state : StateManager} {trader : Address} {marketId price : Nat} {market : Market}

theorem tests_agree_iff (registered : state.getMarket marketId = some market)
    (checked : checkLiquidation state trader marketId price = .ok one)
    (asked : shouldLiquidate state trader marketId price market = .ok other) :
    one = other ↔ ∀ position, state.getPosition trader marketId = some position →
      ¬Undecided position price market.maintenanceMarginBps := by
  cases found : state.getPosition trader marketId with
  | none =>
    unfold checkLiquidation at checked
    unfold shouldLiquidate at asked
    rw [found] at checked asked
    cases checked
    cases asked
    simp
  | some position =>
    have first := checkLiquidation_of_position registered found checked
    have second := shouldLiquidate_of_position found asked
    rw [lt_floor_iff] at first
    unfold UnderMargined at second
    rw [Nat.mul_comm market.maintenanceMarginBps] at second
    have exact : Undecided position price market.maintenanceMarginBps →
        equity position price * basisPoints < position.size * price * market.maintenanceMarginBps := by
      unfold Undecided basisPoints
      omega
    rw [Bool.eq_iff_iff,first,second]
    constructor
    · rintro same _ ⟨⟩ undecided
      exact (same.mpr (exact undecided)).2 undecided
    · intro decided
      exact and_iff_left (decided position rfl)

-- At 30 the requirement is 1.5, of which one test sees 1.
def endangered : StateManager := Bench.state.setPosition Bench.alice 0 ⟨1,30,true,1,0⟩

theorem tests_part :
    checkLiquidation endangered Bench.alice 0 30 = .ok false ∧
      shouldLiquidate endangered Bench.alice 0 30 Bench.market = .ok true := by decide +kernel

theorem tests_agree_on_bench : (false = true ↔ ∀ position, endangered.getPosition Bench.alice 0 = some position →
    ¬Undecided position 30 500) := by
  have registered : endangered.getMarket 0 = some Bench.market := by decide +kernel
  have checked : checkLiquidation endangered Bench.alice 0 30 = .ok false := by decide +kernel
  have asked : shouldLiquidate endangered Bench.alice 0 30 Bench.market = .ok true := by decide +kernel
  exact tests_agree_iff registered checked asked

section Monotone
variable {position : Position} {maintenanceMarginBps p q : Nat}

-- A long loses equity faster than its requirement falls, unless more than its value must be maintained.
theorem underMargined_long (long : position.isLong = true) (bounded : maintenanceMarginBps ≤ basisPoints)
    (positive : 0 < q) (lower : q ≤ p) (risky : UnderMargined position p maintenanceMarginBps) :
    UnderMargined position q maintenanceMarginBps := by
  unfold UnderMargined equity at *
  rw [if_pos long] at *
  obtain ⟨d,rfl⟩ := Nat.exists_eq_add_of_le lower
  rw [Nat.mul_add,Nat.mul_add] at risky
  have falls : maintenanceMarginBps * (position.size * d) ≤ basisPoints * (position.size * d) :=
    Nat.mul_le_mul_right _ bounded
  by_cases spent : position.margin + position.size * q ≤ position.size * position.entryPrice
  · have held : 0 < position.size := by
      by_contra empty
      rw [Nat.eq_zero_of_not_pos empty] at risky
      omega
    have maintained : 0 < maintenanceMarginBps := by
      by_contra nothing
      rw [Nat.eq_zero_of_not_pos nothing] at risky
      omega
    rw [Nat.sub_eq_zero_of_le spent,Nat.zero_mul]
    exact Nat.mul_pos maintained (Nat.mul_pos held positive)
  · have more : position.margin + (position.size * q + position.size * d) - position.size * position.entryPrice =
        position.margin + position.size * q - position.size * position.entryPrice + position.size * d := by omega
    rw [more,Nat.add_mul,Nat.mul_comm (position.size * d)] at risky
    exact Nat.lt_of_add_lt_add_right (risky.trans_le (Nat.add_le_add_left falls _))

theorem underMargined_short (short : position.isLong = false) (higher : p ≤ q)
    (risky : UnderMargined position p maintenanceMarginBps) : UnderMargined position q maintenanceMarginBps := by
  unfold UnderMargined equity at *
  rw [short,if_neg Bool.false_ne_true] at *
  have value : position.size * p ≤ position.size * q := Nat.mul_le_mul_left _ higher
  have less : position.margin + position.size * position.entryPrice - position.size * q ≤
      position.margin + position.size * position.entryPrice - position.size * p := by omega
  calc _ ≤ _ := Nat.mul_le_mul_right basisPoints less
    _ < _ := risky
    _ ≤ _ := Nat.mul_le_mul_left maintenanceMarginBps value

theorem threshold_long (long : position.isLong = true) (bounded : maintenanceMarginBps ≤ basisPoints) (bound : Nat) :
    ∃ threshold, ∀ p, 0 < p → p < bound → (UnderMargined position p maintenanceMarginBps ↔ p < threshold) :=
  exists_threshold (fun _ _ => underMargined_long long bounded) bound

theorem threshold_short (short : position.isLong = false) (bound : Nat) :
    ∃ threshold, ∀ p, 0 < p → p < bound → (UnderMargined position p maintenanceMarginBps ↔ threshold ≤ p) := by
  obtain ⟨threshold,below⟩ := @exists_threshold (fun p => ¬UnderMargined position p maintenanceMarginBps)
    (fun _ _ _ lower safe risky => safe (underMargined_short short lower risky)) bound
  refine ⟨threshold,fun p positive inside => ?_⟩
  rw [← Nat.not_lt,← below p positive inside,not_not]

theorem price_of_answer (found : state.getPosition trader marketId = some position) (held : 0 < position.size)
    (priced : 0 < price) (asked : shouldLiquidate state trader marketId price market = .ok due) : price < 2 ^ 128 :=
  Nat.lt_of_le_of_lt (Nat.le_mul_of_pos_left price held) (bounds_of_answer found held priced asked).2.1

theorem risk_monotone (found : state.getPosition trader marketId = some position) (held : 0 < position.size)
    (bounded : market.maintenanceMarginBps ≤ 10000) :
    (∀ p q atP atQ, 0 < p → 0 < q → shouldLiquidate state trader marketId p market = .ok atP →
      shouldLiquidate state trader marketId q market = .ok atQ →
      (if position.isLong then q ≤ p else p ≤ q) → atP = true → atQ = true) ∧
    ∃ threshold, ∀ price due, 0 < price → shouldLiquidate state trader marketId price market = .ok due →
      (due = true ↔ if position.isLong then price < threshold else threshold ≤ price) := by
  have risky : ∀ {price due}, shouldLiquidate state trader marketId price market = .ok due →
      (due = true ↔ UnderMargined position price market.maintenanceMarginBps) :=
    fun asked => shouldLiquidate_of_position found asked
  cases side : position.isLong with
  | true =>
    simp only [if_true]
    constructor
    · intro p q atP atQ _ positive askedP askedQ lower due
      rw [risky askedQ]
      exact underMargined_long side bounded positive lower ((risky askedP).mp due)
    · obtain ⟨threshold,below⟩ := threshold_long side bounded (2 ^ 128)
      refine ⟨threshold,fun price due positive asked => ?_⟩
      rw [risky asked,below price positive (price_of_answer found held positive asked)]
  | false =>
    simp only [Bool.false_eq_true,if_false]
    constructor
    · intro p q atP atQ _ _ askedP askedQ higher due
      rw [risky askedQ]
      exact underMargined_short side higher ((risky askedP).mp due)
    · obtain ⟨threshold,above⟩ := @threshold_short position market.maintenanceMarginBps side (2 ^ 128)
      refine ⟨threshold,fun price due positive asked => ?_⟩
      rw [risky asked,above price positive (price_of_answer found held positive asked)]

end Monotone

theorem risk_monotone_on_bench :
    ∃ threshold, ∀ price due, 0 < price → shouldLiquidate endangered Bench.alice 0 price Bench.market = .ok due →
      (due = true ↔ price < threshold) := by
  have found : endangered.getPosition Bench.alice 0 = some ⟨1,30,true,1,0⟩ := by decide +kernel
  exact (@risk_monotone _ _ _ Bench.market _ found (by decide) (by decide)).2

end Margins
end Pranklin
