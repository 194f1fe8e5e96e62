import Pranklin.Liquidating

namespace Pranklin
open Words Effect

theorem leftover_share {margin size taken gain loss : Nat} (part : taken ≤ size) (held : 0 < size) :
    margin - margin * taken / size + (size - taken) * gain - (size - taken) * loss =
      margin + size * gain - size * loss - (margin + size * gain - size * loss) * taken / size := by
  obtain ⟨kept,rfl⟩ := Nat.exists_eq_add_of_le part
  rw [Nat.add_sub_cancel_left,Nat.add_mul,Nat.add_mul]
  have cut : margin * taken / (taken + kept) ≤ margin := Nat.div_le_of_le_mul (by
    rw [Nat.mul_comm]
    exact Nat.mul_le_mul_right _ (Nat.le_add_right _ _))
  by_cases spent : margin + (taken * gain + kept * gain) ≤ taken * loss + kept * loss
  · rw [Nat.sub_eq_zero_of_le spent,Nat.zero_mul,Nat.zero_div,Nat.sub_zero,Nat.sub_eq_zero_of_le]
    -- What is kept of the margin exceeds its exact share by less than one.
    have floor := Nat.lt_mul_div_succ (margin * taken) held
    by_contra above
    have more : kept * loss + 1 ≤ margin - margin * taken / (taken + kept) + kept * gain := by omega
    have scaled := Nat.mul_le_mul_left (taken + kept) more
    have shared := Nat.mul_le_mul_left kept spent
    have exact : (taken + kept) * (margin - margin * taken / (taken + kept)) +
        (taken + kept) * (margin * taken / (taken + kept)) = (taken + kept) * margin := by
      rw [← Nat.mul_add,Nat.sub_add_cancel cut]
    grind
  · obtain ⟨worth,exact⟩ := Nat.exists_eq_add_of_le (Nat.le_of_not_le spent)
    rw [exact,Nat.add_sub_cancel_left]
    have shifted : margin * taken + (taken + kept) * (taken * gain) =
        worth * taken + (taken + kept) * (taken * loss) := by
      have scaled := congrArg (· * taken) exact
      grind
    have quotients := congrArg (· / (taken + kept)) shifted
    rw [Nat.add_mul_div_left _ _ held,Nat.add_mul_div_left _ _ held] at quotients
    omega

namespace Relief
open LiquidationEngine

def worth (position : Option Position) (price : Nat) : Nat := position.elim 0 (equity · price)

def heldSize (position : Option Position) : Nat := position.elim 0 Position.size

def equityLeft (position : Position) (price size : Nat) : Nat :=
  equity position price - equity position price * size / position.size

variable {e after : Engine} {trader liquidator : Address} {marketId markPrice price size : Nat} {position : Position}
  {market : Market} {result : LiquidationResult}

theorem equity_leftover (part : size ≤ position.size) (held : 0 < position.size) :
    equity (leftover position size) price = equityLeft position price size := by
  unfold equity equityLeft leftover equity
  dsimp only
  split
  · exact leftover_share part held
  · exact leftover_share part held

theorem held_and_priced {bps : Nat} (risky : UnderMargined position price bps) : 0 < position.size ∧ 0 < price := by
  unfold UnderMargined at risky
  constructor
  · by_contra empty
    rw [Nat.eq_zero_of_not_pos empty] at risky
    omega
  · by_contra free
    rw [Nat.eq_zero_of_not_pos free] at risky
    omega

section Agreement

-- The public predicate and the action differ exactly where the tick moves the price across the requirement.
theorem predicate_agrees_iff (registered : e.state.getMarket marketId = some market) {answer : Option LiquidationResult}
    (acted : exec (liquidateWithIncentive trader marketId markPrice liquidator) e = (.ok answer,after))
    (predicted : e.shouldLiquidate trader marketId markPrice = .ok due) :
    (answer.isSome = true ↔ due = true) ↔ ∀ position, e.state.getPosition trader marketId = some position →
      (UnderMargined position (market.normalizePrice markPrice) market.maintenanceMarginBps ↔
        UnderMargined position markPrice market.maintenanceMarginBps) := by
  obtain ⟨_,risky,found,asked,answered,_⟩ := liquidateWithIncentive_ok acted
  rw [registered] at found
  cases found
  unfold Engine.shouldLiquidate at predicted
  rw [registered] at predicted
  rw [answered,shouldLiquidate_iff asked,shouldLiquidate_iff predicted]
  cases e.state.getPosition trader marketId with
  | none => simp
  | some position => simp

def coarse : Market := {Bench.market with
  tickSize:=10
  words64:=by decide}

def leveraged (margin : Nat) : Engine :=
  Engine.new ((Bench.state.setMarket 0 coarse).setPosition Bench.alice 0 ⟨100,100,true,margin,0⟩)

theorem predicate_differs :
    (leveraged 1200).shouldLiquidate Bench.alice 0 94 = .ok false ∧
      (exec (liquidateWithIncentive Bench.alice 0 94 Bench.bob) (leveraged 1200)).1.toOption.map Option.isSome = some true ∧
      (leveraged 700).shouldLiquidate Bench.alice 0 96 = .ok true ∧
      (exec (liquidateWithIncentive Bench.alice 0 96 Bench.bob) (leveraged 700)).1 = .ok none := by decide +kernel

theorem predicate_agrees_on_bench :
    ((none : Option LiquidationResult).isSome = true ↔ true = true) ↔
      ∀ position, (leveraged 700).state.getPosition Bench.alice 0 = some position →
        (UnderMargined position (coarse.normalizePrice 96) 500 ↔ UnderMargined position 96 500) := by
  have registered : (leveraged 700).state.getMarket 0 = some coarse := by decide +kernel
  have acted : (exec (liquidateWithIncentive Bench.alice 0 96 Bench.bob) (leveraged 700)).1 = .ok none := by
    decide +kernel
  exact predicate_agrees_iff registered (exec_of_result acted) (by decide +kernel)

end Agreement

section Progress

-- A partial liquidation that takes nothing: the equity is already what it aims at, or a position of fewer than
-- ten units in a market without a minimum order is short of it by less than the price of one.
def Stalls (engine : LiquidationEngine) (position : Position) (price : Nat) (market : Market) : Prop :=
  engine.enablePartialLiquidations = true ∧
    (requiredEquity position price market ≤ equity position price ∨
      position.size < 10 ∧ market.minOrderSize = 0 ∧
        (requiredEquity position price market - equity position price) * basisPoints <
          price * (basisPoints + market.liquidationFeeBps))

theorem rawSize_small (priced : 0 < price) (small : position.size < 10) :
    (requiredEquity position price market - equity position price) * basisPoints /
      (price * (basisPoints + market.liquidationFeeBps)) < 2 ^ 64 := by
  have target : addWrap 32 market.maintenanceMarginBps marginBufferBps < 2 ^ 32 := Nat.mod_lt _ (Nat.two_pow_pos 32)
  generalize goal : addWrap 32 market.maintenanceMarginBps marginBufferBps = bps at target
  apply Nat.div_lt_of_lt_mul
  have deficit : (requiredEquity position price market - equity position price) * basisPoints ≤ position.size * price * bps := by
    unfold requiredEquity
    rw [goal]
    exact (Nat.mul_le_mul_right _ (Nat.sub_le _ _)).trans (Nat.div_mul_le_self _ _)
  calc _ ≤ position.size * price * bps := deficit
    _ = price * (position.size * bps) := by rw [Nat.mul_comm position.size,Nat.mul_assoc]
    _ ≤ price * (10 * 2 ^ 32) :=
      Nat.mul_le_mul_left _ (Nat.mul_le_mul (Nat.le_of_lt small) (Nat.le_of_lt target))
    _ < price * 2 ^ 64 := Nat.mul_lt_mul_of_pos_left (by decide) priced
    _ ≤ price * (basisPoints + market.liquidationFeeBps) * 2 ^ 64 :=
      Nat.mul_le_mul_right _ (Nat.le_mul_of_pos_right _ (by unfold basisPoints; omega))

theorem seizedSize_eq_zero (held : 0 < position.size) (priced : 0 < price) (engine : LiquidationEngine) :
    seizedSize engine position price market = 0 ↔ Stalls engine position price market := by
  unfold seizedSize Stalls
  cases engine.enablePartialLiquidations with
  | false =>
    simp only [Bool.false_eq_true,if_false,false_and,iff_false]
    omega
  | true =>
    simp only [if_true,true_and]
    unfold partialSize
    rw [if_neg (Nat.ne_of_gt priced)]
    split
    · rename_i met
      simp [met]
    · rename_i unmet
      have divisor : 0 < price * (basisPoints + market.liquidationFeeBps) :=
        Nat.mul_pos priced (by unfold basisPoints; omega)
      rw [boundLiquidationSize_eq_zero held,or_iff_right unmet]
      constructor
      · intro ⟨nothing,small,unbounded⟩
        rw [wrap_of_lt (rawSize_small priced small),Nat.div_eq_zero_iff_lt divisor] at nothing
        exact ⟨small,unbounded,nothing⟩
      · intro ⟨small,unbounded,short⟩
        rw [wrap_of_lt (rawSize_small priced small),Nat.div_eq_zero_iff_lt divisor]
        exact ⟨short,small,unbounded⟩

-- A reported liquidation has taken a positive size that the stored position has lost, unless it stalls or
-- deletes a position of which a commit has kept a copy.
theorem progress_iff (registered : e.state.getMarket marketId = some market)
    (found : e.state.getPosition trader marketId = some position)
    (ran : exec (liquidateWithIncentive trader marketId markPrice liquidator) e = (.ok (some result),after)) :
    (0 < result.liquidatedSize ∧
        heldSize (after.state.getPosition trader marketId) + result.liquidatedSize = position.size) ↔
      ¬Stalls e.liquidation position (market.normalizePrice markPrice) market ∧
        (position.size ≤ seizedSize e.liquidation position (market.normalizePrice markPrice) market →
          heldSize (e.state.committed (.position trader marketId)) = 0) := by
  have liquidated := (liquidated_of_ok registered found ran).1
  obtain ⟨held,priced⟩ := held_and_priced liquidated.due
  have size : result.liquidatedSize = seizedSize e.liquidation position (market.normalizePrice markPrice) market := by
    rw [liquidated.reported]
  have within := @seizedSize_le (market.normalizePrice markPrice) position market e.liquidation
  rw [liquidated.stored,size,← seizedSize_eq_zero held priced]
  split
  · rename_i whole
    simp only [whole,true_imp_iff]
    omega
  · rename_i part
    have lost : heldSize (some (leftover position (seizedSize e.liquidation position
        (market.normalizePrice markPrice) market))) =
          position.size - seizedSize e.liquidation position (market.normalizePrice markPrice) market := rfl
    rw [lost]
    simp only [part,false_imp_iff,and_true]
    omega

-- Equity 1 under a requirement of 1.4, where the partial liquidation aims at 1.96 and rounds it down.
def stalled : Engine := Engine.new (Bench.state.setPosition Bench.alice 0 ⟨28,1,true,1,0⟩)

def liquidateStalled (e : Engine) : Engine := (exec (liquidateWithIncentive Bench.alice 0 1 Bench.bob) e).2

theorem progress_fails :
    ((exec (liquidateWithIncentive Bench.alice 0 1 Bench.bob) stalled).1.toOption.map fun result =>
        result.map LiquidationResult.liquidatedSize) = some (some 0) ∧
      (liquidateStalled stalled).state.getPosition Bench.alice 0 = stalled.state.getPosition Bench.alice 0 ∧
      (liquidateStalled stalled).state.getBalance Bench.alice 0 = stalled.state.getBalance Bench.alice 0 + 1 ∧
      (liquidateStalled (liquidateStalled stalled)).state.getPosition Bench.alice 0 =
        stalled.state.getPosition Bench.alice 0 ∧
      (liquidateStalled (liquidateStalled stalled)).state.getBalance Bench.alice 0 =
        stalled.state.getBalance Bench.alice 0 + 2 := by decide +kernel

theorem stalled_facts :
    stalled.state.getMarket 0 = some Bench.market ∧ stalled.state.getPosition Bench.alice 0 = some ⟨28,1,true,1,0⟩ ∧
      (exec (liquidateWithIncentive Bench.alice 0 1 Bench.bob) stalled).1 =
        .ok (some ⟨Bench.alice,0,0,1,0,1,some Bench.bob,0,0,0⟩) := by decide +kernel

theorem progress_on_bench :
    ∃ result after, exec (liquidateWithIncentive Bench.alice 0 1 Bench.bob) stalled = (.ok (some result),after) ∧
      ((0 < result.liquidatedSize ∧ heldSize (after.state.getPosition Bench.alice 0) + result.liquidatedSize = 28) ↔
        ¬Stalls stalled.liquidation ⟨28,1,true,1,0⟩ (Bench.market.normalizePrice 1) Bench.market ∧
          (28 ≤ seizedSize stalled.liquidation ⟨28,1,true,1,0⟩ (Bench.market.normalizePrice 1) Bench.market →
            heldSize (stalled.state.committed (.position Bench.alice 0)) = 0)) := by
  obtain ⟨registered,found,answered⟩ := stalled_facts
  have ran := exec_of_result answered
  exact ⟨_,_,ran,progress_iff registered found ran⟩

end Progress

section Health

-- What is left after a partial liquidation is healthy only as far as rounding lifts it: the equity is paid out
-- as the position shrinks, so that the ratio stays.
theorem restores_iff (drops : e.state.DropsPositions) (registered : e.state.getMarket marketId = some market)
    (found : e.state.getPosition trader marketId = some position)
    (ran : exec (liquidateWithIncentive trader marketId markPrice liquidator) e = (.ok (some result),after))
    (left : after.state.getPosition trader marketId = some rest) :
    let price := market.normalizePrice markPrice
    let taken := seizedSize e.liquidation position price market
    shouldLiquidate after.state trader marketId price market = .ok false ↔
      market.maintenanceMarginBps * ((position.size - taken) * price) ≤ equityLeft position price taken * basisPoints := by
  intro price taken
  obtain ⟨liquidated,due,asked⟩ := liquidated_of_ok registered found ran
  obtain ⟨held,priced⟩ := held_and_priced liquidated.due
  have size : result.liquidatedSize = taken := by rw [liquidated.reported]
  have within : taken ≤ position.size := seizedSize_le _
  have stored := liquidated.stored
  rw [size,left] at stored
  split at stored
  · rw [drops.committed] at stored
    cases stored
  cases stored
  have worth : equity (leftover position taken) price = equityLeft position price taken := equity_leftover within held
  obtain ⟨entry,value,scaled⟩ := bounds_of_answer found held priced asked
  have smaller : (leftover position taken).size ≤ position.size := Nat.sub_le _ _
  have share : equityLeft position price taken ≤ equity position price := Nat.sub_le _ _
  obtain ⟨again,answer⟩ := @answer_of_bounds _ price _ trader marketId market left
    ((Nat.mul_le_mul_right _ smaller).trans_lt entry) ((Nat.mul_le_mul_right _ smaller).trans_lt value)
    (by rw [worth]; exact (Nat.mul_le_mul_right _ share).trans_lt scaled)
  have risky := shouldLiquidate_of_position left answer
  unfold UnderMargined at risky
  rw [worth] at risky
  rw [answer,← Nat.not_lt,← show _ ↔ equityLeft position price taken * basisPoints <
    market.maintenanceMarginBps * ((position.size - taken) * price) from risky]
  cases again <;> simp

theorem bench_drops (position : Position) : (Bench.state.setPosition Bench.alice 0 position).DropsPositions := by
  apply Isolation.drops_of_flat
  intro address marketId
  rw [StateManager.committed_setPosition]
  exact StateManager.committed_of_get_none (Bench.reads_none _ rfl)

def leveredLong : Position := ⟨10000,100,true,100000,0⟩

def falling : Engine := Engine.new (Bench.state.setPosition Bench.alice 0 leveredLong)

theorem falling_facts :
    falling.state.getMarket 0 = some Bench.market ∧ falling.state.getPosition Bench.alice 0 = some leveredLong ∧
      (exec (liquidateWithIncentive Bench.alice 0 94 Bench.bob) falling).1 =
        .ok (some ⟨Bench.alice,0,1000,94,940,39060,some Bench.bob,470,470,0⟩) ∧
      (exec (liquidateWithIncentive Bench.alice 0 94 Bench.bob) falling).2.state.getPosition Bench.alice 0 =
        some ⟨9000,100,true,90000,0⟩ := by decide +kernel

theorem restores_fails :
    ((exec (liquidateWithIncentive Bench.alice 0 94 Bench.bob) falling).1.toOption.map fun result =>
        result.map LiquidationResult.liquidatedSize) = some (some 1000) ∧
      (exec (liquidateWithIncentive Bench.alice 0 94 Bench.bob) falling).2.state.getPosition Bench.alice 0 =
        some ⟨9000,100,true,90000,0⟩ ∧
      shouldLiquidate (exec (liquidateWithIncentive Bench.alice 0 94 Bench.bob) falling).2.state Bench.alice 0
        (Bench.market.normalizePrice 94) Bench.market = .ok true := by
  obtain ⟨_,_,answered,left⟩ := falling_facts
  refine ⟨by rw [answered]; rfl,left,?_⟩
  unfold shouldLiquidate
  rw [left]
  decide

theorem restores_on_bench :
    ∃ result after, exec (liquidateWithIncentive Bench.alice 0 94 Bench.bob) falling = (.ok (some result),after) ∧
      let price := Bench.market.normalizePrice 94
      let taken := seizedSize falling.liquidation leveredLong price Bench.market
      shouldLiquidate after.state Bench.alice 0 price Bench.market = .ok false ↔
        Bench.market.maintenanceMarginBps * ((leveredLong.size - taken) * price) ≤
          equityLeft leveredLong price taken * basisPoints := by
  obtain ⟨registered,found,answered,left⟩ := falling_facts
  have ran := exec_of_result answered
  exact ⟨_,_,ran,restores_iff (bench_drops _) registered found ran left⟩

end Health

section Money

-- Whether what a liquidation hands out is covered. A whole position pays out of its equity and the fund; a part
-- pays its owner the whole equity, so that what the rest keeps has to come out of the fee.
def Covered (engine : LiquidationEngine) (position : Position) (marketId price : Nat) (market : Market) : Prop :=
  let taken := seizedSize engine position price market
  let amounts := amountsOf engine position price market
  let balance := (engine.insuranceFunds marketId).balance
  if position.size ≤ taken then amounts.reward + amounts.contribution ≤ amounts.equity + balance
  else if amounts.equity = 0 then amounts.reward + amounts.contribution ≤ balance
  else
    (position.size - taken) * amounts.equity ≤ position.size ∧
      amounts.fee = amounts.reward + amounts.contribution + 1 ∧ amounts.fee ≤ amounts.equity + balance

theorem equityLeft_cases (part : size < position.size) :
    (equityLeft position price size = 0 ↔ equity position price = 0) ∧
      (equityLeft position price size ≤ 1 ↔ (position.size - size) * equity position price ≤ position.size) := by
  unfold equityLeft
  generalize equity position price = worth
  have held : 0 < position.size := Nat.zero_lt_of_lt part
  have below : worth * size / position.size ≤ worth := Nat.div_le_of_le_mul (by
    rw [Nat.mul_comm]
    exact Nat.mul_le_mul_right _ (Nat.le_of_lt part))
  constructor
  · constructor
    · intro nothing
      by_contra something
      have all : worth ≤ worth * size / position.size := by omega
      rw [Nat.le_div_iff_mul_le held] at all
      exact absurd (Nat.le_of_mul_le_mul_left all (Nat.pos_of_ne_zero something)) (Nat.not_le_of_lt part)
    · rintro rfl
      exact Nat.zero_sub _
  · rw [tsub_le_iff_tsub_le,Nat.le_div_iff_mul_le held,Nat.sub_mul,Nat.sub_mul,Nat.one_mul,Nat.mul_comm size worth,
      Nat.mul_comm position.size worth]
    omega

theorem sum_of_parties (trader liquidator : Address) (reward equity : Nat) (before after : Address → Nat)
    (paid : ∀ account, after account =
      before account + (if account = liquidator then reward else 0) + (if account = trader then equity else 0)) :
    ∑ account ∈ {trader,liquidator}, after account =
      ∑ account ∈ {trader,liquidator}, before account + reward + equity := by
  rw [Finset.sum_congr rfl fun account _ => paid account,Finset.sum_add_distrib,Finset.sum_add_distrib,
    Finset.sum_ite_eq',Finset.sum_ite_eq',if_pos (by simp),if_pos (by simp)]

theorem covered_iff (split : Split e.liquidation) :
    let taken := seizedSize e.liquidation position price market
    let amounts := amountsOf e.liquidation position price market
    amounts.reward + (amounts.equity - amounts.fee) + amounts.contribution +
        (if position.size ≤ taken then 0 else equityLeft position price taken) ≤
          amounts.equity + fundUsage (e.liquidation.insuranceFunds marketId) amounts ↔
      Covered e.liquidation position marketId price market := by
  intro taken amounts
  have shares : amounts.reward + amounts.contribution ≤ amounts.fee ∧
      amounts.fee ≤ amounts.reward + amounts.contribution + 1 := shares_of_fee split
  have usage : fundUsage (e.liquidation.insuranceFunds marketId) amounts =
      if amounts.equity < amounts.fee then
        min (e.liquidation.insuranceFunds marketId).balance (amounts.fee - amounts.equity) else 0 := rfl
  rw [usage]
  unfold Covered
  change _ ↔ if position.size ≤ taken then
      amounts.reward + amounts.contribution ≤ amounts.equity + (e.liquidation.insuranceFunds marketId).balance
    else if amounts.equity = 0 then
      amounts.reward + amounts.contribution ≤ (e.liquidation.insuranceFunds marketId).balance
    else (position.size - taken) * amounts.equity ≤ position.size ∧
      amounts.fee = amounts.reward + amounts.contribution + 1 ∧
      amounts.fee ≤ amounts.equity + (e.liquidation.insuranceFunds marketId).balance
  by_cases whole : position.size ≤ taken
  · simp only [whole,if_true]
    split <;> omega
  · simp only [whole,if_false]
    obtain ⟨nothing,little⟩ := @equityLeft_cases price taken position (Nat.lt_of_not_le whole)
    change _ ↔ amounts.equity = 0 at nothing
    change _ ↔ (position.size - taken) * amounts.equity ≤ position.size at little
    by_cases spent : amounts.equity = 0
    · rw [if_pos spent,nothing.mpr spent]
      split <;> omega
    · rw [if_neg spent,← little]
      have keeps : equityLeft position price taken ≠ 0 := fun none => spent (nothing.mp none)
      split <;> omega

theorem no_money_created_iff (drops : e.state.DropsPositions) (split : Split e.liquidation)
    (registered : e.state.getMarket marketId = some market)
    (found : e.state.getPosition trader marketId = some position)
    (ran : exec (liquidateWithIncentive trader marketId markPrice liquidator) e = (.ok (some result),after)) :
    let price := market.normalizePrice markPrice
    ∑ account ∈ {trader,liquidator}, after.state.getBalance account market.quoteAssetId +
        result.insuranceFundContribution + worth (after.state.getPosition trader marketId) price ≤
      ∑ account ∈ {trader,liquidator}, e.state.getBalance account market.quoteAssetId +
        worth (some position) price + result.insuranceFundUsage ↔
    Covered e.liquidation position marketId price market := by
  dsimp only
  have liquidated := (liquidated_of_ok registered found ran).1
  have due := liquidated.due
  have reported := liquidated.reported
  have stored := liquidated.stored
  rw [sum_of_parties _ _ _ _ _ _ liquidated.balances]
  dsimp only at reported
  generalize market.normalizePrice markPrice = price at due reported ⊢
  have held := (held_and_priced due).1
  rw [reported] at stored ⊢
  have kept : worth (after.state.getPosition trader marketId) price =
      if position.size ≤ seizedSize e.liquidation position price market then 0
      else equityLeft position price (seizedSize e.liquidation position price market) := by
    rw [stored,drops.committed]
    dsimp only
    split
    · rfl
    · exact equity_leftover (seizedSize_le _) held
  have covered := @covered_iff e marketId price position market split
  have before : worth (some position) price = (amountsOf e.liquidation position price market).equity := rfl
  dsimp only at covered ⊢
  rw [kept,before,← covered]
  omega

theorem money_created :
    ∃ result after, exec (liquidateWithIncentive Bench.alice 0 94 Bench.bob) falling = (.ok (some result),after) ∧
      ∑ account ∈ {Bench.alice,Bench.bob}, falling.state.getBalance account 0 + worth (some leveredLong) 94 +
          result.insuranceFundUsage + 36000 =
        ∑ account ∈ {Bench.alice,Bench.bob}, after.state.getBalance account 0 + result.insuranceFundContribution +
          worth (after.state.getPosition Bench.alice 0) 94 := by
  obtain ⟨_,_,answered,_⟩ := falling_facts
  refine ⟨_,_,exec_of_result answered,?_⟩
  have different : Bench.alice ≠ Bench.bob := by decide
  rw [Finset.sum_pair different,Finset.sum_pair different]
  decide +kernel

theorem no_money_created_on_bench :
    ∃ result after, exec (liquidateWithIncentive Bench.alice 0 94 Bench.bob) falling = (.ok (some result),after) ∧
      let price := Bench.market.normalizePrice 94
      ∑ account ∈ {Bench.alice,Bench.bob}, after.state.getBalance account Bench.market.quoteAssetId +
          result.insuranceFundContribution + worth (after.state.getPosition Bench.alice 0) price ≤
        ∑ account ∈ {Bench.alice,Bench.bob}, falling.state.getBalance account Bench.market.quoteAssetId +
          worth (some leveredLong) price + result.insuranceFundUsage ↔
      Covered falling.liquidation leveredLong 0 price Bench.market := by
  obtain ⟨registered,found,answered,_⟩ := falling_facts
  have ran := exec_of_result answered
  exact ⟨_,_,ran,no_money_created_iff (bench_drops _) rfl registered found ran⟩

end Money

end Relief
end Pranklin
