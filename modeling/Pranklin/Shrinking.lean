import Pranklin.Deleverage
import Pranklin.Proportion

namespace Pranklin
open Words Effect Proportion LiquidationEngine

namespace Shrinking
variable {e after : Engine} {trader : Address} {marketId size : Nat} {position left : Position}

-- One of the three paths on which a position is reduced by a part, from an engine to the next.
inductive Reduces (trader : Address) (marketId : Nat) (position : Position) (size : Nat) (e after : Engine) : Prop where
  | traded (price initialMarginBps : Nat)
      (ran : exec (PositionManager.updatePosition trader marketId size price (!position.isLong) initialMarginBps) e =
        (.ok (),after))
  | liquidated (markPrice : Nat) (liquidator : Address) (result : LiquidationResult)
      (ran : exec (liquidateWithIncentive trader marketId markPrice liquidator) e = (.ok (some result),after))
      (sized : result.liquidatedSize = size)
  | deleveraged (ran : exec (executeAdl trader marketId size) e = (.ok (),after))

structure Thicker (position : Position) (size : Nat) (left : Position) : Prop where
  sized : left.size = position.size - size
  side : left.isLong = position.isLong
  entry : left.entryPrice = position.entryPrice
  funding : left.fundingIndex = position.fundingIndex
  paid : left.margin ≤ position.margin
  thick : position.margin * (position.size - size) ≤ left.margin * position.size

theorem thicker_of_taken {taken : Nat} (fair : taken * position.size ≤ position.margin * size) :
    Thicker position size {position with size:=position.size - size,margin:=position.margin - taken} :=
  ⟨rfl,rfl,rfl,rfl,Nat.sub_le _ _,thick_of_taken fair⟩

theorem thicker_leftover (position : Position) (size : Nat) : Thicker position size (leftover position size) :=
  thicker_of_taken (Nat.div_mul_le_self _ _)

theorem traded_reduced {price initialMarginBps : Nat} {updated : Option Position} (part : size < position.size)
    (traded : PositionManager.traded (some position) size price (!position.isLong) initialMarginBps = .ok updated) :
    updated = some {position with
      size:=position.size - size,
      margin:=position.margin - position.margin * (size * 10000 / position.size) / 10000} := by
  unfold PositionManager.traded at traded
  dsimp only at traded
  rw [if_neg (by cases position.isLong <;> decide),if_neg (Nat.not_le_of_lt part),if_neg (by omega)] at traded
  obtain ⟨scaled,first,traded⟩ := bind_eq_ok traded
  obtain ⟨reduced,second,traded⟩ := bind_eq_ok traded
  obtain ⟨_,rfl⟩ := checkedMul_eq_some.mp (orOverflow_eq_ok.mp first)
  obtain ⟨_,rfl⟩ := checkedMul_eq_some.mp (orOverflow_eq_ok.mp second)
  cases traded
  rfl

theorem reduces_thicker (found : e.state.getPosition trader marketId = some position) (part : size < position.size)
    (reduces : Reduces trader marketId position size e after) :
    ∃ left, after.state.getPosition trader marketId = some left ∧ Thicker position size left := by
  cases reduces with
  | traded price initialMarginBps ran =>
    obtain ⟨updated,traded,reads,_⟩ := OpenInterest.updatePosition_uncovers ran
    rw [found] at traded
    refine ⟨_,?_,thicker_of_taken (ratio_fair 10000)⟩
    rw [reads,if_pos ⟨rfl,rfl⟩,traded_reduced part traded,Option.some_or]
  | liquidated markPrice liquidator result ran sized =>
    obtain ⟨market,_,registered,_⟩ := liquidateWithIncentive_ok ran
    obtain ⟨liquidated,_⟩ := liquidated_of_ok registered found ran
    refine ⟨_,?_,thicker_leftover position size⟩
    rw [liquidated.stored,sized,if_neg (Nat.not_le_of_lt part)]
  | deleveraged ran =>
    obtain ⟨held,present,rfl⟩ := Deleverage.executeAdl_ok ran
    rw [found] at present
    cases present
    refine ⟨_,?_,thicker_leftover position size⟩
    rw [Interrupted.seizedState,if_neg (Nat.not_le_of_lt part),StateManager.getPosition_setPosition,if_pos ⟨rfl,rfl⟩]

inductive Shrinks (trader : Address) (marketId : Nat) : Engine → Engine → Prop where
  | done {e : Engine} : Shrinks trader marketId e e
  | reduce {e middle after : Engine} {position : Position} {size : Nat}
      (found : e.state.getPosition trader marketId = some position) (taken : 0 < size)
      (part : size < position.size) (reduces : Reduces trader marketId position size e middle)
      (rest : Shrinks trader marketId middle after) : Shrinks trader marketId e after
  | apart {e middle after : Engine}
      (same : middle.state.getPosition trader marketId = e.state.getPosition trader marketId)
      (rest : Shrinks trader marketId middle after) : Shrinks trader marketId e after

-- By induction on the reductions: each leaves some size, so that the thicknesses compose.
theorem shrinks_thicker (shrinks : Shrinks trader marketId e after) :
    ∀ position, e.state.getPosition trader marketId = some position → 0 < position.size →
      ∃ left, after.state.getPosition trader marketId = some left ∧ 0 < left.size ∧ left.size ≤ position.size ∧
        Thicker position (position.size - left.size) left := by
  induction shrinks with
  | done =>
    intro position found held
    refine ⟨position,found,held,Nat.le_refl _,⟨by omega,rfl,rfl,rfl,Nat.le_refl _,?_⟩⟩
    rw [Nat.sub_self,Nat.sub_zero]
  | reduce present _ part reduces _ ih =>
    intro position found held
    rw [present] at found
    cases found
    obtain ⟨next,stored,one⟩ := reduces_thicker present part reduces
    have sized := one.sized
    obtain ⟨left,last,some,less,two⟩ := ih next stored (by omega)
    refine ⟨left,last,some,by omega,⟨by omega,two.side.trans one.side,two.entry.trans one.entry,
      two.funding.trans one.funding,two.paid.trans one.paid,?_⟩⟩
    have first := one.thick
    have second := two.thick
    rw [← sized] at first
    rw [Nat.sub_sub_self less] at second
    rw [Nat.sub_sub_self (by omega)]
    exact thick_trans (by omega) first second
  | apart same _ ih =>
    intro position found held
    exact ih position (same.trans found) held

theorem shrinking_keeps_thickness (found : e.state.getPosition trader marketId = some position) (held : 0 < position.size) :
    (∀ size after, 0 < size → size < position.size → Reduces trader marketId position size e after →
      ∃ left, after.state.getPosition trader marketId = some left ∧ Thicker position size left) ∧
    ∀ after, Shrinks trader marketId e after →
      ∃ left, after.state.getPosition trader marketId = some left ∧ 0 < left.size ∧ left.size ≤ position.size ∧
        Thicker position (position.size - left.size) left :=
  ⟨fun _ _ _ part reduces => reduces_thicker found part reduces,fun _ shrinks => shrinks_thicker shrinks position found held⟩

def holding : Engine := Engine.new (Bench.state.setPosition Bench.alice 0 ⟨10000,100,true,100000,0⟩)

def sold : Engine := (exec (PositionManager.updatePosition Bench.alice 0 2000 90 (!true) 1000) holding).2

def liquidated : Engine := (exec (liquidateWithIncentive Bench.alice 0 92 Bench.carol) sold).2

def taken : Engine := (exec (executeAdl Bench.alice 0 3) liquidated).2

theorem sold_liquidated : Reduces Bench.alice 0 ⟨8000,100,true,80000,0⟩ 800 sold liquidated := by
  have amount : (exec (liquidateWithIncentive Bench.alice 0 92 Bench.carol) sold).1.toOption.join.map
      LiquidationResult.liquidatedSize = some 800 := by decide +kernel
  cases outcome : (exec (liquidateWithIncentive Bench.alice 0 92 Bench.carol) sold).1 with
  | error error => rw [outcome] at amount; cases amount
  | ok result =>
    rw [outcome] at amount
    obtain ⟨result,rfl,sized⟩ := Option.map_eq_some_iff.mp amount
    exact .liquidated 92 Bench.carol result (exec_of_result outcome) sized

theorem shrinking_keeps_thickness_on_bench :
    ∃ left, taken.state.getPosition Bench.alice 0 = some left ∧ 0 < left.size ∧ left.size ≤ 10000 ∧
      Thicker ⟨10000,100,true,100000,0⟩ (10000 - left.size) left :=
  have start : holding.state.getPosition Bench.alice 0 = some ⟨10000,100,true,100000,0⟩ := by decide +kernel
  have trades : (exec (PositionManager.updatePosition Bench.alice 0 2000 90 (!true) 1000) holding).1 = .ok () ∧
      sold.state.getPosition Bench.alice 0 = some ⟨8000,100,true,80000,0⟩ := by decide +kernel
  have seizes : liquidated.state.getPosition Bench.alice 0 = some ⟨7200,100,true,72000,0⟩ ∧
      (exec (executeAdl Bench.alice 0 3) liquidated).1 = .ok () := by decide +kernel
  have first : Reduces Bench.alice 0 ⟨10000,100,true,100000,0⟩ 2000 holding sold := .traded 90 1000 (exec_of_result trades.1)
  have last : Reduces Bench.alice 0 ⟨7200,100,true,72000,0⟩ 3 liquidated taken := .deleveraged (exec_of_result seizes.2)
  (shrinking_keeps_thickness start (by decide)).2 taken (.reduce start (by decide) (by decide) first
    (.reduce trades.2 (by decide) (by decide) sold_liquidated (.reduce seizes.1 (by decide) (by decide) last .done)))

end Shrinking
end Pranklin
