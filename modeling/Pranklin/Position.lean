import Pranklin.Types

namespace Pranklin
open Words

def basisPoints : Nat := 10000

def orOverflow (value : Option Nat) : Except EngineError Nat :=
  match value with
  | some value => .ok value
  | none => .error .overflow

theorem orOverflow_eq_ok {value : Option Nat} : orOverflow value = .ok n ↔ value = some n := by
  cases value <;> simp [orOverflow]

theorem bind_eq_ok {m : Except EngineError α} {next : α → Except EngineError β} (ran : (m >>= next) = .ok result) :
    ∃ value, m = .ok value ∧ next value = .ok result := by
  cases m with
  | error error => cases ran
  | ok value => exact ⟨value,rfl,ran⟩

theorem checkedMul_bind_ok {next : Nat → Except EngineError β} (ran : (orOverflow (checkedMul width a b) >>= next) = .ok result) :
    a * b < 2 ^ width ∧ next (a * b) = .ok result := by
  obtain ⟨_,product,ran⟩ := bind_eq_ok ran
  obtain ⟨fits,rfl⟩ := checkedMul_eq_some.mp (orOverflow_eq_ok.mp product)
  exact ⟨fits,ran⟩

theorem checkedAdd_bind_ok {next : Nat → Except EngineError β} (ran : (orOverflow (checkedAdd width a b) >>= next) = .ok result) :
    a + b < 2 ^ width ∧ next (a + b) = .ok result := by
  obtain ⟨_,sum,ran⟩ := bind_eq_ok ran
  obtain ⟨fits,rfl⟩ := checkedAdd_eq_some.mp (orOverflow_eq_ok.mp sum)
  exact ⟨fits,ran⟩

theorem checkedMul_bind {next : Nat → Except EngineError β} (fits : a * b < 2 ^ width) :
    (orOverflow (checkedMul width a b) >>= next) = next (a * b) := by
  rw [checkedMul_of_lt fits]
  rfl

theorem checkedAdd_bind {next : Nat → Except EngineError β} (fits : a + b < 2 ^ width) :
    (orOverflow (checkedAdd width a b) >>= next) = next (a + b) := by
  rw [checkedAdd_of_lt fits]
  rfl

namespace PositionManager

def increasePosition (position : Position) (size price initialMarginBps : Nat) :
    Except EngineError Position := do
  let oldValue ← orOverflow (checkedMul 128 position.size position.entryPrice)
  let newValue ← orOverflow (checkedMul 128 size price)
  let totalValue ← orOverflow (checkedAdd 128 oldValue newValue)
  let totalSize ← orOverflow (checkedAdd 128 position.size size)
  if 0 < totalSize then
    let scaled ← orOverflow (checkedMul 128 newValue initialMarginBps)
    let margin ← orOverflow (checkedAdd 128 position.margin (scaled / basisPoints))
    return {position with
      entryPrice:=wrap 64 (totalValue / totalSize),
      size:=wrap 64 totalSize,
      margin:=margin}
  else return position

def calculateInitialMargin (size price initialMarginBps : Nat) : Except EngineError Nat := do
  let positionValue ← orOverflow (checkedMul 128 size price)
  let scaled ← orOverflow (checkedMul 128 positionValue initialMarginBps)
  return scaled / basisPoints

-- What `update_position` makes of the stored position; `none` is a deletion. It
-- fails before it writes, so a failure leaves the position as it was.
def traded (position : Option Position) (size price : Nat) (isBuy : Bool) (initialMarginBps : Nat) :
    Except EngineError (Option Position) := do
  match position with
  | some pos =>
    if pos.isLong = isBuy then
      return some (← increasePosition pos size price initialMarginBps)
    else if pos.size ≤ size then
      let remaining := size - pos.size
      if 0 < remaining then
        let newMargin ← calculateInitialMargin remaining price initialMarginBps
        return some {pos with size:=remaining,entryPrice:=price,isLong:=isBuy,margin:=newMargin}
      else return none
    else if pos.size = 0 then throw (.other "Cannot reduce zero-sized position")
    else
      let scaled ← orOverflow (checkedMul 128 size 10000)
      let reductionRatio := scaled / pos.size
      let reduced ← orOverflow (checkedMul 128 pos.margin reductionRatio)
      return some {pos with size:=pos.size - size,margin:=pos.margin - reduced / 10000}
  | none =>
    let margin ← calculateInitialMargin size price initialMarginBps
    return some ⟨size,price,isBuy,margin,0⟩

-- The amount and whether it is a profit.
def calculatePnl (position : Position) (markPrice : Nat) : Except EngineError (Nat × Bool) := do
  if position.size = 0 then return (0,true)
  else
    let entryValue ← orOverflow (checkedMul 128 position.size position.entryPrice)
    let markValue ← orOverflow (checkedMul 128 position.size markPrice)
    if position.isLong then
      if entryValue ≤ markValue then return (markValue - entryValue,true)
      else return (entryValue - markValue,false)
    else if markValue ≤ entryValue then return (entryValue - markValue,true)
    else return (markValue - entryValue,false)

-- An increase that goes through, with the sums that had to fit; without any size it does nothing.
theorem increasePosition_cases (ran : increasePosition position size price initialMarginBps = .ok updated) :
    (0 < position.size + size ∧ position.size * position.entryPrice + size * price < 2 ^ 128 ∧
      size * price * initialMarginBps < 2 ^ 128 ∧ position.margin + size * price * initialMarginBps / basisPoints < 2 ^ 128 ∧
      updated = {position with
        entryPrice:=wrap 64 ((position.size * position.entryPrice + size * price) / (position.size + size)),
        size:=wrap 64 (position.size + size),
        margin:=position.margin + size * price * initialMarginBps / basisPoints}) ∨
    updated = position ∧ position.size + size = 0 := by
  obtain ⟨_,ran⟩ := checkedMul_bind_ok ran
  obtain ⟨_,ran⟩ := checkedMul_bind_ok ran
  obtain ⟨valueFits,ran⟩ := checkedAdd_bind_ok ran
  obtain ⟨_,ran⟩ := checkedAdd_bind_ok ran
  split at ran
  · rename_i weighed
    obtain ⟨scaledFits,ran⟩ := checkedMul_bind_ok ran
    obtain ⟨marginFits,ran⟩ := checkedAdd_bind_ok ran
    cases ran
    exact .inl ⟨weighed,valueFits,scaledFits,marginFits,rfl⟩
  · cases ran
    exact .inr ⟨rfl,by omega⟩

theorem increasePosition_ok (values : position.size * position.entryPrice + size * price < 2 ^ 128)
    (sizes : position.size + size < 2 ^ 128)
    (margins : 0 < position.size + size → size * price * initialMarginBps < 2 ^ 128 ∧
      position.margin + size * price * initialMarginBps / basisPoints < 2 ^ 128) :
    ∃ updated, increasePosition position size price initialMarginBps = .ok updated := by
  unfold increasePosition
  rw [checkedMul_bind (Nat.lt_of_le_of_lt (Nat.le_add_right _ _) values),
    checkedMul_bind (Nat.lt_of_le_of_lt (Nat.le_add_left _ _) values),checkedAdd_bind values,checkedAdd_bind sizes]
  split
  · rename_i weighed
    obtain ⟨scaled,margin⟩ := margins weighed
    rw [checkedMul_bind scaled,checkedAdd_bind margin]
    exact ⟨_,rfl⟩
  · exact ⟨_,rfl⟩

theorem calculateInitialMargin_ok (value : size * price < 2 ^ 128) (scaled : size * price * initialMarginBps < 2 ^ 128) :
    calculateInitialMargin size price initialMarginBps = .ok (size * price * initialMarginBps / basisPoints) := by
  rw [calculateInitialMargin,checkedMul_bind value,checkedMul_bind scaled]
  rfl

theorem traded_covered_ok {position : Position} (opposite : position.isLong ≠ isBuy) (covered : size ≤ position.size)
    (sized : size < 2 ^ 64) (margin : position.margin * 10000 < 2 ^ 128) :
    ∃ updated, traded (some position) size price isBuy initialMarginBps = .ok updated ∧ ∀ left, updated = some left →
      left.isLong = position.isLong ∧ left.size = position.size - size ∧ left.margin ≤ position.margin := by
  unfold traded
  dsimp only
  rw [if_neg opposite]
  by_cases whole : position.size ≤ size
  · rw [if_pos whole,if_neg (by omega)]
    exact ⟨none,rfl,by simp⟩
  · have ratio : size * 10000 / position.size ≤ 10000 :=
      Nat.div_le_of_le_mul (by omega)
    have scaled : size * 10000 < 2 ^ 128 := (Nat.mul_lt_mul_of_pos_right sized (by decide)).trans (by decide)
    have freed : position.margin * (size * 10000 / position.size) < 2 ^ 128 :=
      Nat.lt_of_le_of_lt (Nat.mul_le_mul_left _ ratio) margin
    rw [if_neg whole,if_neg (by omega),checkedMul_bind scaled]
    rw [checkedMul_bind freed]
    refine ⟨_,rfl,?_⟩
    rintro left ⟨⟩
    exact ⟨rfl,rfl,Nat.sub_le _ _⟩

theorem traded_cases (ran : traded position size price isBuy initialMarginBps = .ok updated) :
    (position = none ∧ ∃ after, updated = some after ∧ after.isLong = isBuy ∧ after.size = size) ∨
    (∃ before after, position = some before ∧ before.isLong = isBuy ∧ updated = some after ∧
      after.isLong = isBuy ∧ (after.size = wrap 64 (before.size + size) ∨ after = before ∧ before.size + size = 0)) ∨
    (∃ before after, position = some before ∧ before.isLong = (!isBuy) ∧ before.size < size ∧
      updated = some after ∧ after.isLong = isBuy ∧ after.size = size - before.size) ∨
    (∃ before, position = some before ∧ before.isLong = (!isBuy) ∧ before.size = size ∧ updated = none) ∨
    (∃ before after, position = some before ∧ before.isLong = (!isBuy) ∧ size < before.size ∧
      updated = some after ∧ after.isLong = before.isLong ∧ after.size = before.size - size) := by
  unfold traded at ran
  cases position with
  | none =>
    obtain ⟨margin,_,ran⟩ := bind_eq_ok ran
    cases ran
    exact .inl ⟨rfl,_,rfl,rfl,rfl⟩
  | some before =>
    dsimp only at ran
    split at ran
    · rename_i same
      obtain ⟨after,increased,ran⟩ := bind_eq_ok ran
      cases ran
      refine .inr (.inl ⟨before,after,rfl,same,rfl,?_⟩)
      rcases increasePosition_cases increased with ⟨_,_,_,_,rfl⟩ | ⟨rfl,nothing⟩
      · exact ⟨same,.inl rfl⟩
      · exact ⟨same,.inr ⟨rfl,nothing⟩⟩
    · rename_i other
      have opposite : before.isLong = (!isBuy) := by
        cases side : before.isLong <;> cases isBuy <;> simp_all
      split at ran
      · split at ran
        · obtain ⟨margin,_,ran⟩ := bind_eq_ok ran
          cases ran
          exact .inr (.inr (.inl ⟨before,_,rfl,opposite,by omega,rfl,rfl,rfl⟩))
        · cases ran
          exact .inr (.inr (.inr (.inl ⟨before,rfl,opposite,by omega,rfl⟩)))
      · rename_i larger
        rw [if_neg (by omega)] at ran
        obtain ⟨scaled,_,ran⟩ := bind_eq_ok ran
        obtain ⟨reduced,_,ran⟩ := bind_eq_ok ran
        cases ran
        exact .inr (.inr (.inr (.inr ⟨before,_,rfl,opposite,by omega,rfl,rfl,rfl⟩)))

end PositionManager

def OnlyOverflow (m : Except EngineError α) : Prop := ∀ error, m = .error error → error = .overflow

namespace OnlyOverflow

theorem ok (value : α) : OnlyOverflow (.ok value) := by rintro _ ⟨⟩

theorem orOverflow (value : Option Nat) : OnlyOverflow (Pranklin.orOverflow value) := by
  cases value <;> rintro _ ⟨⟩
  rfl

theorem bind {m : Except EngineError α} {next : α → Except EngineError β} (first : OnlyOverflow m)
    (rest : ∀ value, OnlyOverflow (next value)) : OnlyOverflow (m >>= next) := by
  cases m with
  | error error => rintro _ ⟨⟩; exact first error rfl
  | ok value => exact rest value

theorem increasePosition (position : Position) (size price initialMarginBps : Nat) :
    OnlyOverflow (PositionManager.increasePosition position size price initialMarginBps) := by
  refine bind (orOverflow _) fun oldValue => bind (orOverflow _) fun newValue =>
    bind (orOverflow _) fun totalValue => bind (orOverflow _) fun totalSize => ?_
  split
  · exact bind (orOverflow _) fun scaled => bind (orOverflow _) fun margin => ok _
  · exact ok _

theorem calculateInitialMargin (size price initialMarginBps : Nat) :
    OnlyOverflow (PositionManager.calculateInitialMargin size price initialMarginBps) :=
  bind (orOverflow _) fun _ => bind (orOverflow _) fun _ => ok _

-- A position that is larger than the trade is not empty, so the other error of
-- `update_position` cannot occur.
theorem traded (position : Option Position) (size price : Nat) (isBuy : Bool) (initialMarginBps : Nat) :
    OnlyOverflow (PositionManager.traded position size price isBuy initialMarginBps) := by
  unfold PositionManager.traded
  cases position with
  | none => exact bind (calculateInitialMargin _ _ _) fun margin => ok _
  | some pos =>
    dsimp only
    split
    · exact bind (increasePosition _ _ _ _) fun increased => ok _
    · split
      · split
        · exact bind (calculateInitialMargin _ _ _) fun margin => ok _
        · exact ok _
      · rename_i larger
        rw [if_neg (by omega)]
        exact bind (orOverflow _) fun scaled => bind (orOverflow _) fun reduced => ok _

end OnlyOverflow
end Pranklin
