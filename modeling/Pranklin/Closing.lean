import Pranklin.ReduceOnly

namespace Pranklin
open Words Effect OrderService OrderbookManager PositionService

def Overflows (error : EngineError) : Prop :=
  error = .overflow ∨ error = .stateError (.other "Order ID counter overflow")

namespace Closing
open ReduceOnly
variable {e after : Engine} {ledger : Ledger} {trader : Address} {close : ClosePositionTx} {position : Position}
  {market : Market} {request : PlaceOrderTx} {fills : List Fill} {marketId size : Nat} {isLong : Bool}

-- What the fills of an order are worth to one of its makers.
def makerValue (maker : Address) (fills : List Fill) : Nat :=
  ((fills.filter fun fill => fill.maker = maker).map fun fill => fill.size * fill.price).sum

-- A position, or none, has room for fills of some value on one side: their value and margin as such, added
-- to what it has on the same side, and what is set free of it on the other.
structure HasRoom (initialMarginBps : Nat) (isBuy : Bool) (value : Nat) (held : Option Position) : Prop where
  fits : value < 2 ^ 128
  scaled : value * initialMarginBps < 2 ^ 128
  same : ∀ position, held = some position → position.isLong = isBuy →
    position.size * position.entryPrice + value < 2 ^ 128 ∧ position.margin + value * initialMarginBps / basisPoints < 2 ^ 128
  other : ∀ position, held = some position → position.isLong ≠ isBuy → position.margin * 10000 < 2 ^ 128

-- Nothing overflows in a close: the order still gets an id, the margin of the position times 10000 is a
-- word, and the positions of the makers have room for what the close trades with them.
structure Roomy (e : Engine) (trader : Address) (market : Market) (position : Position) (close : ClosePositionTx) : Prop where
  counter : e.state.orderCounter + 1 < 2 ^ 64
  margin : position.margin * 10000 < 2 ^ 128
  makers : ∀ fill ∈ fillsOf e trader (closeOrder position close), HasRoom market.initialMarginBps position.isLong
    (makerValue fill.maker (fillsOf e trader (closeOrder position close))) (e.state.getPosition fill.maker close.marketId)

section Checks

end Checks

section Room
variable {value rest price bps : Nat} {isBuy : Bool} {held : Option Position} {left : Position} {fill : Fill} {maker : Address}

-- The margins of two parts, each rounded down, are no more than that of both.
theorem margins_le (value rest bps : Nat) :
    value * bps / basisPoints + rest * bps / basisPoints ≤ (value + rest) * bps / basisPoints := by
  rw [Nat.add_mul]
  exact Nat.div_add_div_le_add_div

theorem HasRoom.less (room : HasRoom bps isBuy (value + rest) held) :
    rest < 2 ^ 128 ∧ rest * bps < 2 ^ 128 :=
  ⟨(Nat.le_add_left _ _).trans_lt room.fits,(Nat.mul_le_mul_right _ (Nat.le_add_left _ _)).trans_lt room.scaled⟩

theorem HasRoom.opened (room : HasRoom bps isBuy (value + rest) held) (side : left.isLong = isBuy)
    (worth : left.size * left.entryPrice ≤ value) (margin : left.margin ≤ value * bps / basisPoints) :
    HasRoom bps isBuy rest (some left) := by
  refine ⟨room.less.1,room.less.2,?_,?_⟩
  · rintro _ ⟨⟩ _
    have all := (margins_le value rest bps).trans (Nat.div_le_self _ _)
    exact ⟨(Nat.add_le_add_right worth rest).trans_lt room.fits,
      ((Nat.add_le_add_right margin _).trans all).trans_lt room.scaled⟩
  · rintro _ ⟨⟩ opposite
    exact absurd side opposite

theorem HasRoom.increased {position : Position} (room : HasRoom bps isBuy (size * price + rest) (some position))
    (side : position.isLong = isBuy) (sized : position.size < 2 ^ 64) (small : size < 2 ^ 64) :
    ∃ left, PositionManager.increasePosition position size price bps = .ok left ∧ left.size < 2 ^ 64 ∧
      HasRoom bps isBuy rest (some left) := by
  obtain ⟨values,margins⟩ := room.same position rfl side
  have scaled : size * price * bps < 2 ^ 128 := (Nat.mul_le_mul_right _ (Nat.le_add_right _ _)).trans_lt room.scaled
  have margin : position.margin + size * price * bps / basisPoints + rest * bps / basisPoints < 2 ^ 128 := by
    rw [Nat.add_assoc]
    exact (Nat.add_le_add_left (margins_le _ _ _) _).trans_lt margins
  obtain ⟨left,ran⟩ := PositionManager.increasePosition_ok (by omega) ((Nat.add_lt_add sized small).trans (by decide))
    fun _ => ⟨scaled,(Nat.le_add_right _ _).trans_lt margin⟩
  refine ⟨left,ran,?_⟩
  rcases PositionManager.increasePosition_cases ran with ⟨weighed,_,_,_,rfl⟩ | ⟨rfl,nothing⟩
  · refine ⟨Nat.mod_lt _ (Nat.two_pow_pos 64),room.less.1,room.less.2,?_,?_⟩
    · rintro _ ⟨⟩ _
      -- The size may wrap, and the mean is rounded down.
      have worth : wrap 64 (position.size + size) *
          wrap 64 ((position.size * position.entryPrice + size * price) / (position.size + size)) ≤
          position.size * position.entryPrice + size * price :=
        (Nat.mul_le_mul (Nat.mod_le _ _) (Nat.mod_le _ _)).trans (Nat.mul_div_le _ _)
      exact ⟨by dsimp only; omega,margin⟩
    · rintro _ ⟨⟩ opposite
      exact absurd side opposite
  · refine ⟨sized,room.less.1,room.less.2,?_,?_⟩
    · rintro _ ⟨⟩ _
      exact ⟨(Nat.add_le_add_left (Nat.le_add_left _ _) _).trans_lt values,
        (Nat.add_le_add_right (Nat.le_add_right _ _) _).trans_lt margin⟩
    · rintro _ ⟨⟩ opposite
      exact absurd side opposite

-- A maker's fill goes through, whatever it does to his position, and leaves room for the fills that follow.
theorem HasRoom.traded (room : HasRoom bps isBuy (size * price + rest) held)
    (sized : ∀ position, held = some position → position.size < 2 ^ 64) (small : size < 2 ^ 64) :
    ∃ updated, PositionManager.traded held size price isBuy bps = .ok updated ∧ HasRoom bps isBuy rest updated ∧
      ∀ left, updated = some left → left.size < 2 ^ 64 := by
  have value : size * price < 2 ^ 128 := (Nat.le_add_right _ _).trans_lt room.fits
  have scaled : size * price * bps < 2 ^ 128 := (Nat.mul_le_mul_right _ (Nat.le_add_right _ _)).trans_lt room.scaled
  cases held with
  | none =>
    refine ⟨some ⟨size,price,isBuy,size * price * bps / basisPoints,0⟩,?_,room.opened rfl (Nat.le_refl _) (Nat.le_refl _),?_⟩
    · rw [PositionManager.traded,PositionManager.calculateInitialMargin_ok value scaled]
      rfl
    · rintro _ ⟨⟩
      exact small
  | some position =>
    by_cases side : position.isLong = isBuy
    · obtain ⟨left,ran,fits,room⟩ := room.increased side (sized position rfl) small
      refine ⟨some left,?_,room,by rintro _ ⟨⟩; exact fits⟩
      rw [PositionManager.traded]
      dsimp only
      rw [if_pos side,ran]
      rfl
    by_cases covered : size ≤ position.size
    · have margin := room.other position rfl side
      obtain ⟨updated,ran,kept⟩ := PositionManager.traded_covered_ok side covered small margin
      refine ⟨updated,ran,⟨room.less.1,room.less.2,?_,?_⟩,?_⟩
      · intro left found same
        exact absurd ((kept left found).1.symm.trans same) side
      · intro left found _
        exact (Nat.mul_le_mul_right _ (kept left found).2.2).trans_lt margin
      · intro left found
        exact (kept left found).2.1 ▸ (Nat.sub_le _ _).trans_lt (sized position rfl)
    · have part : (size - position.size) * price ≤ size * price := Nat.mul_le_mul_right _ (Nat.sub_le _ _)
      have scaledPart : (size - position.size) * price * bps ≤ size * price * bps := Nat.mul_le_mul_right _ part
      let flipped : Position := {position with
        size:=size - position.size
        entryPrice:=price
        isLong:=isBuy
        margin:=(size - position.size) * price * bps / basisPoints}
      refine ⟨some flipped,?_,room.opened rfl part (Nat.div_le_div_right scaledPart),?_⟩
      · rw [PositionManager.traded]
        dsimp only
        rw [if_neg side,if_pos (by omega),if_pos (by omega),
          PositionManager.calculateInitialMargin_ok (part.trans_lt value) (scaledPart.trans_lt scaled)]
        rfl
      · rintro _ ⟨⟩
        exact (Nat.sub_le _ _).trans_lt small

end Room

section Fills

end Fills

section Close

end Close

end Closing
end Pranklin
