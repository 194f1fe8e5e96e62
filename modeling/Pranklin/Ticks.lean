import Pranklin.Calls
import Pranklin.Proportion

namespace Pranklin.Market
open Words Proportion

variable {market : Market} {price : Nat}

structure Consistent (market : Market) (price : Nat) : Prop where
  valid : market.validatePrice (market.normalizePrice price) = true
  above : market.normalizePrice price ≤ price + (market.tickSize + 1) / 2
  below : price ≤ market.normalizePrice price + (market.tickSize + 1) / 2
  idempotent : market.normalizePrice (market.normalizePrice price) = market.normalizePrice price
  onTick : market.validatePrice price = true →
    market.normalizePrice price = price ∧ market.tickToPrice (market.priceToTick price) = price

structure Roomy (market : Market) (price : Nat) : Prop where
  unticked : market.tickSize = 0 → price = 0
  here : price + market.tickSize / 2 < 2 ^ 64
  up : market.tickSize ≤ price % market.tickSize + market.tickSize / 2 →
    price - price % market.tickSize + market.tickSize + market.tickSize / 2 < 2 ^ 64

theorem normalizePrice_of_lt (ticked : 0 < market.tickSize) (here : price + market.tickSize / 2 < 2 ^ 64) :
    market.normalizePrice price = nearest market.tickSize price := by
  have fits : (price + market.tickSize / 2) / market.tickSize * market.tickSize < 2 ^ 64 :=
    (nearest_le market.tickSize price).trans_lt here
  rw [normalizePrice,if_neg ticked.ne',addWrap_of_lt here,mulWrap,Nat.mod_eq_of_lt fits,nearest]

-- The sum wraps to less than half a tick, which is rounded down to nothing.
theorem normalizePrice_of_wrap (ticked : 0 < market.tickSize) (fits : price < 2 ^ 64)
    (wraps : 2 ^ 64 ≤ price + market.tickSize / 2) : market.normalizePrice price = 0 := by
  have bound := market.words64.1
  have wrapped : addWrap 64 price (market.tickSize / 2) = price + market.tickSize / 2 - 2 ^ 64 := by
    rw [addWrap,Nat.mod_eq_sub_mod wraps,Nat.mod_eq_of_lt (by omega)]
  have less : price + market.tickSize / 2 - 2 ^ 64 < market.tickSize := by omega
  rw [normalizePrice,if_neg ticked.ne',wrapped,Nat.div_eq_of_lt less,mulWrap,Nat.zero_mul,Nat.zero_mod]

theorem validatePrice_iff (ticked : 0 < market.tickSize) : market.validatePrice price = true ↔ market.tickSize ∣ price := by
  rw [validatePrice,if_neg ticked.ne',isMultipleOf,decide_eq_true_iff,Nat.dvd_iff_mod_eq_zero]

theorem tick_round_trip (ticked : 0 < market.tickSize) (fits : price < 2 ^ 64) (multiple : market.tickSize ∣ price) :
    market.tickToPrice (market.priceToTick price) = price := by
  rw [priceToTick,if_neg ticked.ne',tickToPrice,mulWrap,Nat.div_mul_cancel multiple,Nat.mod_eq_of_lt fits]

theorem up_iff (ticked : 0 < market.tickSize) (here : price + market.tickSize / 2 < 2 ^ 64) :
    nearest market.tickSize price + market.tickSize / 2 < 2 ^ 64 ↔
      (market.tickSize ≤ price % market.tickSize + market.tickSize / 2 →
        price - price % market.tickSize + market.tickSize + market.tickSize / 2 < 2 ^ 64) := by
  by_cases low : price % market.tickSize + market.tickSize / 2 < market.tickSize
  · rw [nearest_of_low low]
    omega
  · rw [nearest_of_high ticked (Nat.le_of_not_lt low)]
    omega

theorem consistent_unticked_iff (unticked : market.tickSize = 0) : Consistent market price ↔ price = 0 := by
  have normal : ∀ price, market.normalizePrice price = price := fun _ => if_pos unticked
  have valid : ∀ price, market.validatePrice price = true := fun _ => if_pos unticked
  have back : market.tickToPrice (market.priceToTick price) = 0 := by
    rw [tickToPrice,unticked,mulWrap,Nat.mul_zero,Nat.zero_mod]
  constructor
  · intro consistent
    exact (consistent.onTick (valid price)).2.symm.trans back
  · rintro rfl
    refine ⟨valid _,?_,?_,normal _,fun _ => ⟨normal 0,back⟩⟩ <;> rw [normal] <;> exact Nat.le_add_right _ _

theorem consistent_of_roomy (ticked : 0 < market.tickSize) (fits : price < 2 ^ 64) (roomy : Roomy market price) :
    Consistent market price := by
  have rounded := normalizePrice_of_lt ticked roomy.here
  have within := nearest_le market.tickSize price
  have reach : price + market.tickSize / 2 < nearest market.tickSize price + market.tickSize := le_nearest ticked
  have again := normalizePrice_of_lt ticked ((up_iff ticked roomy.here).mpr roomy.up)
  refine ⟨?_,?_,?_,?_,?_⟩
  · rw [validatePrice_iff ticked,rounded]
    exact dvd_nearest _ _
  · rw [rounded]
    omega
  · rw [rounded]
    omega
  · rw [rounded,again]
    exact nearest_of_dvd ticked (dvd_nearest _ _)
  · intro valid
    have multiple := (validatePrice_iff ticked).mp valid
    exact ⟨rounded.trans (nearest_of_dvd ticked multiple),tick_round_trip ticked fits multiple⟩

-- A price at the top is rounded to nothing at once or, from the tick above it, the second time.
theorem roomy_of_consistent (ticked : 0 < market.tickSize) (fits : price < 2 ^ 64) (consistent : Consistent market price) :
    Roomy market price := by
  have bound := market.words64.1
  have here : price + market.tickSize / 2 < 2 ^ 64 := by
    by_contra wraps
    have below := consistent.below
    rw [normalizePrice_of_wrap ticked fits (Nat.le_of_not_lt wraps)] at below
    omega
  have rounded := normalizePrice_of_lt ticked here
  refine ⟨fun unticked => absurd unticked ticked.ne',here,(up_iff ticked here).mp ?_⟩
  by_contra wraps
  have within := nearest_le market.tickSize price
  have idempotent := consistent.idempotent
  rw [rounded,normalizePrice_of_wrap ticked (by omega) (Nat.le_of_not_lt wraps)] at idempotent
  omega

theorem tick_arithmetic_consistent_iff (fits : price < 2 ^ 64) : Consistent market price ↔ Roomy market price := by
  rcases Nat.eq_zero_or_pos market.tickSize with unticked | ticked
  · rw [consistent_unticked_iff unticked]
    constructor
    · rintro rfl
      exact ⟨fun _ => rfl,by simp [unticked],by simp [unticked]⟩
    · exact fun roomy => roomy.unticked unticked
  · exact ⟨roomy_of_consistent ticked fits,consistent_of_roomy ticked fits⟩

def wholeThousands : Market := {Bench.market with
  tickSize:=1000
  words64:=by decide}

theorem tick_arithmetic_consistent_iff_halfway : Consistent wholeThousands 50500 :=
  (tick_arithmetic_consistent_iff (by decide)).mpr ⟨by decide,by decide,by decide⟩

def unticked : Market := {Bench.market with
  tickSize:=0
  words64:=by decide}

-- Without a tick the price is valid and comes back as zero; at the top a price is rounded to zero.
theorem tick_arithmetic_fails : ¬Consistent unticked 5 ∧ ¬Consistent wholeThousands (2 ^ 64 - 1) := by
  refine ⟨fun consistent => ?_,fun consistent => ?_⟩
  · have back : unticked.tickToPrice (unticked.priceToTick 5) = 0 := by decide
    exact absurd (back.symm.trans (consistent.onTick (by decide)).2) (by decide)
  · have rounded : wholeThousands.normalizePrice (2 ^ 64 - 1) = 0 := by decide
    have below := consistent.below
    rw [rounded] at below
    exact absurd below (by decide)

end Pranklin.Market
