import Pranklin.Calls
import Pranklin.Funding
import Pranklin.Proportion

namespace Pranklin
open Words Effect Proportion

namespace FundingRateCalculator
variable {c : FundingRateCalculator} {markPrice oraclePrice elapsed interval scaled : Nat}

theorem clampedPremium_lt (c : FundingRateCalculator) (markPrice oraclePrice : Nat) :
    c.clampedPremium markPrice oraclePrice < 2 ^ 32 := Nat.lt_of_le_of_lt (Nat.min_le_right _ _) c.word32

theorem clampedPremium_self (c : FundingRateCalculator) (price : Nat) : c.clampedPremium price price = 0 := by
  rw [clampedPremium,premium,if_pos (Nat.le_refl _),Nat.sub_self,Nat.zero_mul,Nat.zero_div]
  exact Nat.zero_min _

theorem clampedPremium_unpriced (c : FundingRateCalculator) (markPrice : Nat) : c.clampedPremium markPrice 0 = 0 := by
  rw [clampedPremium,premium,if_pos (Nat.zero_le _),Nat.div_zero]
  exact Nat.zero_min _

-- Only an interval of one lets the scaled premium reach the sign bit.
theorem scaled_lt (came : scale (c.clampedPremium markPrice oraclePrice) elapsed interval = .ok scaled) (other : interval ≠ 1) :
    scaled < 2 ^ 63 := by
  rcases scale_ok came with ⟨paced,fits,rfl⟩ | ⟨_,rfl⟩
  · apply Nat.div_lt_of_lt_mul
    omega
  · have small := clampedPremium_lt c markPrice oraclePrice
    omega

theorem scaled_one (came : scale (c.clampedPremium markPrice oraclePrice) elapsed 1 = .ok scaled) :
    scaled = c.clampedPremium markPrice oraclePrice * elapsed ∧ scaled < 2 ^ 64 := by
  rcases scale_ok came with ⟨_,fits,rfl⟩ | ⟨never,_⟩
  · rw [Nat.div_one]
    exact ⟨rfl,fits⟩
  · cases never

theorem scaled_word (came : scale (c.clampedPremium markPrice oraclePrice) elapsed interval = .ok scaled) : scaled < 2 ^ 64 := by
  by_cases unit : interval = 1
  · subst unit
    exact (scaled_one came).2
  · exact Nat.lt_trans (scaled_lt came unit) (by decide)

theorem signedRate_above (above : oraclePrice ≤ markPrice) :
    signedRate markPrice oraclePrice scaled = if scaled < 2 ^ 63 then (scaled : Int) else scaled - 2 ^ 64 := if_pos above

theorem signedRate_below (below : ¬oraclePrice ≤ markPrice) :
    signedRate markPrice oraclePrice scaled = if scaled ≤ 2 ^ 63 then -(scaled : Int) else 2 ^ 64 - scaled := by
  rw [signedRate,if_neg below,negSigned,asSigned]
  dsimp only [Nat.reduceSub]
  by_cases small : scaled < 2 ^ 63
  · rw [if_pos small,if_pos (Nat.le_of_lt small),if_neg (by omega)]
  · rw [if_neg small]
    split <;> split <;> omega

section Cap

theorem signedRate_natAbs (word : scaled < 2 ^ 64) : (signedRate markPrice oraclePrice scaled).natAbs =
    if scaled < 2 ^ 63 then scaled else 2 ^ 64 - scaled := by
  by_cases above : oraclePrice ≤ markPrice
  · rw [signedRate_above above]
    split <;> omega
  · rw [signedRate_below above]
    split <;> split <;> omega

-- The premium is within the cap, or what it has above the cap is cut off when it is scaled, or
-- the scaled premium turns over in the signed word and comes back inside.
def WithinCap (clamped cap elapsed interval : Nat) : Prop :=
  clamped ≤ cap ∨ (clamped - cap) * elapsed ≤ clamped * elapsed % interval ∨
    interval = 1 ∧ 2 ^ 63 ≤ clamped * elapsed ∧ 2 ^ 64 ≤ (clamped + cap) * elapsed

theorem scaled_capped_iff {clamped cap : Nat} (paced : 0 < interval) (fits : clamped * elapsed < 2 ^ 64) :
    (if clamped * elapsed / interval < 2 ^ 63 then clamped * elapsed / interval
      else 2 ^ 64 - clamped * elapsed / interval) * interval ≤ cap * elapsed ↔ WithinCap clamped cap elapsed interval := by
  have whole := Nat.div_mul_le_self (clamped * elapsed) interval
  have rest := Nat.div_add_mod' (clamped * elapsed) interval
  have excess : (clamped - cap) * elapsed = clamped * elapsed - cap * elapsed := Nat.sub_mul ..
  have both : (clamped + cap) * elapsed = clamped * elapsed + cap * elapsed := Nat.add_mul ..
  have scaled : clamped ≤ cap → clamped * elapsed ≤ cap * elapsed := Nat.mul_le_mul_right _
  unfold WithinCap
  split
  · rename_i small
    constructor
    · intro within
      right
      left
      omega
    · rintro (least | cut | ⟨rfl,large,_⟩)
      · have less := scaled least
        omega
      · omega
      · rw [Nat.div_one] at small
        omega
  · rename_i large
    obtain rfl : interval = 1 := by
      have two := Nat.mul_le_mul_right interval (Nat.le_of_not_lt large)
      omega
    rw [Nat.div_one] at large ⊢
    rw [Nat.mod_one] at rest ⊢
    constructor
    · intro within
      exact .inr (.inr ⟨rfl,by omega,by omega⟩)
    · rintro (least | cut | ⟨_,_,exceeds⟩)
      · have less := scaled least
        omega
      · omega
      · omega

variable {e after : Engine} {market : Market} {marketId timestamp : Nat}

-- The calculator's cap is a constant, whatever the market's parameter says.
theorem capped_iff (registered : e.state.getMarket marketId = some market) (paced : 0 < market.fundingInterval)
    (ran : exec (Engine.updateFundingRate marketId markPrice oraclePrice timestamp) e = (.ok (),after)) :
    let elapsed := timeElapsed (e.state.getFundingRate marketId) timestamp
    (after.state.getFundingRate marketId).rate.natAbs * market.fundingInterval ≤ market.maxFundingRateBps * elapsed ↔
      WithinCap (default.clampedPremium markPrice oraclePrice) market.maxFundingRateBps elapsed market.fundingInterval := by
  intro elapsed
  obtain ⟨rate,reckoned,stored⟩ := updateFundingRate_ok registered ran
  rw [stored,StateManager.getFundingRate_setFundingRate]
  dsimp only
  rcases Nat.eq_zero_or_pos oraclePrice with rfl | priced
  · cases reckoned
    rw [clampedPremium_unpriced]
    exact iff_of_true (by simp) (.inl (Nat.zero_le _))
  · obtain ⟨scaled,came,rfl⟩ := calculateFundingRate_ok priced reckoned
    rcases scale_ok came with ⟨_,fits,rfl⟩ | ⟨never,_⟩
    · rw [signedRate_natAbs (Nat.lt_of_le_of_lt (Nat.div_le_self _ _) fits)]
      exact scaled_capped_iff paced fits
    · omega

def fundedMarket : Engine := Engine.new (Bench.state.setFundingRate 0 ⟨0,1000,0,100,100⟩)

theorem cap_exceeded :
    (exec (Engine.updateFundingRate 0 110 100 4600) fundedMarket).1 = .ok () ∧
      ((exec (Engine.updateFundingRate 0 110 100 4600) fundedMarket).2.state.getFundingRate 0).rate = 1000 ∧
      ¬1000 * Bench.market.fundingInterval ≤
        Bench.market.maxFundingRateBps * timeElapsed (fundedMarket.state.getFundingRate 0) 4600 := by
  decide +kernel

theorem capped_iff_on_bench :
    ((exec (Engine.updateFundingRate 0 101 100 4600) fundedMarket).2.state.getFundingRate 0).rate.natAbs *
        Bench.market.fundingInterval ≤
      Bench.market.maxFundingRateBps * timeElapsed (fundedMarket.state.getFundingRate 0) 4600 ↔
      WithinCap (default.clampedPremium 101 100) Bench.market.maxFundingRateBps
        (timeElapsed (fundedMarket.state.getFundingRate 0) 4600) Bench.market.fundingInterval :=
  have setting : fundedMarket.state.getMarket 0 = some Bench.market ∧
      (exec (Engine.updateFundingRate 0 101 100 4600) fundedMarket).1 = .ok () := by decide +kernel
  capped_iff setting.1 (by decide) (exec_of_result setting.2)

end Cap

section Follows
variable {p q : Nat} {low high : Int}

def Signed (oraclePrice markPrice : Nat) (rate : Int) : Prop :=
  (oraclePrice ≤ markPrice → 0 ≤ rate) ∧ (markPrice ≤ oraclePrice → rate ≤ 0)

def SignKept (c : FundingRateCalculator) (oraclePrice elapsed interval markPrice : Nat) : Prop :=
  interval = 1 → c.clampedPremium markPrice oraclePrice * elapsed ≤ 2 ^ 63 ∧
    (oraclePrice ≤ markPrice → c.clampedPremium markPrice oraclePrice * elapsed < 2 ^ 63)

-- The larger premium fits its word, or what it has lost there makes no difference after the
-- clamp or the scaling.
def OrderKept (c : FundingRateCalculator) (oraclePrice elapsed interval p q : Nat) : Prop :=
  (q - oraclePrice) * basisPoints / oraclePrice < 2 ^ 64 ∨
    c.clampedPremium p oraclePrice ≤ c.clampedPremium q oraclePrice ∨
    0 < interval ∧ (c.clampedPremium p oraclePrice - c.clampedPremium q oraclePrice) * elapsed ≤
      c.clampedPremium p oraclePrice * elapsed % interval

theorem signed_iff (came : scale (c.clampedPremium markPrice oraclePrice) elapsed interval = .ok scaled) :
    Signed oraclePrice markPrice (signedRate markPrice oraclePrice scaled) ↔
      SignKept c oraclePrice elapsed interval markPrice := by
  unfold Signed SignKept
  by_cases unit : interval = 1
  · subst unit
    obtain ⟨product,word⟩ := scaled_one came
    rw [← product]
    by_cases above : oraclePrice ≤ markPrice
    · rw [signedRate_above above]
      rcases Nat.eq_or_lt_of_le above with rfl | strict
      · rw [clampedPremium_self,Nat.zero_mul] at product
        subst product
        simp
      · split <;> omega
    · rw [signedRate_below above]
      split <;> omega
  · have small := scaled_lt came unit
    refine iff_of_true ?_ fun one => absurd one unit
    by_cases above : oraclePrice ≤ markPrice
    · rw [signedRate_above above,if_pos small]
      refine ⟨fun _ => by omega,fun below => ?_⟩
      obtain rfl := Nat.le_antisymm above below
      rw [clampedPremium_self] at came
      have none : scaled = 0 := by
        rcases scale_ok came with ⟨_,_,rfl⟩ | ⟨_,rfl⟩
        · rw [Nat.zero_mul,Nat.zero_div]
        · rfl
      omega
    · rw [signedRate_below above,if_pos (Nat.le_of_lt small)]
      omega

theorem clampedPremium_le_above (c : FundingRateCalculator) (above : oraclePrice ≤ p) (le : p ≤ q)
    (fits : (q - oraclePrice) * basisPoints / oraclePrice < 2 ^ 64) :
    c.clampedPremium p oraclePrice ≤ c.clampedPremium q oraclePrice := by
  have less : (p - oraclePrice) * basisPoints / oraclePrice ≤ (q - oraclePrice) * basisPoints / oraclePrice :=
    Nat.div_le_div_right (Nat.mul_le_mul_right _ (by omega))
  rw [clampedPremium,clampedPremium,premium,premium,if_pos above,if_pos (above.trans le),wrap_of_lt fits,
    wrap_of_lt (Nat.lt_of_le_of_lt less fits)]
  exact min_le_min_right _ less

theorem clampedPremium_le_below (c : FundingRateCalculator) (below : ¬oraclePrice ≤ q) (le : p ≤ q) :
    c.clampedPremium q oraclePrice ≤ c.clampedPremium p oraclePrice := by
  have less : (oraclePrice - q) * basisPoints / oraclePrice ≤ (oraclePrice - p) * basisPoints / oraclePrice :=
    Nat.div_le_div_right (Nat.mul_le_mul_right _ (by omega))
  have whole : (oraclePrice - p) * basisPoints / oraclePrice ≤ basisPoints := by
    apply Nat.div_le_of_le_mul
    exact Nat.mul_le_mul_right _ (Nat.sub_le _ _)
  have fits : (oraclePrice - p) * basisPoints / oraclePrice < 2 ^ 64 := Nat.lt_of_le_of_lt whole (by decide)
  rw [clampedPremium,clampedPremium,premium,premium,if_neg below,if_neg (by omega),wrap_of_lt fits,
    wrap_of_lt (Nat.lt_of_le_of_lt less fits)]
  exact min_le_min_right _ less

theorem scale_mono {small large first second : Nat} (le : small ≤ large) (one : scale small elapsed interval = .ok first)
    (other : scale large elapsed interval = .ok second) : first ≤ second := by
  rcases scale_ok one with ⟨_,_,rfl⟩ | ⟨still,rfl⟩
  · rcases scale_ok other with ⟨_,_,rfl⟩ | ⟨still,_⟩
    · exact Nat.div_le_div_right (Nat.mul_le_mul_right _ le)
    · omega
  · rcases scale_ok other with ⟨paced,_,_⟩ | ⟨_,rfl⟩
    · omega
    · exact le

theorem scaled_le_iff {first second : Nat} (above : oraclePrice ≤ p) (le : p ≤ q)
    (one : scale (c.clampedPremium p oraclePrice) elapsed interval = .ok first)
    (other : scale (c.clampedPremium q oraclePrice) elapsed interval = .ok second) :
    first ≤ second ↔ OrderKept c oraclePrice elapsed interval p q := by
  unfold OrderKept
  by_cases grows : c.clampedPremium p oraclePrice ≤ c.clampedPremium q oraclePrice
  · exact iff_of_true (scale_mono grows one other) (.inr (.inl grows))
  · have lost : ¬(q - oraclePrice) * basisPoints / oraclePrice < 2 ^ 64 :=
      fun fits => grows (clampedPremium_le_above c above le fits)
    rcases scale_ok one with ⟨paced,_,rfl⟩ | ⟨still,rfl⟩
    · rcases scale_ok other with ⟨_,_,rfl⟩ | ⟨still,_⟩
      · rw [div_le_div_iff_mod paced (Nat.mul_le_mul_right _ (Nat.le_of_not_le grows)),← Nat.sub_mul]
        simp only [lost,grows,paced,true_and,false_or]
      · omega
    · rcases scale_ok other with ⟨paced,_,_⟩ | ⟨_,rfl⟩
      · omega
      · simp only [lost,grows,still,Nat.lt_irrefl,false_and,or_false]

-- Where both rates have their signs, only two marks above the oracle can be out of order.
theorem signedRate_le_iff {first second : Nat} (le : p ≤ q)
    (one : scale (c.clampedPremium p oraclePrice) elapsed interval = .ok first)
    (other : scale (c.clampedPremium q oraclePrice) elapsed interval = .ok second)
    (left : Signed oraclePrice p (signedRate p oraclePrice first))
    (right : Signed oraclePrice q (signedRate q oraclePrice second)) :
    signedRate p oraclePrice first ≤ signedRate q oraclePrice second ↔
      (oraclePrice ≤ p → OrderKept c oraclePrice elapsed interval p q) := by
  by_cases above : oraclePrice ≤ p
  · have lower := left.1 above
    have upper := right.1 (above.trans le)
    rw [← scaled_le_iff above le one other]
    rw [signedRate_above above] at lower ⊢
    rw [signedRate_above (above.trans le)] at upper ⊢
    have first64 := scaled_word one
    have second64 := scaled_word other
    split at lower
    · rename_i small
      split at upper
      · rename_i small'
        rw [if_pos small,if_pos small']
        omega
      · omega
    · omega
  · refine iff_of_true ?_ fun reached => absurd reached above
    have lower := left.2 (Nat.le_of_not_le above)
    by_cases passes : oraclePrice ≤ q
    · exact lower.trans (right.1 passes)
    · have less := scale_mono (clampedPremium_le_below c passes le) other one
      have first64 := scaled_word one
      rw [signedRate_below above] at lower ⊢
      rw [signedRate_below passes]
      split at lower
      · rename_i small
        rw [if_pos small,if_pos (less.trans small)]
        omega
      · omega

theorem follows_premium_iff (priced : 0 < oraclePrice) (le : p ≤ q)
    (lower : c.calculateFundingRate p oraclePrice elapsed interval = .ok low)
    (upper : c.calculateFundingRate q oraclePrice elapsed interval = .ok high) :
    low ≤ high ∧ Signed oraclePrice p low ∧ Signed oraclePrice q high ↔
      SignKept c oraclePrice elapsed interval p ∧ SignKept c oraclePrice elapsed interval q ∧
        (oraclePrice ≤ p → OrderKept c oraclePrice elapsed interval p q) := by
  obtain ⟨first,one,rfl⟩ := calculateFundingRate_ok priced lower
  obtain ⟨second,other,rfl⟩ := calculateFundingRate_ok priced upper
  rw [← signed_iff one,← signed_iff other]
  constructor
  · rintro ⟨ordered,left,right⟩
    exact ⟨left,right,(signedRate_le_iff le one other left right).mp ordered⟩
  · rintro ⟨left,right,ordered⟩
    exact ⟨(signedRate_le_iff le one other left right).mpr ordered,left,right⟩

-- Over an oracle price of 1 a mark of 2 ^ 60 + 1 has a premium of which the word keeps nothing;
-- and with an interval of 1 a scaled premium reaches the sign bit.
theorem premium_turns_over :
    default.calculateFundingRate 2 1 3600 3600 = .ok 1000 ∧
      default.calculateFundingRate (2 ^ 60 + 1) 1 3600 3600 = .ok 0 ∧
      default.calculateFundingRate 2 1 (2 ^ 63 / 1000 + 1) 1 = .ok (-2 ^ 63 + 192) ∧
      ¬Signed 1 2 (-2 ^ 63 + 192) ∧
      ¬∀ p q low high, p ≤ q → default.calculateFundingRate p 1 3600 3600 = .ok low →
        default.calculateFundingRate q 1 3600 3600 = .ok high → low ≤ high := by
  have near : default.calculateFundingRate 2 1 3600 3600 = .ok 1000 := by decide
  have far : default.calculateFundingRate (2 ^ 60 + 1) 1 3600 3600 = .ok 0 := by decide
  refine ⟨near,far,by decide,fun signed => absurd (signed.1 (by decide)) (by decide),?_⟩
  intro grows
  exact absurd (grows 2 (2 ^ 60 + 1) 1000 0 (by decide) near far) (by decide)

theorem follows_premium_iff_here :
    (1000 : Int) ≤ 1000 ∧ Signed 100 111 1000 ∧ Signed 100 112 1000 ↔
      SignKept default 100 3600 3600 111 ∧ SignKept default 100 3600 3600 112 ∧
        (100 ≤ 111 → OrderKept default 100 3600 3600 111 112) :=
  follows_premium_iff (by decide) (by decide) (by decide) (by decide)

end Follows
end FundingRateCalculator
end Pranklin
