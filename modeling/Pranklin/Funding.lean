import Pranklin.Engine

namespace Pranklin.Words

-- `as` a signed word of the width, and the negation of one, which wraps at the least.
def asSigned (width n : Nat) : Int := if n < 2 ^ (width - 1) then n else (n : Int) - 2 ^ width

def negSigned (width : Nat) (z : Int) : Int := if z = -2 ^ (width - 1) then z else -z

def checkedAddSigned (width : Nat) (a b : Int) : Option Int :=
  if -2 ^ (width - 1) ≤ a + b ∧ a + b < 2 ^ (width - 1) then some (a + b) else none

theorem checkedAddSigned_eq_some {a b c : Int} (done : checkedAddSigned width a b = some c) : c = a + b := by
  unfold checkedAddSigned at done
  split at done
  · exact (Option.some.inj done).symm
  · cases done

end Pranklin.Words

namespace Pranklin
open Words Effect

namespace StateManager

def getFundingRate (s : StateManager) (marketId : Nat) : FundingRate := (s.get (.fundingRate marketId)).getD {}

def setFundingRate (s : StateManager) (marketId : Nat) (rate : FundingRate) : StateManager := s.set (.fundingRate marketId) rate

theorem getFundingRate_setFundingRate (s : StateManager) (marketId : Nat) (rate : FundingRate) :
    (s.setFundingRate marketId rate).getFundingRate marketId = rate := by
  rw [getFundingRate,setFundingRate,get_set_self]
  rfl

theorem getMarket_setFundingRate (s : StateManager) (marketId : Nat) (rate : FundingRate) (read : Nat) :
    (s.setFundingRate marketId rate).getMarket read = s.getMarket read := get_set_ne _ _ (by simp)

end StateManager

structure FundingRateCalculator where
  maxFundingRateBps : Nat
  word32 : maxFundingRateBps < 2 ^ 32 := by decide

namespace FundingRateCalculator

-- `Default`, the only calculator that is ever made.
def default : FundingRateCalculator := ⟨1000,by decide⟩

-- The premium of the mark over the oracle in basis points, cut to a word, and whether it
-- is none below it. The products of words by 10000 stay inside their 128 bits.
def premium (markPrice oraclePrice : Nat) : Nat × Bool :=
  if oraclePrice ≤ markPrice then (wrap 64 ((markPrice - oraclePrice) * basisPoints / oraclePrice),true)
  else (wrap 64 ((oraclePrice - markPrice) * basisPoints / oraclePrice),false)

def clampedPremium (c : FundingRateCalculator) (markPrice oraclePrice : Nat) : Nat :=
  min (premium markPrice oraclePrice).1 c.maxFundingRateBps

-- `checked_div` by an interval that is not zero always answers.
def scale (clampedPremium timeElapsed fundingInterval : Nat) : Except EngineError Nat :=
  if 0 < fundingInterval then do
    let product ← orOverflow (checkedMul 64 clampedPremium timeElapsed)
    return product / fundingInterval
  else return clampedPremium

def calculateFundingRate (c : FundingRateCalculator) (markPrice oraclePrice timeElapsed fundingInterval : Nat) :
    Except EngineError Int :=
  if oraclePrice = 0 then return 0
  else do
    let fundingRate ← scale (c.clampedPremium markPrice oraclePrice) timeElapsed fundingInterval
    if (premium markPrice oraclePrice).2 then return asSigned 64 fundingRate
    else return negSigned 64 (asSigned 64 fundingRate)

-- Nothing has elapsed before the first update.
def timeElapsed (current : FundingRate) (timestamp : Nat) : Nat :=
  if 0 < current.lastUpdate then timestamp - current.lastUpdate else 0

def updateFundingRate (c : FundingRateCalculator) (marketId markPrice oraclePrice timestamp : Nat) : EngineM Unit := do
  let current ← reads fun e => e.state.getFundingRate marketId
  let found ← reads fun e => e.state.getMarket marketId
  let marketInfo ← orThrow found .marketNotFound
  let fundingRate ← tries fun _ =>
    c.calculateFundingRate markPrice oraclePrice (timeElapsed current timestamp) marketInfo.fundingInterval
  let newIndex ← orThrow (checkedAddSigned 128 current.index fundingRate) .overflow
  let newFunding : FundingRate := ⟨fundingRate,timestamp,newIndex,markPrice,oraclePrice⟩
  writes fun e => {e with state:=e.state.setFundingRate marketId newFunding}

end FundingRateCalculator

def Engine.updateFundingRate (marketId markPrice oraclePrice timestamp : Nat) : EngineM Unit :=
  FundingRateCalculator.default.updateFundingRate marketId markPrice oraclePrice timestamp

namespace FundingRateCalculator
variable {c : FundingRateCalculator} {e after : Engine} {market : Market} {marketId markPrice oraclePrice timestamp : Nat}

theorem scale_ok {clamped elapsed interval scaled : Nat} (done : scale clamped elapsed interval = .ok scaled) :
    0 < interval ∧ clamped * elapsed < 2 ^ 64 ∧ scaled = clamped * elapsed / interval ∨
      interval = 0 ∧ scaled = clamped := by
  unfold scale at done
  split at done
  · rename_i paced
    obtain ⟨fits,done⟩ := checkedMul_bind_ok done
    cases done
    exact .inl ⟨paced,fits,rfl⟩
  · rename_i still
    cases done
    exact .inr ⟨by omega,rfl⟩

def signedRate (markPrice oraclePrice scaled : Nat) : Int :=
  if oraclePrice ≤ markPrice then asSigned 64 scaled else negSigned 64 (asSigned 64 scaled)

theorem premium_above (markPrice oraclePrice : Nat) :
    (premium markPrice oraclePrice).2 = decide (oraclePrice ≤ markPrice) := by
  unfold premium
  split
  · rename_i above
    exact (decide_eq_true above).symm
  · rename_i below
    exact (decide_eq_false below).symm

theorem calculateFundingRate_ok {elapsed interval : Nat} {rate : Int} (priced : 0 < oraclePrice)
    (done : c.calculateFundingRate markPrice oraclePrice elapsed interval = .ok rate) :
    ∃ scaled, scale (c.clampedPremium markPrice oraclePrice) elapsed interval = .ok scaled ∧
      rate = signedRate markPrice oraclePrice scaled := by
  unfold calculateFundingRate at done
  rw [if_neg (Nat.ne_of_gt priced)] at done
  obtain ⟨scaled,came,done⟩ := bind_eq_ok done
  refine ⟨scaled,came,?_⟩
  rw [premium_above] at done
  unfold signedRate
  by_cases above : oraclePrice ≤ markPrice
  · rw [if_pos (decide_eq_true above)] at done
    cases done
    rw [if_pos above]
  · rw [if_neg (by simpa using above)] at done
    cases done
    rw [if_neg above]

theorem updateFundingRate_ok (registered : e.state.getMarket marketId = some market)
    (ran : exec (c.updateFundingRate marketId markPrice oraclePrice timestamp) e = (.ok (),after)) :
    ∃ rate, c.calculateFundingRate markPrice oraclePrice (timeElapsed (e.state.getFundingRate marketId) timestamp)
        market.fundingInterval = .ok rate ∧
      after.state = e.state.setFundingRate marketId
        ⟨rate,timestamp,(e.state.getFundingRate marketId).index + rate,markPrice,oraclePrice⟩ := by
  unfold updateFundingRate at ran
  rw [exec_reads_bind,exec_reads_bind,registered,exec_orThrow_some_bind] at ran
  obtain ⟨rate,reckoned,ran⟩ := exec_tries_ok ran
  obtain ⟨index,added,ran⟩ := exec_orThrow_ok ran
  cases checkedAddSigned_eq_some added
  cases ran
  exact ⟨rate,reckoned,rfl⟩

end FundingRateCalculator
end Pranklin
