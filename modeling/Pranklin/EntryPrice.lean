import Pranklin.OpenInterest
import Pranklin.Proportion

namespace Pranklin.EntryPrice
open Words Effect Proportion PositionManager

structure Trade where
  size : Nat
  price : Nat
  isBuy : Bool
  initialMarginBps : Nat
  words : size < 2 ^ 64 ∧ price < 2 ^ 64 ∧ initialMarginBps < 2 ^ 32 := by decide

def Trade.apply (trade : Trade) (trader : Address) (marketId : Nat) : EngineM Unit :=
  updatePosition trader marketId trade.size trade.price trade.isBuy trade.initialMarginBps

def sidePrices (trade : Trade) (before after : Option Position) (since : List Nat) : List Nat :=
  match before,after with
  | _,none => []
  | none,some _ => [trade.price]
  | some held,some left =>
    if held.isLong ≠ left.isLong then [trade.price]
    else if trade.isBuy = left.isLong then since ++ [trade.price]
    else since

structure Followed where
  engine : Engine
  since : List Nat

-- A call that fails is no fill.
def follow (trader : Address) (marketId : Nat) (s : Followed) (trade : Trade) : Followed :=
  match exec (trade.apply trader marketId) s.engine with
  | (.ok _,after) =>
    ⟨after,sidePrices trade (s.engine.state.getPosition trader marketId) (after.state.getPosition trader marketId) s.since⟩
  | (.error _,after) => ⟨after,s.since⟩

def run (trader : Address) (marketId : Nat) (e : Engine) (trades : List Trade) : Followed :=
  trades.foldl (follow trader marketId) ⟨e,[]⟩

-- What of an increase can leave its 128 bits: the sum of the values, the scaled margin and the sum of the
-- margins.
def Exceeds (position : Position) (trade : Trade) : Prop :=
  2 ^ 128 ≤ position.size * position.entryPrice + trade.size * trade.price ∨
    0 < position.size + trade.size ∧ (2 ^ 128 ≤ trade.size * trade.price * trade.initialMarginBps ∨
      2 ^ 128 ≤ position.margin + trade.size * trade.price * trade.initialMarginBps / basisPoints)

structure Lossless (position : Position) (trade : Trade) : Prop where
  oldValue : checkedMul 128 position.size position.entryPrice = some (position.size * position.entryPrice)
  newValue : checkedMul 128 trade.size trade.price = some (trade.size * trade.price)
  refused : ∀ error, increasePosition position trade.size trade.price trade.initialMarginBps = .error error ↔
    error = .overflow ∧ Exceeds position trade
  narrowed : ∀ after, increasePosition position trade.size trade.price trade.initialMarginBps = .ok after →
    0 < position.size + trade.size → after.entryPrice =
      (position.size * position.entryPrice + trade.size * trade.price) / (position.size + trade.size)

structure Averaged (position : Position) (since : List Nat) : Prop where
  size : position.size < 2 ^ 64
  entryPrice : position.entryPrice < 2 ^ 64
  between : Between since position.entryPrice

section Traded
variable {position after : Position} {before updated : Option Position} {since : List Nat} {trade : Trade}

theorem mean_fits (words : position.entryPrice < 2 ^ 64) (trade : Trade) :
    (position.size * position.entryPrice + trade.size * trade.price) / (position.size + trade.size) < 2 ^ 64 := by
  have most : (position.size * position.entryPrice + trade.size * trade.price) / (position.size + trade.size) ≤ 2 ^ 64 - 1 :=
    mean_le (Nat.le_sub_one_of_lt words) (Nat.le_sub_one_of_lt trade.words.2.1)
  omega

theorem product_fits {a b : Nat} (one : a < 2 ^ 64) (other : b < 2 ^ 64) : checkedMul 128 a b = some (a * b) := by
  have fits : a * b < 2 ^ 64 * 2 ^ 64 := Nat.mul_lt_mul'' one other
  rw [← Nat.pow_add] at fits
  exact checkedMul_of_lt fits

theorem increasePosition_overflow (sized : position.size < 2 ^ 64) (trade : Trade) :
    increasePosition position trade.size trade.price trade.initialMarginBps = .error .overflow ↔ Exceeds position trade := by
  have sizes : position.size + trade.size < 2 ^ 128 := (Nat.add_lt_add sized trade.words.1).trans (by decide)
  constructor
  · intro refused
    by_contra fits
    unfold Exceeds at fits
    push Not at fits
    obtain ⟨updated,ran⟩ := increasePosition_ok fits.1 sizes fits.2
    rw [ran] at refused
    cases refused
  · intro exceeds
    cases ran : increasePosition position trade.size trade.price trade.initialMarginBps with
    | error error => rw [OnlyOverflow.increasePosition _ _ _ _ error ran]
    | ok updated =>
      rcases increasePosition_cases ran with ⟨_,values,scaled,margins,_⟩ | ⟨_,nothing⟩
      · rcases exceeds with more | ⟨_,more | more⟩
        · exact absurd values (Nat.not_lt.mpr more)
        · exact absurd scaled (Nat.not_lt.mpr more)
        · exact absurd margins (Nat.not_lt.mpr more)
      · obtain ⟨empty,none⟩ := Nat.add_eq_zero_iff.mp nothing
        rcases exceeds with more | ⟨weighed,_⟩
        · simp [empty,none] at more
        · omega

theorem Averaged.lossless (averaged : Averaged position since) (trade : Trade) : Lossless position trade where
  oldValue := product_fits averaged.size averaged.entryPrice
  newValue := product_fits trade.words.1 trade.words.2.1
  refused error := by
    rw [← increasePosition_overflow averaged.size]
    refine ⟨fun refused => ?_,fun ⟨same,refused⟩ => same ▸ refused⟩
    obtain rfl := OnlyOverflow.increasePosition _ _ _ _ error refused
    exact ⟨rfl,refused⟩
  narrowed after ran weighed := by
    rcases increasePosition_cases ran with ⟨_,_,_,_,rfl⟩ | ⟨_,nothing⟩
    · exact wrap_of_lt (mean_fits averaged.entryPrice trade)
    · omega

theorem Averaged.opened (fits : position.size < 2 ^ 64) (priced : position.entryPrice = trade.price) :
    Averaged position [trade.price] :=
  ⟨fits,priced ▸ trade.words.2.1,priced ▸ Between.single _⟩

-- The size may wrap; the mean is taken of the sizes before it does.
theorem Averaged.increased (averaged : Averaged position since)
    (ran : increasePosition position trade.size trade.price trade.initialMarginBps = .ok after) :
    after.isLong = position.isLong ∧ Averaged after (since ++ [trade.price]) := by
  have priced := (averaged.lossless trade).narrowed after ran
  rcases increasePosition_cases ran with ⟨weighed,_,_,_,rfl⟩ | ⟨rfl,_⟩
  · have priced := priced weighed
    dsimp only at priced ⊢
    rw [priced]
    exact ⟨rfl,Nat.mod_lt _ (Nat.two_pow_pos 64),mean_fits averaged.entryPrice trade,averaged.between.mean weighed⟩
  · exact ⟨rfl,averaged.size,averaged.entryPrice,averaged.between.append _⟩

theorem traded_averaged (held : ∀ position, before = some position → Averaged position since)
    (ran : traded before trade.size trade.price trade.isBuy trade.initialMarginBps = .ok updated) :
    ∀ left, updated = some left → Averaged left (sidePrices trade before updated since) := by
  rintro left rfl
  cases before with
  | none =>
    obtain ⟨_,_,ran⟩ := bind_eq_ok ran
    cases ran
    exact .opened trade.words.1 rfl
  | some position =>
    have averaged := held position rfl
    unfold traded at ran
    dsimp only at ran
    split at ran
    · rename_i same
      obtain ⟨after,increased,ran⟩ := bind_eq_ok ran
      cases ran
      obtain ⟨side,later⟩ := averaged.increased increased
      rwa [sidePrices,if_neg (not_not.mpr side.symm),if_pos (same.symm.trans side.symm)]
    rename_i opposite
    split at ran
    · split at ran
      · obtain ⟨_,_,ran⟩ := bind_eq_ok ran
        cases ran
        rw [sidePrices,if_pos opposite]
        exact .opened ((Nat.sub_le _ _).trans_lt trade.words.1) rfl
      · cases ran
    · split at ran
      · cases ran
      obtain ⟨_,_,ran⟩ := bind_eq_ok ran
      obtain ⟨_,_,ran⟩ := bind_eq_ok ran
      cases ran
      rw [sidePrices,if_neg (not_not.mpr rfl),if_neg (Ne.symm opposite)]
      exact ⟨(Nat.sub_le _ _).trans_lt averaged.size,averaged.entryPrice,averaged.between⟩

end Traded

section Run
variable {e : Engine} {s : Followed} {trader : Address} {marketId : Nat}

-- The position of the account in the market is the average of its own fills, and no block has
-- committed one.
structure Tracked (trader : Address) (marketId : Nat) (s : Followed) : Prop where
  flat : s.engine.state.committed (.position trader marketId) = none
  averaged : ∀ position, s.engine.state.getPosition trader marketId = some position → Averaged position s.since

theorem Tracked.follow (tracked : Tracked trader marketId s) (trade : Trade) :
    Tracked trader marketId (follow trader marketId s trade) := by
  unfold EntryPrice.follow
  cases ran : exec (trade.apply trader marketId) s.engine with
  | mk result after =>
    cases result with
    | error error =>
      rcases updatePosition_exec trader marketId trade.size trade.price trade.isBuy trade.initialMarginBps s.engine with
        failed | ⟨_,_,done⟩
      · cases ran.symm.trans failed
        exact tracked
      · cases ran.symm.trans done
    | ok done =>
      obtain ⟨updated,made,reads,committed,_⟩ := OpenInterest.updatePosition_reads tracked.flat ran
      have read := reads trader marketId
      rw [if_pos ⟨rfl,rfl⟩] at read
      refine ⟨(committed _).trans tracked.flat,fun left found => ?_⟩
      dsimp only at found ⊢
      rw [read] at found ⊢
      exact traded_averaged tracked.averaged made left found

theorem run_tracked (flat : e.state.getPosition trader marketId = none) (trades : List Trade) :
    Tracked trader marketId (run trader marketId e trades) := by
  have start : Tracked trader marketId ⟨e,[]⟩ :=
    ⟨StateManager.committed_of_get_none flat,fun position found => by rw [flat] at found; cases found⟩
  unfold run
  generalize (⟨e,[]⟩ : Followed) = s at start
  induction trades generalizing s with
  | nil => exact start
  | cons trade trades ih => exact ih _ (start.follow trade)

theorem entry_price_between (flat : e.state.getPosition trader marketId = none) (trades : List Trade) (position : Position)
    (found : (run trader marketId e trades).engine.state.getPosition trader marketId = some position) :
    (∃ low high, (run trader marketId e trades).since.min? = some low ∧ (run trader marketId e trades).since.max? = some high ∧
        low ≤ position.entryPrice ∧ position.entryPrice ≤ high) ∧
      ∀ trade, Lossless position trade := by
  have averaged := (run_tracked flat trades).averaged position found
  exact ⟨averaged.between.min_max,averaged.lossless⟩

-- At the top of both words: the size wraps, and the entry price is the mean of the two prices.
def topTrades : List Trade := [⟨2 ^ 64 - 1,2 ^ 64 - 1,true,0,by decide⟩,⟨2 ^ 64 - 1,1,true,0,by decide⟩]

theorem entry_price_between_at_top :
    let ran := run Bench.alice 0 (.new Bench.fresh) topTrades
    (∃ low high, ran.since.min? = some low ∧ ran.since.max? = some high ∧ low ≤ 2 ^ 63 ∧ 2 ^ 63 ≤ high) ∧
      ∀ trade, Lossless ⟨2 ^ 64 - 2,2 ^ 63,true,0,0⟩ trade := by
  have found : (run Bench.alice 0 (.new Bench.fresh) topTrades).engine.state.getPosition Bench.alice 0 =
      some ⟨2 ^ 64 - 2,2 ^ 63,true,0,0⟩ := by decide +kernel
  exact entry_price_between rfl topTrades _ found

end Run

end Pranklin.EntryPrice
