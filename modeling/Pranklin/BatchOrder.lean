import Pranklin.RiskIndex

namespace Pranklin
open Words Effect LiquidationEngine

def batchAttempts (e : Engine) (walk : List PositionRisk) (marketId markPrice : Nat) (liquidator : Address)
    (maxLiquidations : Nat) : List Attempt :=
  match e.state.getMarket marketId with
  | none => []
  | some market => attemptsEach markPrice liquidator e
      ((getAtRiskPositions walk market.maintenanceMarginBps).take maxLiquidations)

def atRisk (walk : List PositionRisk) (thresholdBps : Nat) : List PositionRisk :=
  walk.filter (·.marginRatio < thresholdBps)

-- Nobody is attempted twice, and nobody is left out who is riskier than an entry that was taken.
structure TakesRiskiest (risky : List PositionRisk) (attempts : List Attempt) : Prop where
  once : (attempts.map Attempt.trader).Nodup
  riskiest : ∀ left ∈ risky, left.trader ∉ attempts.map Attempt.trader →
    ∀ taken ∈ risky.take attempts.length, taken.marginRatio ≤ left.marginRatio

def Level (risky : List PositionRisk) : Prop :=
  ∀ one ∈ risky, ∀ other ∈ risky, one.trader ≠ other.trader → one.marginRatio = other.marginRatio

def Single (risky : List PositionRisk) : Prop := (risky.map PositionRisk.trader).Nodup

namespace BatchOrder
variable {e after : Engine} {walk risky : List PositionRisk} {marketId markPrice maxLiquidations : Nat}
  {liquidator : Address} {market : Market} {listed : List (Address × Nat)}

section Attempts

theorem attemptsEach_length_le : (attemptsEach markPrice liquidator e listed).length ≤ listed.length := by
  induction listed generalizing e with
  | nil => exact Nat.le_refl _
  | cons target listed ih =>
    obtain ⟨trader,marketId⟩ := target
    rw [attemptsEach,List.length_cons,List.length_cons]
    apply Nat.succ_le_succ
    split
    · exact ih
    · exact Nat.zero_le _

theorem attemptsEach_front : (attemptsEach markPrice liquidator e listed).map (fun a => (a.trader,a.marketId)) =
    listed.take (attemptsEach markPrice liquidator e listed).length := by
  induction listed generalizing e with
  | nil => rfl
  | cons target listed ih =>
    obtain ⟨trader,marketId⟩ := target
    rw [attemptsEach]
    split
    · rw [List.map_cons,ih,List.length_cons,List.take_succ_cons]
    · rfl

theorem each_final : (exec (liquidateEach markPrice liquidator listed) e).2 =
    ((attemptsEach markPrice liquidator e listed).getLast?).elim e fun a => a.ran.2 := by
  induction listed generalizing e with
  | nil => rfl
  | cons target listed ih =>
    obtain ⟨trader,marketId⟩ := target
    rw [liquidateEach,attemptsEach]
    cases ran : Attempt.ran ⟨e,trader,marketId,markPrice,liquidator⟩ with
    | mk result next =>
    cases result with
    | error error =>
      rw [exec_error_bind ran]
      exact (congrArg Prod.snd ran).symm
    | ok result =>
      rw [exec_ok_bind ran,exec_bind_pure,ih]
      dsimp only
      cases attempts : attemptsEach markPrice liquidator next listed with
      | nil => exact (congrArg Prod.snd ran).symm
      | cons a rest => rw [List.getLast?_cons_cons,List.getLast?_eq_some_getLast (List.cons_ne_nil a rest)]; rfl

theorem attemptsEach_length (done : exec (liquidateEach markPrice liquidator listed) e = (.ok results,after)) :
    (attemptsEach markPrice liquidator e listed).length = listed.length := by
  induction listed generalizing e results after with
  | nil => rfl
  | cons target listed ih =>
    obtain ⟨trader,marketId⟩ := target
    obtain ⟨first,middle,ran,rest⟩ := exec_bind_ok done
    obtain ⟨others,last,rest,_⟩ := exec_bind_ok rest
    have ran : Attempt.ran ⟨e,trader,marketId,markPrice,liquidator⟩ = (.ok first,middle) := ran
    rw [attemptsEach,ran,List.length_cons,List.length_cons,ih rest]

end Attempts

section Batch

theorem nodup_of_short {l : List α} (short : l.length ≤ 1) : l.Nodup := by
  cases l with
  | nil => exact List.nodup_nil
  | cons first rest =>
    rw [List.length_cons] at short
    rw [List.eq_nil_of_length_eq_zero (by omega : rest.length = 0)]
    exact List.nodup_singleton first

theorem listed_eq (walk : List PositionRisk) (market : Market) :
    getAtRiskPositions walk market.maintenanceMarginBps =
      (atRisk walk market.maintenanceMarginBps).map fun risk => (risk.trader,risk.marketId) := rfl

theorem batch_front (registered : e.state.getMarket marketId = some market) :
    let attempts := batchAttempts e walk marketId markPrice liquidator maxLiquidations
    let risky := atRisk walk market.maintenanceMarginBps
    attempts.map Attempt.trader = (risky.take attempts.length).map PositionRisk.trader ∧
      attempts.length ≤ min maxLiquidations risky.length := by
  unfold batchAttempts
  rw [registered]
  dsimp only
  have front := @attemptsEach_front e markPrice liquidator
    ((getAtRiskPositions walk market.maintenanceMarginBps).take maxLiquidations)
  have few := @attemptsEach_length_le e markPrice liquidator
    ((getAtRiskPositions walk market.maintenanceMarginBps).take maxLiquidations)
  generalize attemptsEach markPrice liquidator e _ = attempts at front few
  rw [listed_eq,List.length_take,List.length_map] at few
  refine ⟨?_,few⟩
  have traders := congrArg (List.map Prod.fst) front
  rw [List.map_map,List.take_take,Nat.min_eq_left (few.trans (Nat.min_le_left _ _)),listed_eq,← List.map_take,
    List.map_map] at traders
  exact traders

theorem batch_final (e : Engine) (walk : List PositionRisk) (marketId markPrice : Nat) (liquidator : Address)
    (maxLiquidations : Nat) :
    (exec (processLiquidationBatch walk marketId markPrice liquidator maxLiquidations) e).2 =
      (batchAttempts e walk marketId markPrice liquidator maxLiquidations).getLast?.elim e fun a => a.ran.2 := by
  rw [processLiquidationBatch,exec_reads_bind]
  unfold batchAttempts
  cases e.state.getMarket marketId with
  | none => rfl
  | some market =>
    rw [exec_orThrow_some_bind]
    exact each_final

theorem exists_walk {heap : List PositionRisk} {thresholdBps : Nat} (arranged : risky.Perm (atRisk heap thresholdBps)) :
    ∃ walk, walk.Perm heap ∧ atRisk walk thresholdBps = risky := by
  refine ⟨risky ++ heap.filter fun risk => !decide (risk.marginRatio < thresholdBps),?_,?_⟩
  · exact (arranged.append_right _).trans (List.filter_append_perm _ heap)
  · have below : ∀ risk ∈ risky, decide (risk.marginRatio < thresholdBps) = true := by
      intro risk inside
      exact (List.mem_filter.mp (arranged.mem_iff.mp inside)).2
    unfold atRisk
    rw [List.filter_append,List.filter_eq_self.mpr below,List.filter_filter,List.filter_eq_nil_iff.mpr,List.append_nil]
    intro risk _
    simp

theorem perm_two {one other : PositionRisk} (first : one ∈ risky) (second : other ∈ risky)
    (apart : one.trader ≠ other.trader) : ∃ rest, risky.Perm (one :: (rest ++ [other])) := by
  have different : other ≠ one := fun same => apart (by rw [same])
  have inside : other ∈ risky.erase one := (List.mem_erase_of_ne different).mpr second
  refine ⟨(risky.erase one).erase other,(List.perm_cons_erase first).trans (.cons _ ?_)⟩
  exact (List.perm_cons_erase inside).trans (List.perm_append_singleton other _).symm

theorem perm_twice (twice : ¬Single risky) :
    ∃ one other rest, risky.Perm (one :: other :: rest) ∧ one.trader = other.trader := by
  induction risky with
  | nil => exact absurd List.nodup_nil twice
  | cons first rest ih =>
    unfold Single at twice
    rw [List.map_cons,List.nodup_cons,not_and_or,not_not] at twice
    rcases twice with again | later
    · obtain ⟨other,inside,same⟩ := List.mem_map.mp again
      exact ⟨first,other,_,.cons _ (List.perm_cons_erase inside),same.symm⟩
    · obtain ⟨one,other,left,perm,same⟩ := ih later
      refine ⟨one,other,first :: left,?_,same⟩
      exact (List.Perm.cons first perm).trans ((List.Perm.swap one first _).trans (.cons _ (.swap other first _)))

-- Entries that no order can set apart are taken rightly in any order and up to any error.
theorem takesRiskiest_of_level (registered : e.state.getMarket marketId = some market) (walked : walk.Perm heap)
    (level : Level (atRisk heap market.maintenanceMarginBps))
    (single : 2 ≤ maxLiquidations → Single (atRisk heap market.maintenanceMarginBps)) :
    TakesRiskiest (atRisk walk market.maintenanceMarginBps)
      (batchAttempts e walk marketId markPrice liquidator maxLiquidations) := by
  have front := @batch_front e walk marketId markPrice maxLiquidations liquidator market registered
  dsimp only at front
  obtain ⟨traders,few⟩ := front
  generalize batchAttempts e walk marketId markPrice liquidator maxLiquidations = attempts at traders few
  have same : (atRisk walk market.maintenanceMarginBps).Perm (atRisk heap market.maintenanceMarginBps) :=
    walked.filter _
  constructor
  · rw [traders]
    by_cases more : 2 ≤ maxLiquidations
    · have once : Single (atRisk walk market.maintenanceMarginBps) := ((same.map _).nodup_iff).mpr (single more)
      exact once.sublist ((List.take_sublist _ _).map _)
    · apply nodup_of_short
      rw [List.length_map,List.length_take]
      omega
  · intro left inside out taken front
    have apart : taken.trader ≠ left.trader := by
      intro equal
      apply out
      rw [traders,← equal]
      exact List.mem_map_of_mem front
    exact Nat.le_of_eq (level taken (same.mem_iff.mp (List.mem_of_mem_take front)) left (same.mem_iff.mp inside) apart)

theorem takesRiskiest_of_few (registered : e.state.getMarket marketId = some market) (walked : walk.Perm heap)
    (few : (atRisk heap market.maintenanceMarginBps).length ≤ maxLiquidations)
    (single : Single (atRisk heap market.maintenanceMarginBps))
    (done : exec (processLiquidationBatch walk marketId markPrice liquidator maxLiquidations) e = (.ok results,after)) :
    TakesRiskiest (atRisk walk market.maintenanceMarginBps)
      (batchAttempts e walk marketId markPrice liquidator maxLiquidations) := by
  have same : (atRisk walk market.maintenanceMarginBps).Perm (atRisk heap market.maintenanceMarginBps) :=
    walked.filter _
  have all : (batchAttempts e walk marketId markPrice liquidator maxLiquidations).length =
      (atRisk walk market.maintenanceMarginBps).length := by
    rw [processLiquidationBatch,exec_reads_bind,registered,exec_orThrow_some_bind] at done
    unfold batchAttempts
    rw [registered]
    dsimp only
    rw [attemptsEach_length done,listed_eq,List.length_take,List.length_map]
    exact Nat.min_eq_right (same.length_eq ▸ few)
  obtain ⟨traders,_⟩ := @batch_front e walk marketId markPrice maxLiquidations liquidator market registered
  rw [all,List.take_length] at traders
  constructor
  · rw [traders]
    exact ((same.map _).nodup_iff).mpr single
  · intro left inside out
    apply absurd _ out
    rw [traders]
    exact List.mem_map_of_mem inside

end Batch

section Examples

def idle (marketId : Nat) (market : Market) : Engine := .new (Bench.fresh.setMarket marketId market)

theorem idle_registered (marketId : Nat) (market : Market) :
    (idle marketId market).state.getMarket marketId = some market := by
  unfold idle Engine.new StateManager.setMarket StateManager.getMarket
  dsimp only
  split
  · exact StateManager.get_set_self _ _ _
  · rw [StateManager.get_set_ne _ _ (by simp)]
    exact StateManager.get_set_self _ _ _

theorem idle_ran (trader : Address) (marketId : Nat) (market : Market) (liquidator : Address) :
    Attempt.ran ⟨idle marketId market,trader,marketId,1,liquidator⟩ = (.ok none,idle marketId market) := by
  have nowhere : (idle marketId market).state.getPosition trader marketId = none :=
    (StateManager.Agree.refl StateKey.ofPositions Bench.fresh).setMarket rfl rfl (.position trader marketId) rfl
  rw [Attempt.ran]
  dsimp only
  unfold liquidateWithIncentive
  rw [if_neg Nat.one_ne_zero,exec_reads_bind,idle_registered,exec_orThrow_some_bind,exec_bind,exec_tries,
    shouldLiquidate,nowhere]
  rfl

theorem idle_each (marketId : Nat) (market : Market) (liquidator : Address) (listed : List (Address × Nat))
    (own : ∀ target ∈ listed, target.2 = marketId) :
    (attemptsEach 1 liquidator (idle marketId market) listed).length = listed.length ∧
      exec (liquidateEach 1 liquidator listed) (idle marketId market) = (.ok [],idle marketId market) := by
  induction listed with
  | nil => exact ⟨rfl,rfl⟩
  | cons target listed ih =>
    obtain ⟨trader,other⟩ := target
    have here : other = marketId := own _ List.mem_cons_self
    subst here
    have ran := idle_ran trader other market liquidator
    obtain ⟨long,done⟩ := ih fun target inside => own target (List.mem_cons_of_mem _ inside)
    refine ⟨?_,?_⟩
    · rw [attemptsEach,ran,List.length_cons,List.length_cons,long]
    · rw [liquidateEach,exec_ok_bind ran,exec_bind_pure,done]
      rfl

theorem idle_batch (marketId maxLiquidations : Nat) (market : Market) (liquidator : Address)
    (own : ∀ risk ∈ walk, risk.marketId = marketId) :
    (batchAttempts (idle marketId market) walk marketId 1 liquidator maxLiquidations).length =
        min maxLiquidations (atRisk walk market.maintenanceMarginBps).length ∧
      exec (processLiquidationBatch walk marketId 1 liquidator maxLiquidations) (idle marketId market) =
        (.ok [],idle marketId market) := by
  have owned : ∀ target ∈ (getAtRiskPositions walk market.maintenanceMarginBps).take maxLiquidations,
      target.2 = marketId := by
    intro target inside
    obtain ⟨risk,listed,rfl⟩ := List.mem_map.mp (List.mem_of_mem_take inside)
    exact own risk (List.mem_filter.mp listed).1
  obtain ⟨long,done⟩ := idle_each marketId market liquidator _ owned
  constructor
  · unfold batchAttempts
    rw [idle_registered]
    dsimp only
    rw [long,listed_eq,List.length_take,List.length_map]
  · rw [processLiquidationBatch,exec_reads_bind,idle_registered,exec_orThrow_some_bind]
    exact done

theorem unpriced_batch (liquidator : Address) (registered : e.state.getMarket marketId = some market) (few : 1 ≤ maxLiquidations)
    (first : atRisk walk market.maintenanceMarginBps = risk :: rest) :
    (batchAttempts e walk marketId 0 liquidator maxLiquidations).length = 1 := by
  obtain ⟨limit,rfl⟩ : ∃ limit, maxLiquidations = limit + 1 := ⟨maxLiquidations - 1,by omega⟩
  unfold batchAttempts
  rw [registered]
  dsimp only
  rw [listed_eq,first,List.map_cons,List.take_succ_cons,attemptsEach]
  rfl

end Examples

-- The heap may be walked in any order and anybody may call, whatever the batch comes to.
def TakesAlways (heap : List PositionRisk) (marketId maxLiquidations : Nat) (market : Market) : Prop :=
  ∀ (e : Engine) (walk : List PositionRisk) (markPrice : Nat) (liquidator : Address),
    e.state.getMarket marketId = some market → walk.Perm heap →
      TakesRiskiest (atRisk walk market.maintenanceMarginBps)
        (batchAttempts e walk marketId markPrice liquidator maxLiquidations)

def TakesWhenDone (heap : List PositionRisk) (marketId maxLiquidations : Nat) (market : Market) : Prop :=
  ∀ (e : Engine) (walk : List PositionRisk) (markPrice : Nat) (liquidator : Address),
    e.state.getMarket marketId = some market → walk.Perm heap →
      (∃ results, (exec (processLiquidationBatch walk marketId markPrice liquidator maxLiquidations) e).1 = .ok results) →
      TakesRiskiest (atRisk walk market.maintenanceMarginBps)
        (batchAttempts e walk marketId markPrice liquidator maxLiquidations)

section Exactly

theorem TakesAlways.whenDone (takes : TakesAlways heap marketId maxLiquidations market) :
    TakesWhenDone heap marketId maxLiquidations market := by
  intro e walk markPrice liquidator registered walked _
  exact takes e walk markPrice liquidator registered walked

theorem takesRiskiest_zero (registered : e.state.getMarket marketId = some market) :
    TakesRiskiest risky (batchAttempts e walk marketId markPrice liquidator 0) := by
  have none : batchAttempts e walk marketId markPrice liquidator 0 = [] := by
    unfold batchAttempts
    rw [registered]
    rfl
  rw [none]
  refine ⟨List.nodup_nil,?_⟩
  intro _ _ _ taken inside
  cases inside

theorem takes_listed (takes : TakesWhenDone heap marketId maxLiquidations market)
    (own : ∀ risk ∈ heap, risk.marketId = marketId) (arranged : risky.Perm (atRisk heap market.maintenanceMarginBps)) :
    ((risky.take maxLiquidations).map PositionRisk.trader).Nodup ∧
      ∀ left ∈ risky, left.trader ∉ (risky.take maxLiquidations).map PositionRisk.trader →
        ∀ taken ∈ risky.take maxLiquidations, taken.marginRatio ≤ left.marginRatio := by
  obtain ⟨walk,walked,same⟩ := exists_walk arranged
  obtain ⟨long,done⟩ := idle_batch marketId maxLiquidations market Bench.carol
    fun risk inside => own risk (walked.mem_iff.mp inside)
  obtain ⟨once,riskiest⟩ := takes (idle marketId market) walk 1 Bench.carol (idle_registered marketId market) walked
    ⟨_,congrArg Prod.fst done⟩
  obtain ⟨traders,_⟩ := @batch_front (idle marketId market) walk marketId 1 maxLiquidations Bench.carol market
    (idle_registered marketId market)
  have front : (atRisk walk market.maintenanceMarginBps).take
      (batchAttempts (idle marketId market) walk marketId 1 Bench.carol maxLiquidations).length =
        risky.take maxLiquidations := by
    rw [long,same,← List.take_eq_take_min]
  rw [traders,front] at once
  rw [traders,front,same] at riskiest
  exact ⟨once,riskiest⟩

theorem single_of_takes (takes : TakesWhenDone heap marketId maxLiquidations market)
    (own : ∀ risk ∈ heap, risk.marketId = marketId) (more : 2 ≤ maxLiquidations) :
    Single (atRisk heap market.maintenanceMarginBps) := by
  by_contra twice
  obtain ⟨one,other,rest,arranged,same⟩ := perm_twice twice
  obtain ⟨once,_⟩ := takes_listed takes own arranged.symm
  obtain ⟨limit,rfl⟩ : ∃ limit, maxLiquidations = limit + 2 := ⟨maxLiquidations - 2,by omega⟩
  rw [List.take_succ_cons,List.take_succ_cons,List.map_cons,List.map_cons,same] at once
  exact (List.nodup_cons.mp once).1 List.mem_cons_self

theorem level_of_le (below : ∀ one ∈ risky, ∀ other ∈ risky, one.trader ≠ other.trader →
    one.marginRatio ≤ other.marginRatio) : Level risky := by
  intro one first other second apart
  exact Nat.le_antisymm (below one first other second apart) (below other second one first (Ne.symm apart))

-- The least risky of two traders goes first and the riskier last.
theorem level_of_takes (takes : TakesWhenDone heap marketId maxLiquidations market)
    (own : ∀ risk ∈ heap, risk.marketId = marketId) (some : 1 ≤ maxLiquidations)
    (short : maxLiquidations < (atRisk heap market.maintenanceMarginBps).length) :
    Level (atRisk heap market.maintenanceMarginBps) := by
  refine level_of_le ?_
  intro one first other last apart
  obtain ⟨rest,arranged⟩ := perm_two first last apart
  have long := arranged.length_eq
  rw [List.length_cons,List.length_append,List.length_singleton] at long
  obtain ⟨limit,rfl⟩ : ∃ limit, maxLiquidations = limit + 1 := ⟨maxLiquidations - 1,by omega⟩
  obtain ⟨_,riskiest⟩ := takes_listed takes own arranged.symm
  have within : (one :: (rest ++ [other])).take (limit + 1) = one :: rest.take limit := by
    rw [List.take_succ_cons,List.take_append_of_le_length (by omega)]
  rw [within] at riskiest
  refine riskiest other (by simp) ?_ one List.mem_cons_self
  intro inside
  rcases List.mem_cons.mp inside with again | again
  · exact apart again.symm
  · have more : 2 ≤ limit + 1 := by
      cases limit with
      | zero => cases again
      | succ limit => omega
    have once := ((arranged.map PositionRisk.trader).nodup_iff).mp (single_of_takes takes own more)
    rw [List.map_cons,List.map_append,List.nodup_cons,List.nodup_append] at once
    refine once.2.2.2 other.trader ?_ other.trader (by simp) rfl
    exact ((List.take_sublist _ _).map _).subset again

theorem level_of_takesAlways (takes : TakesAlways heap marketId maxLiquidations market) (some : 1 ≤ maxLiquidations) :
    Level (atRisk heap market.maintenanceMarginBps) := by
  refine level_of_le ?_
  intro one first other last apart
  obtain ⟨rest,arranged⟩ := perm_two first last apart
  obtain ⟨walk,walked,same⟩ := exists_walk arranged.symm
  obtain ⟨_,riskiest⟩ := takes (idle marketId market) walk 0 Bench.carol (idle_registered marketId market) walked
  obtain ⟨traders,_⟩ := @batch_front (idle marketId market) walk marketId 0 maxLiquidations Bench.carol market
    (idle_registered marketId market)
  have single := unpriced_batch Bench.carol (idle_registered marketId market) some same
  rw [single,same] at traders
  rw [traders,single,same] at riskiest
  refine riskiest other (by simp) ?_ one (by simp)
  intro again
  exact apart (List.mem_singleton.mp again).symm

theorem takesAlways_iff (own : ∀ risk ∈ heap, risk.marketId = marketId) :
    TakesAlways heap marketId maxLiquidations market ↔ maxLiquidations = 0 ∨
      Level (atRisk heap market.maintenanceMarginBps) ∧
        (2 ≤ maxLiquidations → Single (atRisk heap market.maintenanceMarginBps)) := by
  constructor
  · intro takes
    rcases Nat.eq_zero_or_pos maxLiquidations with none | some
    · exact .inl none
    · exact .inr ⟨level_of_takesAlways takes some,single_of_takes takes.whenDone own⟩
  · intro enough e walk markPrice liquidator registered walked
    rcases enough with rfl | ⟨level,single⟩
    · exact takesRiskiest_zero registered
    · exact takesRiskiest_of_level registered walked level single

theorem takesWhenDone_iff (own : ∀ risk ∈ heap, risk.marketId = marketId) :
    TakesWhenDone heap marketId maxLiquidations market ↔ maxLiquidations = 0 ∨
      (Level (atRisk heap market.maintenanceMarginBps) ∨
          (atRisk heap market.maintenanceMarginBps).length ≤ maxLiquidations) ∧
        (2 ≤ maxLiquidations → Single (atRisk heap market.maintenanceMarginBps)) := by
  constructor
  · intro takes
    rcases Nat.eq_zero_or_pos maxLiquidations with none | some
    · exact .inl none
    · refine .inr ⟨?_,single_of_takes takes own⟩
      rcases Nat.lt_or_ge maxLiquidations (atRisk heap market.maintenanceMarginBps).length with short | enough
      · exact .inl (level_of_takes takes own some short)
      · exact .inr enough
  · intro enough e walk markPrice liquidator registered walked done
    rcases enough with rfl | ⟨level | few,single⟩
    · exact takesRiskiest_zero registered
    · exact takesRiskiest_of_level registered walked level single
    · obtain ⟨results,done⟩ := done
      refine takesRiskiest_of_few registered walked few ?_ (Prod.ext done rfl)
      by_cases more : 2 ≤ maxLiquidations
      · exact single more
      · apply nodup_of_short
        rw [List.length_map]
        omega

end Exactly

-- What the index holds for a market, with any history of the calls that fill it. The attempts are those of
-- the run: it leaves the engine as the last of them does.
theorem batch_takes_riskiest (calls : List RiskCall) (marketId maxLiquidations : Nat) (market : Market) :
    let heap := RiskCall.heap calls marketId
    let risky := atRisk heap market.maintenanceMarginBps
    (TakesAlways heap marketId maxLiquidations market ↔
      maxLiquidations = 0 ∨ Level risky ∧ (2 ≤ maxLiquidations → Single risky)) ∧
    (TakesWhenDone heap marketId maxLiquidations market ↔ maxLiquidations = 0 ∨
      (Level risky ∨ risky.length ≤ maxLiquidations) ∧ (2 ≤ maxLiquidations → Single risky)) ∧
    ∀ e walk markPrice liquidator, (exec (processLiquidationBatch walk marketId markPrice liquidator maxLiquidations) e).2 =
      (batchAttempts e walk marketId markPrice liquidator maxLiquidations).getLast?.elim e fun a => a.ran.2 :=
  ⟨takesAlways_iff (RiskCall.heap_market calls marketId),takesWhenDone_iff (RiskCall.heap_market calls marketId),
    fun e walk markPrice liquidator => batch_final e walk marketId markPrice liquidator maxLiquidations⟩

def dave : Address := .ofNat 4

def threatened : Engine := Engine.new (((Bench.state.setPosition Bench.alice 0 ⟨10000,100,true,100000,0⟩).setPosition
  Bench.bob 0 ⟨10000,100,true,110000,0⟩).setPosition dave 0 ⟨10000,100,true,105000,0⟩)

def updating : RiskCall := .updateRiskIndex threatened.state Bench.alice 0 92

def doubled : List PositionRisk := RiskCall.heap [updating,updating] 0

def three : List PositionRisk := RiskCall.heap
  [updating,.updateRiskIndex threatened.state Bench.bob 0 92,.updateRiskIndex threatened.state dave 0 92] 0

-- Of two updates each leaves an entry, so that Alice is attempted twice. Three entries of which the first is
-- the riskiest stay where they were pushed in the array of a binary heap, so that a walk along it comes
-- upon Bob before Dave, who is riskier.
theorem batch_takes_otherwise :
    (batchAttempts threatened doubled 0 92 Bench.carol 2).map Attempt.trader = [Bench.alice,Bench.alice] ∧
    three.reverse = [⟨Bench.alice,0,217⟩,⟨Bench.bob,0,326⟩,⟨dave,0,271⟩] ∧
    (batchAttempts threatened three.reverse 0 92 Bench.carol 2).map Attempt.trader = [Bench.alice,Bench.bob] ∧
    ¬∀ calls marketId maxLiquidations market, TakesWhenDone (RiskCall.heap calls marketId) marketId maxLiquidations market := by
  have first : (batchAttempts threatened doubled 0 92 Bench.carol 2).map Attempt.trader = [Bench.alice,Bench.alice] := by
    decide +kernel
  refine ⟨first,by decide +kernel,by decide +kernel,?_⟩
  intro takes
  have registered : threatened.state.getMarket 0 = some Bench.market := by decide +kernel
  have done : (exec (processLiquidationBatch doubled 0 92 Bench.carol 2) threatened).1.toBool =
      true := by decide +kernel
  have succeeds : ∃ results, (exec (processLiquidationBatch doubled 0 92 Bench.carol 2)
      threatened).1 = .ok results := by
    cases ran : (exec (processLiquidationBatch doubled 0 92 Bench.carol 2) threatened).1 with
    | error error =>
      rw [ran] at done
      cases done
    | ok results => exact ⟨results,rfl⟩
  have once : ((batchAttempts threatened doubled 0 92 Bench.carol 2).map Attempt.trader).Nodup :=
    (takes [updating,updating] 0 2 Bench.market threatened _ 92 Bench.carol registered (.refl _) succeeds).once
  rw [first] at once
  exact absurd once (by decide)

end BatchOrder
end Pranklin
