import Mathlib.Data.List.Sort
import Pranklin.Allotment
import Pranklin.Enumeration
import Pranklin.Interrupted

namespace Pranklin
open Words Effect

-- `as i128` of an unsigned word, and the checked product of such.
def castSigned (n : Nat) : Int := if n < 2 ^ 127 then n else (n : Int) - 2 ^ 128

def checkedMulSigned (a b : Int) : Option Int := if -2 ^ 127 ≤ a * b ∧ a * b < 2 ^ 127 then some (a * b) else none

-- The fields that are read; the others of the source are kept beside them.
structure AdlCandidate where
  trader : Address
  positionSize : Nat
  profitScore : Int
deriving DecidableEq

namespace LiquidationEngine

-- The flag of the default engine, which nothing sets.
def adlEnabled : Bool := true

def adlLeverage (position : Position) (markPrice : Nat) : Except EngineError Nat := do
  let positionValue ← calculatePositionValue position markPrice
  let equity ← calculatePositionEquity position markPrice
  if 0 < equity then
    let scaled ← orOverflow (checkedMul 128 positionValue basisPoints)
    return scaled / equity
  else return 2 ^ 128 - 1

def adlCandidate (trader : Address) (position : Position) (markPrice : Nat) : Except EngineError (Option AdlCandidate) := do
  let (pnl,isProfit) ← PositionManager.calculatePnl position markPrice
  if isProfit then
    let leverage ← adlLeverage position markPrice
    match checkedMulSigned (castSigned pnl) (castSigned leverage) with
    | some profitScore => return some ⟨trader,position.size,profitScore⟩
    | none => throw .overflow
  else return none

def adlCandidates (markPrice : Nat) : List (Address × Position) → Except EngineError (List AdlCandidate)
  | [] => .ok []
  | (trader,position) :: rest => do
    if position.size = 0 then adlCandidates markPrice rest
    else
      let found ← adlCandidate trader position markPrice
      let others ← adlCandidates markPrice rest
      return found.toList ++ others

def findAdlCandidates (state : StateManager) (marketId markPrice : Nat) : Except EngineError (List AdlCandidate) :=
  adlCandidates markPrice (state.getAllPositionsInMarket marketId)

def executeAdl (trader : Address) (marketId size : Nat) : EngineM Unit := do
  let found ← reads fun e => e.state.getPosition trader marketId
  let position ← orThrow found .positionNotFound
  if position.size ≤ size then
    writes fun e => {e with state:=e.state.deletePosition trader marketId}
  else if position.size = 0 then
    throw (.other "Cannot partially ADL zero-sized position")
  else
    let scaled ← orThrow (checkedMul 128 position.margin size) .overflow
    writes fun e => {e with state:=e.state.setPosition trader marketId {position with
      size:=position.size - size,
      margin:=position.margin - scaled / position.size}}

def deleverageSize (candidate : AdlCandidate) (requiredAmount collectedAmount positionValue : Nat) :
    Except EngineError Nat := do
  if requiredAmount < addWrap 128 collectedAmount positionValue then
    let scaled ← orOverflow (checkedMul 128 (requiredAmount - collectedAmount) candidate.positionSize)
    return wrap 64 (scaled / positionValue)
  else return candidate.positionSize

def deleverageEach (marketId requiredAmount markPrice : Nat) : List AdlCandidate → Nat → EngineM (List (Address × Nat))
  | [],_ => pure []
  | candidate :: rest,collectedAmount => do
    if requiredAmount ≤ collectedAmount then pure []
    else
      let positionValue ← orThrow (checkedMul 128 candidate.positionSize markPrice) .overflow
      let size ← tries fun _ => deleverageSize candidate requiredAmount collectedAmount positionValue
      executeAdl candidate.trader marketId size
      let collected ← orThrow (checkedMul 128 size markPrice) .overflow
      let others ← deleverageEach marketId requiredAmount markPrice rest (addWrap 128 collectedAmount collected)
      return (candidate.trader,size) :: others

-- A stable sort by the score, the highest first.
def autoDeleverage (marketId requiredAmount markPrice : Nat) : EngineM (List (Address × Nat)) := do
  if !adlEnabled then return []
  else
    let candidates ← tries fun e => findAdlCandidates e.state marketId markPrice
    deleverageEach marketId requiredAmount markPrice
      (candidates.insertionSort fun a b => b.profitScore ≤ a.profitScore) 0

end LiquidationEngine

namespace Deleverage
open LiquidationEngine Interrupted Allotment
variable {e after : Engine} {trader : Address} {marketId markPrice requiredAmount collectedAmount size : Nat}
  {position : Position} {candidate : AdlCandidate} {candidates : List AdlCandidate} {list : List (Address × Nat)}

def inProfit (position : Position) (markPrice : Nat) : Bool :=
  if position.isLong then decide (position.size * position.entryPrice ≤ position.size * markPrice)
  else decide (position.size * markPrice ≤ position.size * position.entryPrice)

def profit (position : Position) (markPrice : Nat) : Nat :=
  if position.isLong then position.size * markPrice - position.size * position.entryPrice
  else position.size * position.entryPrice - position.size * markPrice

def leverage (position : Position) (markPrice : Nat) : Nat :=
  if 0 < equity position markPrice then position.size * markPrice * basisPoints / equity position markPrice
  else 2 ^ 128 - 1

def profitScore (position : Position) (markPrice : Nat) : Nat := profit position markPrice * leverage position markPrice

section Candidates

theorem signed_difference {a b : Nat} {ε : Type} (ran : (if b ≤ a then .ok (a - b,true) else .ok (b - a,false) : Except ε (Nat × Bool)) =
    .ok (pnl,isProfit)) : isProfit = decide (b ≤ a) ∧ (isProfit = true → pnl = a - b) := by
  split at ran
  · rename_i gains
    cases ran
    exact ⟨(decide_eq_true gains).symm,fun _ => rfl⟩
  · rename_i loses
    cases ran
    exact ⟨(decide_eq_false loses).symm,fun gains => Bool.noConfusion gains⟩

theorem calculatePnl_ok (held : 0 < position.size) (ran : PositionManager.calculatePnl position markPrice = .ok (pnl,isProfit)) :
    isProfit = inProfit position markPrice ∧ (isProfit = true → pnl = profit position markPrice) := by
  unfold PositionManager.calculatePnl at ran
  rw [if_neg (Nat.ne_of_gt held)] at ran
  obtain ⟨_,ran⟩ := checkedMul_bind_ok ran
  obtain ⟨_,ran⟩ := checkedMul_bind_ok ran
  unfold inProfit profit
  split at ran
  · rename_i long
    rw [if_pos long,if_pos long]
    exact signed_difference ran
  · rename_i short
    rw [if_neg short,if_neg short]
    exact signed_difference ran

theorem adlLeverage_ok (ran : adlLeverage position markPrice = .ok found) : found = leverage position markPrice := by
  unfold adlLeverage at ran
  obtain ⟨_,valued,ran⟩ := bind_eq_ok ran
  cases value_of_ok valued
  obtain ⟨_,reckoned,ran⟩ := bind_eq_ok ran
  cases equity_of_ok reckoned
  unfold leverage
  split at ran
  · rename_i some
    rw [if_pos some]
    obtain ⟨_,ran⟩ := checkedMul_bind_ok ran
    cases ran
    rfl
  · rename_i none
    cases ran
    rw [if_neg none]

-- Within 127 bits the signed product is the product: neither factor is cut off unless the other is zero.
theorem castSigned_mul (fits : a * b < 2 ^ 127) : castSigned a * castSigned b = (a * b : Nat) := by
  rcases Nat.eq_zero_or_pos a with rfl | first
  · rw [Nat.zero_mul,castSigned,if_pos (Nat.two_pow_pos 127)]
    exact Int.zero_mul _
  · rcases Nat.eq_zero_or_pos b with rfl | second
    · rw [Nat.mul_zero,castSigned.eq_1 0,if_pos (Nat.two_pow_pos 127)]
      exact Int.mul_zero _
    · have left := Nat.lt_of_le_of_lt (Nat.le_mul_of_pos_right a second) fits
      have right := Nat.lt_of_le_of_lt (Nat.le_mul_of_pos_left b first) fits
      rw [castSigned,castSigned,if_pos left,if_pos right]
      exact (Int.natCast_mul a b).symm

def candidateOf (markPrice : Nat) (entry : Address × Position) : AdlCandidate :=
  ⟨entry.1,entry.2.size,castSigned (profit entry.2 markPrice) * castSigned (leverage entry.2 markPrice)⟩

theorem candidateOf_score (entry : Address × Position) (fits : profitScore entry.2 markPrice < 2 ^ 127) :
    (candidateOf markPrice entry).profitScore = (profitScore entry.2 markPrice : Int) := castSigned_mul fits

theorem adlCandidate_ok {found : Option AdlCandidate} (held : 0 < position.size)
    (ran : adlCandidate trader position markPrice = .ok found) :
    (∃ pnl, PositionManager.calculatePnl position markPrice = .ok (pnl,inProfit position markPrice)) ∧
      found = if inProfit position markPrice then some (candidateOf markPrice (trader,position)) else none := by
  obtain ⟨⟨pnl,isProfit⟩,reckoned,ran⟩ := bind_eq_ok ran
  obtain ⟨rfl,gained⟩ := calculatePnl_ok held reckoned
  refine ⟨⟨pnl,reckoned⟩,?_⟩
  dsimp only at ran
  split at ran
  · rename_i gains
    rw [if_pos gains]
    obtain ⟨_,levered,ran⟩ := bind_eq_ok ran
    cases adlLeverage_ok levered
    rw [gained gains] at ran
    unfold checkedMulSigned at ran
    split at ran
    · rename_i score product
      split at product
      · cases product
        cases ran
        rfl
      · cases product
    · cases ran
  · rename_i loses
    cases ran
    rw [if_neg loses]

theorem adlCandidates_ok {positions : List (Address × Position)} (held : ∀ entry ∈ positions, 0 < entry.2.size)
    (ran : adlCandidates markPrice positions = .ok candidates) :
    candidates = (positions.filter fun entry => inProfit entry.2 markPrice).map (candidateOf markPrice) ∧
      ∀ entry ∈ positions, ∃ pnl, PositionManager.calculatePnl entry.2 markPrice = .ok (pnl,inProfit entry.2 markPrice) := by
  induction positions generalizing candidates with
  | nil =>
    cases ran
    exact ⟨rfl,fun _ nothing => nomatch nothing⟩
  | cons entry rest ih =>
    obtain ⟨trader,position⟩ := entry
    have open_ : 0 < position.size := held _ List.mem_cons_self
    rw [adlCandidates,if_neg (Nat.ne_of_gt open_)] at ran
    obtain ⟨found,first,ran⟩ := bind_eq_ok ran
    obtain ⟨others,later,ran⟩ := bind_eq_ok ran
    cases ran
    obtain ⟨reckoned,rfl⟩ := adlCandidate_ok open_ first
    obtain ⟨rfl,all⟩ := ih (fun entry inside => held entry (List.mem_cons_of_mem _ inside)) later
    constructor
    · rw [List.filter_cons]
      dsimp only
      split <;> rfl
    · intro entry inside
      rcases List.mem_cons.mp inside with rfl | inside
      · exact reckoned
      · exact all entry inside

end Candidates

section Loop

theorem executeAdl_ok {done : Unit} (ran : exec (executeAdl trader marketId size) e = (.ok done,after)) :
    ∃ position, e.state.getPosition trader marketId = some position ∧
      after = {e with state:=seizedState e.state trader marketId position size} := by
  rw [executeAdl,exec_reads_bind] at ran
  obtain ⟨position,found,ran⟩ := exec_orThrow_ok ran
  refine ⟨position,found,?_⟩
  unfold seizedState
  split at ran
  · rename_i whole
    cases ran
    rw [if_pos whole]
  · rename_i part
    rw [if_neg part]
    split at ran
    · cases ran
    · obtain ⟨_,scaled,ran⟩ := exec_orThrow_ok ran
      obtain ⟨_,rfl⟩ := checkedMul_eq_some.mp scaled
      cases ran
      rfl

theorem deleverageSize_ok (some : 0 < candidate.positionSize) (word : candidate.positionSize < 2 ^ 64)
    (open_ : collectedAmount < requiredAmount)
    (room : collectedAmount + candidate.positionSize * markPrice < 2 ^ 128)
    (ran : deleverageSize candidate requiredAmount collectedAmount (candidate.positionSize * markPrice) = .ok size) :
    size = if requiredAmount - collectedAmount < candidate.positionSize * markPrice then
      (requiredAmount - collectedAmount) / markPrice else candidate.positionSize := by
  unfold deleverageSize at ran
  rw [addWrap_of_lt room] at ran
  split at ran
  · rename_i short
    have poor : requiredAmount - collectedAmount < candidate.positionSize * markPrice := by omega
    rw [if_pos poor]
    obtain ⟨_,ran⟩ := checkedMul_bind_ok ran
    cases ran
    have units : (requiredAmount - collectedAmount) * candidate.positionSize / (candidate.positionSize * markPrice) =
        (requiredAmount - collectedAmount) / markPrice := by
      rw [Nat.mul_comm (requiredAmount - collectedAmount),Nat.mul_div_mul_left _ _ some]
    have fewer : (requiredAmount - collectedAmount) / markPrice < candidate.positionSize :=
      Nat.div_lt_of_lt_mul (Nat.mul_comm _ _ ▸ poor)
    rw [units,wrap_of_lt (fewer.trans word)]
  · rename_i enough
    have rich : ¬requiredAmount - collectedAmount < candidate.positionSize * markPrice := by omega
    rw [if_neg rich]
    cases ran
    rfl

-- The state in which the loop stands: every candidate still to come is held as it was listed.
structure Facing (s : StateManager) (marketId markPrice collectedAmount : Nat) (candidates : List AdlCandidate) : Prop where
  flat : ∀ holder, s.committed (.position holder marketId) = none
  held : ∀ candidate ∈ candidates, ∃ position, s.getPosition candidate.trader marketId = some position ∧
    position.size = candidate.positionSize
  some : ∀ candidate ∈ candidates, 0 < candidate.positionSize
  words : ∀ candidate ∈ candidates, candidate.positionSize < 2 ^ 64
  once : (candidates.map AdlCandidate.trader).Nodup
  room : collectedAmount + (candidates.map fun candidate => candidate.positionSize * markPrice).sum < 2 ^ 128

structure Reduced (s : StateManager) (marketId : Nat) (list : List (Address × Nat)) (after : StateManager) : Prop where
  taken : ∀ entry ∈ list, ∃ position, s.getPosition entry.1 marketId = some position ∧
    after.getPosition entry.1 marketId = if position.size ≤ entry.2 then none else some (leftover position entry.2)
  others : ∀ holder read, ¬(read = marketId ∧ holder ∈ list.map Prod.fst) →
    after.getPosition holder read = s.getPosition holder read

theorem seizedState_committed (s : StateManager) (key : StateKey) :
    (seizedState s trader marketId position size).committed key = s.committed key := by
  unfold seizedState
  split
  · exact StateManager.committed_deletePosition ..
  · exact StateManager.committed_setPosition ..

theorem Facing.tail {s : StateManager} (position : Position) (facing : Facing s marketId markPrice collectedAmount (candidate :: candidates))
    (within : size ≤ candidate.positionSize) :
    Facing (seizedState s candidate.trader marketId position size) marketId markPrice (collectedAmount + size * markPrice)
      candidates := by
  obtain ⟨flat,held,some,words,once,room⟩ := facing
  rw [List.map_cons,List.nodup_cons] at once
  refine ⟨fun holder => ?_,fun other later => ?_,fun other later => some other (List.mem_cons_of_mem _ later),
    fun other later => words other (List.mem_cons_of_mem _ later),once.2,?_⟩
  · rw [seizedState_committed]
    exact flat holder
  · have apart : other.trader ≠ candidate.trader := fun same => once.1 (same ▸ List.mem_map_of_mem later)
    rw [getPosition_seizedState,if_neg fun same => apart same.1]
    exact held other (List.mem_cons_of_mem _ later)
  · rw [List.map_cons,List.sum_cons] at room
    have less := Nat.mul_le_mul_right markPrice within
    omega

theorem Reduced.refl (s : StateManager) : Reduced s marketId [] s :=
  ⟨fun _ nothing => (nomatch nothing),fun _ _ _ => rfl⟩

theorem Reduced.cons {s : StateManager} (found : s.getPosition trader marketId = some position)
    (flat : s.committed (.position trader marketId) = none)
    (rest : Reduced (seizedState s trader marketId position size) marketId list after.state)
    (apart : trader ∉ list.map Prod.fst) : Reduced s marketId ((trader,size) :: list) after.state := by
  have elsewhere : ∀ holder read, ¬(holder = trader ∧ read = marketId) →
      (seizedState s trader marketId position size).getPosition holder read = s.getPosition holder read := by
    intro holder read other
    rw [getPosition_seizedState,if_neg other]
  constructor
  · intro entry inside
    rcases List.mem_cons.mp inside with rfl | later
    · refine ⟨position,found,?_⟩
      dsimp only
      rw [rest.others trader marketId fun again => apart again.2,getPosition_seizedState,if_pos ⟨rfl,rfl⟩,flat]
    · obtain ⟨other,present,stored⟩ := rest.taken entry later
      refine ⟨other,?_,stored⟩
      rw [← present,elsewhere]
      intro same
      exact apart (same.1 ▸ List.mem_map_of_mem later)
  · intro holder read outside
    rw [rest.others holder read,elsewhere]
    · intro own
      exact outside ⟨own.2,own.1 ▸ List.mem_cons_self⟩
    · intro again
      exact outside ⟨again.1,List.mem_cons_of_mem _ again.2⟩

-- The loop pays out the allotment of what is required, over the candidates as they come.
theorem deleverageEach_ok (facing : Facing e.state marketId markPrice collectedAmount candidates)
    (ran : exec (deleverageEach marketId requiredAmount markPrice candidates collectedAmount) e = (.ok list,after)) :
    list = (allot AdlCandidate.positionSize markPrice (requiredAmount - collectedAmount) candidates).map
        (fun entry => (entry.1.trader,entry.2)) ∧
      Reduced e.state marketId list after.state := by
  induction candidates generalizing e collectedAmount list with
  | nil =>
    cases ran
    exact ⟨rfl,.refl _⟩
  | cons candidate rest ih =>
    rw [deleverageEach] at ran
    split at ran
    · rename_i enough
      cases ran
      rw [Nat.sub_eq_zero_of_le enough,allot_zero]
      exact ⟨rfl,.refl _⟩
    rename_i open_
    obtain ⟨_,valued,ran⟩ := exec_orThrow_ok ran
    obtain ⟨_,rfl⟩ := checkedMul_eq_some.mp valued
    obtain ⟨size,sized,ran⟩ := exec_tries_ok ran
    obtain ⟨_,middle,executed,ran⟩ := exec_bind_ok ran
    obtain ⟨position,found,rfl⟩ := executeAdl_ok executed
    obtain ⟨_,collected,ran⟩ := exec_orThrow_ok ran
    obtain ⟨_,rfl⟩ := checkedMul_eq_some.mp collected
    obtain ⟨others,last,later,ran⟩ := exec_bind_ok ran
    cases ran
    have room := facing.room
    rw [List.map_cons,List.sum_cons] at room
    have here := List.mem_cons_self (a:=candidate) (l:=rest)
    have amount := deleverageSize_ok (facing.some candidate here) (facing.words candidate here) (Nat.lt_of_not_le open_)
      (by omega) sized
    have within : size ≤ candidate.positionSize := by
      rw [amount]
      exact taken_le AdlCandidate.positionSize markPrice _ candidate
    have step := facing.tail position within
    have sum := Nat.lt_of_le_of_lt (Nat.le_add_right _ _) step.room
    rw [addWrap_of_lt sum] at later
    obtain ⟨rfl,reduced⟩ := ih step later
    constructor
    · rw [allot,if_neg (by omega : ¬requiredAmount - collectedAmount = 0),← amount,List.map_cons,Nat.sub_sub]
    · apply reduced.cons found (facing.flat candidate.trader)
      intro again
      have once := facing.once
      rw [List.map_cons,List.nodup_cons] at once
      apply once.1
      rw [List.map_map] at again
      obtain ⟨entry,inside,same⟩ := List.mem_map.mp again
      rw [← show entry.1.trader = candidate.trader from same]
      exact List.mem_map_of_mem ((allot_begins _ _ _ rest).subset (List.mem_map_of_mem inside))

end Loop

def Profitable (s : StateManager) (marketId markPrice : Nat) (trader : Address) (position : Position) : Prop :=
  s.getPosition trader marketId = some position ∧ 0 < position.size ∧
    ∃ pnl, PositionManager.calculatePnl position markPrice = .ok (pnl,true)

structure Deleveraged (s : StateManager) (marketId requiredAmount markPrice : Nat) (list : List (Address × Nat))
    (after : StateManager) : Prop where
  once : (list.map Prod.fst).Nodup
  reduced : ∀ entry ∈ list, ∃ position, Profitable s marketId markPrice entry.1 position ∧ entry.2 ≤ position.size ∧
    after.getPosition entry.1 marketId = if entry.2 = position.size then none else some (leftover position entry.2)
  within : (list.map fun entry => entry.2 * markPrice).sum ≤ requiredAmount
  exhausted : requiredAmount < (list.map fun entry => entry.2 * markPrice).sum + max markPrice 1 ∨
    ∀ trader position, Profitable s marketId markPrice trader position →
      (trader,position.size) ∈ list ∧ after.getPosition trader marketId = none
  prioritised : ∀ entry ∈ list, 0 < entry.2 → ∀ own, s.getPosition entry.1 marketId = some own →
    ∀ trader position, Profitable s marketId markPrice trader position →
      profitScore own markPrice < profitScore position markPrice →
        (trader,position.size) ∈ list ∧ after.getPosition trader marketId = none
  others : ∀ holder read, ¬(read = marketId ∧ holder ∈ list.map Prod.fst) →
    after.getPosition holder read = s.getPosition holder read

section Market

def ranked (s : StateManager) (marketId markPrice : Nat) : List AdlCandidate :=
  (((s.getAllPositionsInMarket marketId).filter fun entry => inProfit entry.2 markPrice).map
    (candidateOf markPrice)).insertionSort fun a b => b.profitScore ≤ a.profitScore

theorem mem_ranked {s : StateManager} : candidate ∈ ranked s marketId markPrice ↔
    ∃ entry ∈ s.getAllPositionsInMarket marketId, inProfit entry.2 markPrice = true ∧
      candidateOf markPrice entry = candidate := by
  unfold ranked
  rw [List.mem_insertionSort,List.mem_map]
  simp only [List.mem_filter,and_assoc]

theorem ranked_once {s : StateManager} (listed : s.Enumerated marketId) (markPrice : Nat) :
    ((ranked s marketId markPrice).map AdlCandidate.trader).Nodup := by
  have perm := (List.perm_insertionSort (fun a b : AdlCandidate => b.profitScore ≤ a.profitScore)
    (((s.getAllPositionsInMarket marketId).filter fun entry => inProfit entry.2 markPrice).map (candidateOf markPrice))).map
      AdlCandidate.trader
  unfold ranked
  rw [perm.nodup_iff,List.map_map]
  apply List.Nodup.map_on
  · intro one first other second same
    obtain ⟨trader,position⟩ := one
    obtain ⟨holder,held⟩ := other
    have same : trader = holder := same
    subst same
    have read := ((listed.2 _ _).mp (List.mem_filter.mp first).1).1
    rw [((listed.2 _ _).mp (List.mem_filter.mp second).1).1] at read
    rw [Option.some.inj read]
  · exact listed.1.filter _

theorem ranked_sum (s : StateManager) (marketId markPrice : Nat) :
    ((ranked s marketId markPrice).map fun candidate => candidate.positionSize * markPrice).sum ≤
      ((s.getAllPositionsInMarket marketId).map fun entry => entry.2.size * markPrice).sum := by
  have perm := (List.perm_insertionSort (fun a b : AdlCandidate => b.profitScore ≤ a.profitScore)
    (((s.getAllPositionsInMarket marketId).filter fun entry => inProfit entry.2 markPrice).map (candidateOf markPrice))).map
      fun candidate => candidate.positionSize * markPrice
  unfold ranked
  rw [perm.sum_eq,List.map_map]
  exact List.Sublist.sum_le_sum ((List.filter_sublist).map _) fun _ _ => Nat.zero_le _

theorem ranked_front {s : StateManager} {other : AdlCandidate} (first : candidate ∈ ranked s marketId markPrice)
    (second : other ∈ ranked s marketId markPrice) (higher : candidate.profitScore < other.profitScore) :
    ∃ front back, ranked s marketId markPrice = front ++ candidate :: back ∧ other ∈ front := by
  obtain ⟨front,back,parts⟩ := List.append_of_mem first
  refine ⟨front,back,parts,?_⟩
  have total : Std.Total fun a b : AdlCandidate => b.profitScore ≤ a.profitScore := ⟨fun a b => by omega⟩
  have trans : IsTrans AdlCandidate fun a b => b.profitScore ≤ a.profitScore := ⟨fun a b c => by omega⟩
  have sorted : (ranked s marketId markPrice).Pairwise fun a b => b.profitScore ≤ a.profitScore :=
    List.pairwise_insertionSort _ _
  rw [parts] at second sorted
  rcases List.mem_append.mp second with inside | later
  · exact inside
  · rcases List.mem_cons.mp later with rfl | later
    · omega
    · have behind := (List.pairwise_cons.mp (List.pairwise_append.mp sorted).2.1).1 other later
      omega

theorem profitable_iff {s : StateManager} (listed : s.Enumerated marketId)
    (reckoned : ∀ entry ∈ s.getAllPositionsInMarket marketId,
      ∃ pnl, PositionManager.calculatePnl entry.2 markPrice = .ok (pnl,inProfit entry.2 markPrice)) :
    Profitable s marketId markPrice trader position ↔ candidateOf markPrice (trader,position) ∈ ranked s marketId markPrice ∧
      s.getPosition trader marketId = some position := by
  constructor
  · rintro ⟨found,held,pnl,gains⟩
    refine ⟨mem_ranked.mpr ⟨(trader,position),(listed.2 _ _).mpr ⟨found,held⟩,?_,rfl⟩,found⟩
    exact (calculatePnl_ok held gains).1.symm
  · rintro ⟨inside,found⟩
    obtain ⟨⟨holder,own⟩,member,gains,same⟩ := mem_ranked.mp inside
    have holders : holder = trader := congrArg AdlCandidate.trader same
    subst holders
    obtain ⟨present,held⟩ := (listed.2 _ _).mp member
    rw [found] at present
    cases present
    obtain ⟨pnl,computed⟩ := reckoned _ member
    rw [gains] at computed
    exact ⟨found,held,pnl,computed⟩

theorem ranked_held {s : StateManager} (listed : s.Enumerated marketId) (inside : candidate ∈ ranked s marketId markPrice) :
    ∃ position, s.getPosition candidate.trader marketId = some position ∧ 0 < position.size ∧
      candidateOf markPrice (candidate.trader,position) = candidate := by
  obtain ⟨⟨trader,position⟩,member,_,rfl⟩ := mem_ranked.mp inside
  obtain ⟨found,held⟩ := (listed.2 _ _).mp member
  exact ⟨position,found,held,rfl⟩

theorem ranked_facing {s : StateManager} (drops : s.DropsPositions) (fits : s.PositionsFit) (listed : s.Enumerated marketId)
    (values : ((s.getAllPositionsInMarket marketId).map fun entry => entry.2.size * markPrice).sum < 2 ^ 127) :
    Facing s marketId markPrice 0 (ranked s marketId markPrice) := by
  have sized : ∀ candidate ∈ ranked s marketId markPrice, ∃ position, s.getPosition candidate.trader marketId =
      some position ∧ 0 < position.size ∧ position.size = candidate.positionSize := by
    intro candidate inside
    obtain ⟨position,found,held,same⟩ := ranked_held listed inside
    exact ⟨position,found,held,congrArg AdlCandidate.positionSize same⟩
  refine ⟨fun holder => drops.committed holder marketId,?_,?_,?_,ranked_once listed markPrice,?_⟩
  · intro candidate inside
    obtain ⟨position,found,_,same⟩ := sized candidate inside
    exact ⟨position,found,same⟩
  · intro candidate inside
    obtain ⟨position,_,held,same⟩ := sized candidate inside
    exact same ▸ held
  · intro candidate inside
    obtain ⟨position,found,_,same⟩ := sized candidate inside
    exact same ▸ fits _ _ _ found
  · have sum := ranked_sum s marketId markPrice
    omega

def takings (s : StateManager) (marketId requiredAmount markPrice : Nat) : List (AdlCandidate × Nat) :=
  allot AdlCandidate.positionSize markPrice requiredAmount (ranked s marketId markPrice)

def handed (taken : List (AdlCandidate × Nat)) : List (Address × Nat) := taken.map fun entry => (entry.1.trader,entry.2)

theorem mem_handed {taken : List (AdlCandidate × Nat)} {size : Nat} (member : (candidate,size) ∈ taken) :
    (candidate.trader,size) ∈ handed taken :=
  List.mem_map_of_mem (f:=fun entry : AdlCandidate × Nat => (entry.1.trader,entry.2)) member

theorem handed_amount (taken : List (AdlCandidate × Nat)) :
    ((handed taken).map fun entry => entry.2 * markPrice).sum = spent markPrice taken := by
  rw [handed,List.map_map]
  rfl

theorem takings_ranked {s : StateManager} {entry : AdlCandidate × Nat}
    (member : entry ∈ takings s marketId requiredAmount markPrice) : entry.1 ∈ ranked s marketId markPrice :=
  (allot_begins _ _ _ _).subset (List.mem_map_of_mem member)

theorem takings_once {s : StateManager} (listed : s.Enumerated marketId) :
    ((handed (takings s marketId requiredAmount markPrice)).map Prod.fst).Nodup := by
  have known := allot_begins AdlCandidate.positionSize markPrice requiredAmount (ranked s marketId markPrice)
  have once := (known.map AdlCandidate.trader).sublist.nodup (ranked_once listed markPrice)
  rw [handed,List.map_map]
  rw [List.map_map] at once
  exact once

theorem takings_ahead {s : StateManager} (listed : s.Enumerated marketId) {other : AdlCandidate} {size : Nat}
    (member : (candidate,size) ∈ takings s marketId requiredAmount markPrice) (some : 0 < size)
    (rival : other ∈ ranked s marketId markPrice) (higher : candidate.profitScore < other.profitScore) :
    (other,other.positionSize) ∈ takings s marketId requiredAmount markPrice := by
  obtain ⟨front,back,parts,ahead⟩ := ranked_front (takings_ranked member) rival higher
  have once := (ranked_once listed markPrice).of_map
  rw [parts] at once
  have apart : candidate ∉ front := by
    intro again
    exact (List.nodup_append.mp once).2.2 _ again _ List.mem_cons_self rfl
  exact allot_front _ _ parts apart member some other ahead

section Reductions
variable {s after : StateManager} (reduced : Reduced s marketId (handed (takings s marketId requiredAmount markPrice)) after)
include reduced

theorem takings_whole (found : s.getPosition trader marketId = some position)
    (whole : (candidateOf markPrice (trader,position),position.size) ∈ takings s marketId requiredAmount markPrice) :
    (trader,position.size) ∈ handed (takings s marketId requiredAmount markPrice) ∧
      after.getPosition trader marketId = none := by
  have member : (trader,position.size) ∈ handed (takings s marketId requiredAmount markPrice) := mem_handed whole
  obtain ⟨other,present,stored⟩ := reduced.taken _ member
  rw [found] at present
  cases present
  rw [if_pos (Nat.le_refl _)] at stored
  exact ⟨member,stored⟩

theorem takings_reduced (listed : s.Enumerated marketId) {size : Nat}
    (member : (candidate,size) ∈ takings s marketId requiredAmount markPrice) :
    ∃ position, s.getPosition candidate.trader marketId = some position ∧
      candidateOf markPrice (candidate.trader,position) = candidate ∧ size ≤ position.size ∧
      after.getPosition candidate.trader marketId = if size = position.size then none else some (leftover position size) := by
  obtain ⟨position,found,_,same⟩ := ranked_held listed (takings_ranked member)
  obtain ⟨other,present,stored⟩ := reduced.taken _ (mem_handed member)
  rw [found] at present
  cases present
  have sizes : position.size = candidate.positionSize := congrArg AdlCandidate.positionSize same
  have fits : size ≤ position.size := sizes ▸ allot_le _ _ _ _ _ member
  refine ⟨position,found,same,fits,?_⟩
  rw [stored]
  by_cases whole : size = position.size
  · rw [if_pos whole,if_pos (Nat.le_of_eq whole.symm)]
  · rw [if_neg whole,if_neg fun covers => whole (Nat.le_antisymm fits covers)]

end Reductions

theorem autoDeleverage_ok (drops : e.state.DropsPositions) (fits : e.state.PositionsFit) (listed : e.state.Enumerated marketId)
    (values : ((e.state.getAllPositionsInMarket marketId).map fun entry => entry.2.size * markPrice).sum < 2 ^ 127)
    (ran : exec (autoDeleverage marketId requiredAmount markPrice) e = (.ok list,after)) :
    (∀ entry ∈ e.state.getAllPositionsInMarket marketId,
        ∃ pnl, PositionManager.calculatePnl entry.2 markPrice = .ok (pnl,inProfit entry.2 markPrice)) ∧
      list = handed (takings e.state marketId requiredAmount markPrice) ∧
      Reduced e.state marketId list after.state := by
  unfold autoDeleverage at ran
  rw [if_neg (by decide)] at ran
  obtain ⟨candidates,found,ran⟩ := exec_tries_ok ran
  obtain ⟨rfl,reckoned⟩ := adlCandidates_ok (fun entry inside => ((listed.2 _ _).mp inside).2) found
  exact ⟨reckoned,deleverageEach_ok (ranked_facing drops fits listed values) ran⟩

theorem autoDeleverage_exact (drops : e.state.DropsPositions) (fits : e.state.PositionsFit)
    (listed : e.state.Enumerated marketId)
    (values : ((e.state.getAllPositionsInMarket marketId).map fun entry => entry.2.size * markPrice).sum < 2 ^ 127)
    (scores : ∀ trader position, Profitable e.state marketId markPrice trader position →
      profitScore position markPrice < 2 ^ 127)
    (ran : exec (autoDeleverage marketId requiredAmount markPrice) e = (.ok list,after)) :
    Deleveraged e.state marketId requiredAmount markPrice list after.state := by
  obtain ⟨reckoned,rfl,reduced⟩ := autoDeleverage_ok drops fits listed values ran
  have profitable := fun trader position => @profitable_iff trader marketId markPrice position e.state listed reckoned
  refine ⟨takings_once listed,?_,?_,?_,?_,reduced.others⟩
  · intro entry member
    obtain ⟨⟨candidate,size⟩,picked,rfl⟩ := List.mem_map.mp member
    obtain ⟨position,found,same,fits,stored⟩ := takings_reduced reduced listed picked
    exact ⟨position,(profitable _ _).mpr ⟨same.symm ▸ takings_ranked picked,found⟩,fits,stored⟩
  · rw [handed_amount]
    exact spent_allot_le _ _ _ _
  · rw [handed_amount]
    rcases allot_spends AdlCandidate.positionSize markPrice requiredAmount (ranked e.state marketId markPrice) with poor | all
    · exact .inl poor
    · refine .inr fun trader position gains => ?_
      obtain ⟨candidate,found⟩ := (profitable trader position).mp gains
      apply takings_whole reduced found
      rw [takings,all]
      exact List.mem_map_of_mem (f:=fun candidate : AdlCandidate => (candidate,candidate.positionSize)) candidate
  · intro entry member some own held trader position gains higher
    obtain ⟨⟨candidate,size⟩,picked,rfl⟩ := List.mem_map.mp member
    obtain ⟨mine,found,same,_,_⟩ := takings_reduced reduced listed picked
    dsimp only at held
    rw [found] at held
    cases held
    obtain ⟨rival,present⟩ := (profitable trader position).mp gains
    have score : candidate.profitScore = (profitScore own markPrice : Int) := by
      rw [← same]
      exact candidateOf_score _ (scores _ _ ((profitable _ _).mpr ⟨same.symm ▸ takings_ranked picked,found⟩))
    have theirs := candidateOf_score (trader,position) (scores _ _ gains)
    have ahead : candidate.profitScore < (candidateOf markPrice (trader,position)).profitScore := by
      rw [score,theirs]
      exact_mod_cast higher
    exact takings_whole reduced present (takings_ahead listed picked some rival ahead)

end Market

def winnersState : StateManager :=
  (Bench.fresh.setPosition Bench.alice 0 ⟨10,100,true,100,0⟩).setPosition Bench.carol 0 ⟨10,130,false,100,0⟩

def winners : Engine := Engine.new winnersState

theorem winners_position (holder : Address) (read : Nat) : winnersState.getPosition holder read =
    if holder = Bench.carol ∧ read = 0 then some ⟨10,130,false,100,0⟩
    else if holder = Bench.alice ∧ read = 0 then some ⟨10,100,true,100,0⟩ else none := by
  rw [winnersState,StateManager.getPosition_setPosition,StateManager.getPosition_setPosition]
  rfl

theorem winners_drops : winnersState.DropsPositions := by
  apply Isolation.drops_of_flat
  intro address marketId
  rw [winnersState,StateManager.committed_setPosition,StateManager.committed_setPosition]
  exact Storage.Db.getValueOption_empty _ _

theorem winners_fit : winnersState.PositionsFit := by
  intro holder read position found
  rw [winners_position] at found
  split at found
  · cases found
    decide
  · split at found
    · cases found
      decide
    · cases found

theorem winners_listed : winnersState.Enumerated 0 := by
  have started := PositionCall.ready_new {} .keep
  have fresh : Bench.fresh.Enumerated 0 := by
    apply started.tracked.enumerated_iff.mpr
    rintro address ⟨position,read,_⟩
    cases read
  have one : (Bench.fresh.setPosition Bench.alice 0 ⟨10,100,true,100,0⟩).Enumerated 0 :=
    (PositionCall.setPosition_enumerated started.tracked fresh _).mpr (.inr fun other _ ⟨_,read,_⟩ => nomatch read)
  have indexed : (Bench.fresh.setPosition Bench.alice 0 ⟨10,100,true,100,0⟩).positionIndex 0 ≠ none := by decide +kernel
  exact (PositionCall.setPosition_enumerated (started.tracked.setPosition _ _ _) one _).mpr (.inl indexed)

theorem autoDeleverage_on_bench :
    (exec (autoDeleverage 0 1500 110) winners).1 = .ok [(Bench.carol,10),(Bench.alice,3)] ∧
      Deleveraged winnersState 0 1500 110 [(Bench.carol,10),(Bench.alice,3)]
        (exec (autoDeleverage 0 1500 110) winners).2.state := by
  have answered : (exec (autoDeleverage 0 1500 110) winners).1 = .ok [(Bench.carol,10),(Bench.alice,3)] := by
    decide +kernel
  refine ⟨answered,autoDeleverage_exact (e:=winners) winners_drops winners_fit winners_listed (by decide +kernel) ?_
    (exec_of_result answered)⟩
  rintro trader position ⟨found,_⟩
  have found : winnersState.getPosition trader 0 = some position := found
  rw [winners_position] at found
  split at found
  · cases found
    decide +kernel
  · split at found
    · cases found
      decide +kernel
    · cases found

end Deleverage
end Pranklin
