import Pranklin.Nonces
import Pranklin.OpenInterest
import Pranklin.Prices

namespace Pranklin
open Words Effect OrderService OrderbookManager TransactionExecutor

def soldBy (account : Address) (fills : List Fill) : Nat := ((fills.filter (·.maker = account)).map Fill.size).sum

def drop (account : Address) (marketId : Nat) : Option Order → Option Order → Int
  | some old,some new =>
    if old.owner = account ∧ old.marketId = marketId then
      signed old.isBuy old.remainingSize - signed old.isBuy new.remainingSize
    else 0
  | _,_ => 0

def dropped (s t : StateManager) (account : Address) (marketId : Nat) : Int :=
  ∑ orderId ∈ Finset.range s.orderCounter, drop account marketId (s.getOrder orderId) (t.getOrder orderId)

namespace Transaction

def TradesIn (tx : Transaction) (marketId : Nat) : Prop :=
  match tx.payload with
  | .placeOrder request => request.marketId = marketId
  | .closePosition close => close.marketId = marketId
  | _ => False

def fills (e : Engine) (tx : Transaction) : List Fill :=
  match tx.payload with
  | .placeOrder request => matchedFills e tx.sender request
  | .closePosition close =>
    match e.state.getPosition tx.sender close.marketId with
    | some position => matchedFills e tx.sender (PositionService.closeOrder position close)
    | none => []
  | _ => []

end Transaction

def Order.filledBy (order : Order) (size : Nat) : Order :=
  {order with
    remainingSize:=order.remainingSize - size
    status:=if order.remainingSize - size = 0 then .filled else .active}

-- Orders and positions that a transaction changes only by filling resting orders as makers: a position
-- moves, in the market of the transaction alone, by what the account's own orders have dropped, and stays
-- what it was in every field when none of them is filled.
structure MakesOnly (tx : Transaction) (account : Address) (e after : Engine) : Prop where
  orders : ∀ orderId order, e.state.getOrder orderId = some order → order.owner = account →
    after.state.getOrder orderId = some order ∨
      order.status = .active ∧ ∃ fill ∈ tx.fills e, fill.makerOrderId = orderId ∧ 0 < fill.size ∧
        fill.size ≤ order.remainingSize ∧ after.state.getOrder orderId = some (order.filledBy fill.size)
  created : ∀ orderId order, e.state.getOrder orderId = none → after.state.getOrder orderId = some order →
    order.owner ≠ account
  markets : ∀ marketId, tx.TradesIn marketId ∨
    after.state.getPosition account marketId = e.state.getPosition account marketId
  unfilled : (∀ fill ∈ tx.fills e, fill.maker ≠ account) → ∀ marketId,
    after.state.getPosition account marketId = e.state.getPosition account marketId
  positions : ∀ marketId,
    (signedSize (e.state.getPosition account marketId) + dropped e.state after.state account marketId).natAbs < 2 ^ 64 →
    signedSize (after.state.getPosition account marketId) =
      signedSize (e.state.getPosition account marketId) + dropped e.state after.state account marketId

structure Respects (tx : Transaction) (account : Address) (e after : Engine) : Prop
    extends MakesOnly tx account e after where
  nonce : after.state.getNonce account = e.state.getNonce account
  balances : ∀ assetId, e.state.getBalance account assetId ≤ after.state.getBalance account assetId ∨
    ∃ request, tx.payload = .bridgeWithdraw request ∧ request.user = account ∧
      e.state.isBridgeOperator tx.sender = true

-- The manager reads as a map at the positions: one that is deleted is gone.
def StateManager.DropsPositions (s : StateManager) : Prop :=
  ∀ address marketId, (s.deletePosition address marketId).getPosition address marketId = none

def StateManager.PositionsFit (s : StateManager) : Prop :=
  ∀ address marketId position, s.getPosition address marketId = some position → position.size < 2 ^ 64

theorem StateManager.DropsPositions.committed {s : StateManager} (drops : s.DropsPositions) (address : Address)
    (marketId : Nat) : s.committed (.position address marketId) = none := by
  have gone := drops address marketId
  rwa [getPosition_deletePosition,if_pos ⟨rfl,rfl⟩] at gone

theorem StateManager.PositionsFit.natAbs {s : StateManager} (fits : s.PositionsFit) (address : Address) (marketId : Nat) :
    (signedSize (s.getPosition address marketId)).natAbs < 2 ^ 64 := by
  cases found : s.getPosition address marketId with
  | none => exact Nat.two_pow_pos 64
  | some position =>
    have small := fits address marketId position found
    cases side : position.isLong <;> simpa [signedSize,signed,side] using small

namespace Isolation
variable {e after : Engine} {ledger : Ledger} {trader account : Address} {request : PlaceOrderTx} {fills : List Fill}

theorem signed_add (isBuy : Bool) (a b : Nat) : signed isBuy (a + b) = signed isBuy a + signed isBuy b := by
  cases isBuy <;> simp only [signed,Bool.false_eq_true,if_true,if_false] <;> omega

theorem signed_between {position : Int} (start : position.natAbs < bound) (isBuy : Bool)
    (final : (position + signed isBuy (a + b)).natAbs < bound) : (position + signed isBuy a).natAbs < bound := by
  cases isBuy <;> simp only [signed,Bool.false_eq_true,if_true,if_false] at final ⊢ <;> omega

structure Supplies (e : Engine) (account : Address) (marketId : Nat) (isBuy : Bool) (size : Nat) (after : Engine) :
    Prop where
  elsewhere : ∀ read, read ≠ marketId → after.state.getPosition account read = e.state.getPosition account read
  here : (signedSize (e.state.getPosition account marketId)).natAbs < 2 ^ 64 →
    (signedSize (e.state.getPosition account marketId) + signed isBuy size).natAbs < 2 ^ 64 →
    signedSize (after.state.getPosition account marketId) =
      signedSize (e.state.getPosition account marketId) + signed isBuy size
  committed : ∀ key, after.state.committed key = e.state.committed key

theorem processFill_supplies (flat : ∀ address marketId, e.state.committed (.position address marketId) = none)
    (taken : fill.taker ≠ account) (ran : exec (processFill market fill) e = (.ok (),after)) :
    Supplies e account fill.marketId (!fill.takerIsBuy) (if fill.maker = account then fill.size else 0) after := by
  rcases processFill_cases ran with failed | ⟨first,second,left,right,_,rfl⟩
  · cases failed
  obtain ⟨taker,_,readsTaker,committedTaker,_⟩ := OpenInterest.updatePosition_reads (flat _ _) left
  obtain ⟨maker,traded,readsMaker,committedMaker,_⟩ :=
    OpenInterest.updatePosition_reads ((committedTaker _).trans (flat _ _)) right
  have own : ∀ read, first.state.getPosition account read = e.state.getPosition account read := by
    intro read
    rw [readsTaker,if_neg fun both => taken both.1.symm]
  refine ⟨fun read other => ?_,fun _ fits => ?_,fun key => (committedMaker key).trans (committedTaker key)⟩
  · change second.state.getPosition account read = _
    rw [readsMaker,if_neg fun both => other both.2,own]
  · change signedSize (second.state.getPosition account fill.marketId) = _
    rw [readsMaker]
    by_cases makes : fill.maker = account
    · subst makes
      rw [own] at traded
      simp only [and_self,if_true] at fits ⊢
      exact OpenInterest.traded_signed traded fits
    · rw [if_neg fun both => makes both.1.symm,if_neg makes,own]
      cases fill.takerIsBuy <;> simp [signed]

-- All fills of one order move a maker's position to one side, so it does not leave its word
-- on the way when it ends inside.
theorem processFills_supplies (flat : ∀ address marketId, e.state.committed (.position address marketId) = none)
    (alike : ∀ fill ∈ fills, fill.taker ≠ account ∧ fill.marketId = marketId ∧ fill.takerIsBuy = takerIsBuy)
    (ran : exec (processFills market fills) e = (.ok (),after)) :
    Supplies e account marketId (!takerIsBuy) (soldBy account fills) after := by
  induction fills generalizing e with
  | nil =>
    cases ran
    refine ⟨fun _ _ => rfl,fun _ _ => ?_,fun _ => rfl⟩
    cases takerIsBuy <;> simp [soldBy,signed]
  | cons fill fills ih =>
    obtain ⟨_,middle,first,rest⟩ := exec_bind_ok ran
    obtain ⟨taken,rfl,rfl⟩ := alike fill List.mem_cons_self
    have now := processFill_supplies flat taken first
    have later := ih (fun address marketId => (now.committed _).trans (flat address marketId))
      (fun other inside => alike other (List.mem_cons_of_mem _ inside)) rest
    have split : soldBy account (fill :: fills) =
        (if fill.maker = account then fill.size else 0) + soldBy account fills := by
      by_cases makes : fill.maker = account <;> simp [soldBy,makes]
    refine ⟨fun read other => (later.elsewhere read other).trans (now.elsewhere read other),fun small fits => ?_,
      fun key => (later.committed key).trans (now.committed key)⟩
    rw [split,signed_add] at fits ⊢
    have between := signed_between small (!fill.takerIsBuy) (by rw [signed_add]; exact fits)
    have moved := now.here small between
    rw [← add_assoc,← moved] at fits ⊢
    exact later.here (by rw [moved]; exact between) fits

section Drops
variable {s t : StateManager} {marketId : Nat}

theorem drop_self (order : Option Order) : drop account marketId order order = 0 := by
  cases order <;> simp [drop]

theorem drop_of_ne (apart : old.owner ≠ account) (new : Order) : drop account marketId (some old) (some new) = 0 :=
  if_neg fun both => apart both.1

theorem dropped_self (same : ∀ orderId, t.getOrder orderId = s.getOrder orderId) : dropped s t account marketId = 0 := by
  refine Finset.sum_eq_zero fun orderId _ => ?_
  rw [same,drop_self]

theorem dropped_cancelled (found : s.getOrder cancelled = some old) (apart : old.owner ≠ account) :
    dropped s ((s.setOrder cancelled order).removeActiveOrder market cancelled) account marketId = 0 := by
  refine Finset.sum_eq_zero fun orderId _ => ?_
  rw [StateManager.getOrder_removeActiveOrder,StateManager.getOrder_setOrder]
  split
  · rename_i same
    rw [same,found,drop_of_ne apart]
  · exact drop_self _

def given (account : Address) (marketId : Nat) (take : Take) : Int :=
  if take.maker.owner = account ∧ take.maker.marketId = marketId then signed take.maker.isBuy take.size else 0

theorem drop_taken {take : Take} (covered : take.size ≤ take.maker.remainingSize) (active : take.maker.status = .active) :
    drop account marketId (some take.maker) (some take.taken) = given account marketId take := by
  rw [Take.taken_eq covered active,drop,given]
  split
  · cases take.maker.isBuy <;> simp only [signed,Bool.false_eq_true,if_true,if_false] <;> omega
  · rfl

theorem sum_map_eq_single {takes : List Take} (distinct : (takes.map (·.maker.id)).Nodup) (worth : Take → Int)
    {take : Take} (member : take ∈ takes) :
    (takes.map fun other => if other.maker.id = take.maker.id then worth other else 0).sum = worth take := by
  induction takes with
  | nil => cases member
  | cons first takes ih =>
    obtain ⟨fresh,distinct⟩ := List.nodup_cons.mp distinct
    rw [List.map_cons,List.sum_cons]
    rcases List.mem_cons.mp member with rfl | member
    · rw [if_pos rfl,List.map_congr_left fun other inside =>
        if_neg fun same => fresh (List.mem_map.mpr ⟨other,inside,same⟩)]
      simp
    · rw [if_neg fun same => fresh (List.mem_map.mpr ⟨take,member,same.symm⟩),ih distinct member,zero_add]

theorem sum_sum_map (ids : Finset Nat) (takes : List Take) (worth : Nat → Take → Int) :
    ∑ orderId ∈ ids, (takes.map (worth orderId)).sum =
      (takes.map fun take => ∑ orderId ∈ ids, worth orderId take).sum := by
  simpa using (Multiset.sum_map_sum (m:=(takes : Multiset Take)) (s:=ids) (f:=fun take orderId => worth orderId take)).symm

theorem dropped_takes {takes : List Take} (distinct : (takes.map (·.maker.id)).Nodup)
    (makers : ∀ take ∈ takes, s.getOrder take.maker.id = some take.maker ∧ take.maker.status = .active ∧
      take.size ≤ take.maker.remainingSize ∧ take.maker.id < s.orderCounter ∧ t.getOrder take.maker.id = some take.taken)
    (others : ∀ orderId < s.orderCounter, orderId ∉ takes.map (·.maker.id) → t.getOrder orderId = s.getOrder orderId) :
    dropped s t account marketId = (takes.map (given account marketId)).sum := by
  have each : ∀ orderId ∈ Finset.range s.orderCounter, drop account marketId (s.getOrder orderId) (t.getOrder orderId) =
      (takes.map fun take => if take.maker.id = orderId then given account marketId take else 0).sum := by
    intro orderId issued
    by_cases member : orderId ∈ takes.map (·.maker.id)
    · obtain ⟨take,inside,rfl⟩ := List.mem_map.mp member
      obtain ⟨before,active,covered,_,later⟩ := makers take inside
      rw [before,later,drop_taken covered active,sum_map_eq_single distinct _ inside]
    · rw [others orderId (Finset.mem_range.mp issued) member,drop_self,List.map_congr_left fun take inside =>
        if_neg fun same => member (List.mem_map.mpr ⟨take,inside,same⟩)]
      simp
  rw [dropped,Finset.sum_congr rfl each,sum_sum_map]
  refine congrArg List.sum (List.map_congr_left fun take inside => ?_)
  rw [Finset.sum_ite_eq,if_pos (Finset.mem_range.mpr (makers take inside).2.2.2.1)]

end Drops

structure Filled (e : Engine) (trader : Address) (request : PlaceOrderTx) (after : Engine) : Prop where
  admitted : Admitted e trader request
  makers : ∀ take ∈ takesOf e trader request, after.state.getOrder take.maker.id = some take.taken
  others : ∀ orderId, orderId ∉ (takesOf e trader request).map (·.maker.id) → orderId ≠ e.state.orderCounter →
    after.state.getOrder orderId = e.state.getOrder orderId
  own : ∀ order, after.state.getOrder e.state.orderCounter = some order → order.owner = trader
  supplies : ∀ account, account ≠ trader →
    Supplies e account request.marketId (!request.isBuy) (soldBy account (fillsOf e trader request)) after
  bystanders : ∀ account, account ≠ trader → (∀ fill ∈ fillsOf e trader request, fill.maker ≠ account) → ∀ marketId,
    after.state.getPosition account marketId = e.state.getPosition account marketId

section Placements
variable {middle filled : Engine}

theorem Supplies.of_reads
    (before : ∀ address marketId, e.state.getPosition address marketId = middle.state.getPosition address marketId)
    (committed : ∀ key, middle.state.committed key = e.state.committed key)
    (supplies : Supplies middle account marketId isBuy size after) : Supplies e account marketId isBuy size after := by
  refine ⟨fun read other => (supplies.elsewhere read other).trans (before _ _).symm,?_,
    fun key => (supplies.committed key).trans (committed key)⟩
  rw [before]
  exact supplies.here

theorem processed_filled (shown : Represents e.desk ledger)
    (flat : ∀ address marketId, e.state.committed (.position address marketId) = none)
    (matched : Matched e trader request market middle)
    (ran : exec (OrderService.processFills market (fillsOf e trader request)) middle = (.ok (),filled)) :
    Filled e trader request filled := by
  obtain ⟨positions,same⟩ := OpenInterest.matched_positions matched
  have reads : ∀ address marketId, e.state.getPosition address marketId = middle.state.getPosition address marketId :=
    fun address marketId => (positions address marketId).symm
  refine ⟨⟨⟨market,matched.validated⟩,matched.counter,matched.passes⟩,?_,?_,?_,?_,?_⟩
  · exact fun take member => (processed_makers shown matched ran take.maker.id).1 take member rfl
  · exact fun orderId absent _ => (processed_makers shown matched ran orderId).2 absent
  · intro order found
    have absent : e.state.orderCounter ∉ (takesOf e trader request).map (·.maker.id) := by
      intro inside
      obtain ⟨take,member,own⟩ := List.mem_map.mp inside
      exact maker_ne_counter shown member own
    rw [(processed_makers shown matched ran _).2 absent,getOrder_counter shown] at found
    cases found
  · intro account other
    have flat : ∀ address marketId, middle.state.committed (.position address marketId) = none :=
      fun address marketId => (same _).trans (flat address marketId)
    refine Supplies.of_reads reads same (processFills_supplies flat ?_ ran)
    intro fill inside
    obtain ⟨take,_,rfl⟩ := List.mem_map.mp inside
    exact ⟨fun taker => other taker.symm,rfl,rfl⟩
  · intro account other unfilled marketId
    refine (OpenInterest.processFills_stranger (fun fill inside => ?_) ran marketId).trans (positions account marketId)
    have unmade := unfilled fill inside
    obtain ⟨take,_,rfl⟩ := List.mem_map.mp inside
    exact ⟨fun taker => other taker.symm,unmade⟩

theorem placement_filled (shown : Represents e.desk ledger)
    (flat : ∀ address marketId, e.state.committed (.position address marketId) = none)
    (placement : Placement e trader request result after) (inWord : result ≠ .error .overflow) :
    Atomicity.Untouched e after ∨ Filled e trader request after := by
  cases placement with
  | refused error reason => exact .inl ⟨fun _ => rfl,fun _ _ => rfl,fun _ _ => rfl,fun _ => rfl,fun _ => rfl⟩
  | turnedAway fails => exact .inl (Atomicity.untouched_issued e)
  | broken matched ran => exact absurd (congrArg Except.error (processFills_overflow ran)) inWord
  | killed matched ran short kill =>
    obtain ⟨admitted,makers,others,own,supplies,bystanders⟩ := processed_filled shown flat matched ran
    refine .inr ⟨admitted,makers,others,own,fun account other => ?_,bystanders⟩
    obtain ⟨elsewhere,here,committed⟩ := supplies account other
    exact ⟨elsewhere,here,committed⟩
  | settled matched ran ended =>
    obtain ⟨admitted,makers,others,own,supplies,bystanders⟩ := processed_filled shown flat matched ran
    obtain ⟨_,_,status,reads⟩ := settleOrder_stores ended
    obtain ⟨positions,committed,_⟩ := OpenInterest.settleOrder_positions ended
    have placed : (remainder e trader request).id = e.state.orderCounter := rfl
    refine .inr ⟨admitted,fun take member => ?_,fun orderId absent old => ?_,fun order found => ?_,fun account other => ?_,
      fun account other unfilled marketId => (positions _ _).trans (bystanders account other unfilled marketId)⟩
    · rw [reads,placed,if_neg (maker_ne_counter shown member)]
      exact makers take member
    · rw [reads,placed,if_neg old]
      exact others orderId absent old
    · rw [reads,placed,if_pos rfl] at found
      rw [← Option.some_inj.mp found]
      rfl
    · obtain ⟨elsewhere,here,kept⟩ := supplies account other
      refine ⟨fun read apart => (positions _ _).trans (elsewhere read apart),?_,fun key => (committed key).trans (kept key)⟩
      rw [positions]
      exact here

end Placements

section Payloads
variable {tx : Transaction}

theorem makesOnly_of_same (orders : ∀ orderId, after.state.getOrder orderId = e.state.getOrder orderId)
    (positions : ∀ marketId, after.state.getPosition account marketId = e.state.getPosition account marketId) :
    MakesOnly tx account e after where
  orders orderId order found _ := .inl ((orders orderId).trans found)
  created orderId order absent found := by
    rw [orders,absent] at found
    cases found
  markets marketId := .inr (positions marketId)
  unfilled _ := positions
  positions marketId _ := by rw [positions,dropped_self orders,add_zero]

theorem sum_given {takes : List Take} (order : Order)
    (alike : ∀ take ∈ takes, take.maker.marketId = marketId ∧ take.maker.isBuy = isBuy) :
    (takes.map (given account marketId)).sum = signed isBuy (soldBy account (takes.map (Take.fill order))) := by
  induction takes with
  | nil => cases isBuy <;> rfl
  | cons take takes ih =>
    obtain ⟨market,side⟩ := alike take List.mem_cons_self
    have rest := ih fun other inside => alike other (List.mem_cons_of_mem _ inside)
    have split : soldBy account ((take :: takes).map (Take.fill order)) =
        (if take.maker.owner = account then take.size else 0) + soldBy account (takes.map (Take.fill order)) := by
      by_cases makes : take.maker.owner = account <;> simp [soldBy,Take.fill,makeFill,makes]
    rw [List.map_cons,List.sum_cons,rest,split,signed_add,given,market,side]
    by_cases makes : take.maker.owner = account
    · simp [makes]
    · cases isBuy <;> simp [makes,signed]

theorem taken_maker (shown : Represents e.desk ledger) (member : take ∈ takesOf e trader request) :
    e.state.getOrder take.maker.id = some take.maker ∧ take.maker.status = .active ∧
      take.maker.marketId = request.marketId ∧ take.maker.isBuy = (!request.isBuy) := by
  have met : take.maker ∈ Prices.metLine e trader request :=
    (walk_makers_sublist _ _).subset (List.mem_map_of_mem member)
  obtain ⟨found,active,market,side,_⟩ := (Prices.mem_metLine shown).mp met
  exact ⟨found,active,market,side⟩

theorem dropped_filled (shown : Represents e.desk ledger) (filled : Filled e trader request after) (marketId : Nat) :
    dropped e.state after.state account marketId = ((takesOf e trader request).map (given account marketId)).sum := by
  refine dropped_takes (takesOf_makers_nodup (queued_issued shown.toQueued)) (fun take member => ?_)
    fun orderId old absent => filled.others orderId absent (Nat.ne_of_lt old)
  obtain ⟨found,active,_⟩ := taken_maker shown member
  exact ⟨found,active,(mem_takesOf member).2.2,(shown.complete _ _ found).2.1,filled.makers take member⟩

theorem order_filled (shown : Represents e.desk ledger) (filled : Filled e trader request after)
    (found : e.state.getOrder orderId = some order) :
    after.state.getOrder orderId = some order ∨
      order.status = .active ∧ ∃ fill ∈ fillsOf e trader request, fill.makerOrderId = orderId ∧ 0 < fill.size ∧
        fill.size ≤ order.remainingSize ∧ after.state.getOrder orderId = some (order.filledBy fill.size) := by
  by_cases member : orderId ∈ (takesOf e trader request).map (·.maker.id)
  · obtain ⟨take,inside,rfl⟩ := List.mem_map.mp member
    obtain ⟨before,active,_⟩ := taken_maker shown inside
    obtain rfl : take.maker = order := Option.some_inj.mp (before.symm.trans found)
    have covered := (mem_takesOf inside).2.2
    have live := (shown.live _ ((shown.complete _ _ before).2.2 active)).2
    refine .inr ⟨active,take.fill (incoming e trader request),List.mem_map_of_mem inside,rfl,
      walk_size_pos _ _ take inside live,covered,?_⟩
    rw [filled.makers take inside,Take.taken_eq covered active]
    rfl
  · have old : orderId ≠ e.state.orderCounter := by
      rintro rfl
      rw [getOrder_counter shown] at found
      cases found
    exact .inl ((filled.others orderId member old).trans found)

theorem created_filled (shown : Represents e.desk ledger) (filled : Filled e trader request after)
    (absent : e.state.getOrder orderId = none) (found : after.state.getOrder orderId = some order) :
    order.owner = trader := by
  by_cases new : orderId = e.state.orderCounter
  · subst new
    exact filled.own order found
  · have unmatched : orderId ∉ (takesOf e trader request).map (·.maker.id) := by
      intro inside
      obtain ⟨take,member,rfl⟩ := List.mem_map.mp inside
      rw [(taken_maker shown member).1] at absent
      cases absent
    rw [filled.others orderId unmatched new,absent] at found
    cases found

theorem position_filled (shown : Represents e.desk ledger) (fits : e.state.PositionsFit)
    (filled : Filled e trader request after) (other : account ≠ trader) (marketId : Nat)
    (small : (signedSize (e.state.getPosition account marketId) +
      dropped e.state after.state account marketId).natAbs < 2 ^ 64) :
    signedSize (after.state.getPosition account marketId) =
      signedSize (e.state.getPosition account marketId) + dropped e.state after.state account marketId := by
  rw [dropped_filled shown filled] at small ⊢
  by_cases here : marketId = request.marketId
  · subst here
    have sum : ((takesOf e trader request).map (given account request.marketId)).sum =
        signed (!request.isBuy) (soldBy account (fillsOf e trader request)) :=
      sum_given _ fun take member => (taken_maker shown member).2.2
    rw [sum] at small ⊢
    exact (filled.supplies account other).here (fits.natAbs account request.marketId) small
  · have nothing : ((takesOf e trader request).map (given account marketId)).sum = 0 := by
      refine List.sum_eq_zero fun worth inside => ?_
      obtain ⟨take,member,rfl⟩ := List.mem_map.mp inside
      exact if_neg fun both => here (both.2.symm.trans (taken_maker shown member).2.2.1)
    rw [nothing,add_zero,(filled.supplies account other).elsewhere marketId here]

theorem makesOnly_of_filled (shown : Represents e.desk ledger) (fits : e.state.PositionsFit)
    (filled : Filled e tx.sender request after) (other : account ≠ tx.sender) (trades : tx.TradesIn request.marketId)
    (fills : tx.fills e = matchedFills e tx.sender request) : MakesOnly tx account e after where
  orders orderId order found _ := by
    rw [fills,matchedFills_of_admitted shown.toQueued filled.admitted]
    exact order_filled shown filled found
  created orderId order absent found := by
    rw [created_filled shown filled absent found]
    exact Ne.symm other
  markets marketId := by
    by_cases here : marketId = request.marketId
    · exact .inl (here ▸ trades)
    · exact .inr ((filled.supplies account other).elsewhere marketId here)
  unfilled none marketId := by
    rw [fills,matchedFills_of_admitted shown.toQueued filled.admitted] at none
    exact filled.bystanders account other none marketId
  positions marketId := position_filled shown fits filled other marketId

theorem placement_makesOnly (shown : Represents e.desk ledger) (drops : e.state.DropsPositions)
    (fits : e.state.PositionsFit) (other : account ≠ tx.sender)
    (placement : Placement e tx.sender request result after) (inWord : result ≠ .error .overflow)
    (trades : tx.TradesIn request.marketId) (fills : tx.fills e = matchedFills e tx.sender request) :
    MakesOnly tx account e after := by
  rcases placement_filled shown drops.committed placement inWord with untouched | filled
  · exact makesOnly_of_same untouched.orders (untouched.positions account)
  · exact makesOnly_of_filled shown fits filled other trades fills

theorem cancelOrder_owned (found : e.state.getOrder cancel.orderId = some order)
    (ran : exec (cancelOrder trader cancel) e = (.ok (),after)) : order.owner = trader := by
  rw [cancelOrder,exec_reads_bind] at ran
  rw [found,exec_orThrow_some_bind] at ran
  split at ran
  · cases ran
  · rename_i owned
    exact Decidable.not_not.mp owned

theorem cancelOrder_makesOnly (other : account ≠ tx.sender)
    (ran : exec (cancelOrder tx.sender cancel) e = (result,after)) :
    MakesOnly tx account e after := by
  cases cancelOrder_cancellation ran with
  | refused error reason => exact makesOnly_of_same (fun _ => rfl) fun _ => rfl
  | cancelled order found active =>
  have apart : order.owner ≠ account := by
    rw [cancelOrder_owned found ran]
    exact Ne.symm other
  have positions : ∀ marketId, ((e.state.setOrder cancel.orderId {order with status:=.cancelled}).removeActiveOrder
      order.marketId cancel.orderId).getPosition account marketId = e.state.getPosition account marketId := by simp
  refine ⟨fun orderId old before owned => ?_,fun orderId new absent later => ?_,fun marketId => .inr (positions marketId),
    fun _ => positions,fun marketId _ => ?_⟩
  · refine .inl ?_
    have elsewhere : orderId ≠ cancel.orderId := by
      rintro rfl
      obtain rfl : order = old := Option.some_inj.mp (found.symm.trans before)
      exact apart owned
    simpa [elsewhere] using before
  · have elsewhere : orderId ≠ cancel.orderId := by
      rintro rfl
      rw [found] at absent
      cases absent
    simp [elsewhere,absent] at later
  · rw [dropped_cancelled found apart]
    simp

theorem makesOnly_of_agree (agree : StateManager.Agree (!StateKey.ofBalances ·) e.state after.state) :
    MakesOnly tx account e after :=
  makesOnly_of_same (fun orderId => agree (.order orderId) rfl) fun marketId => agree (.position account marketId) rfl

open Pranklin.Frame in
theorem payload_makesOnly (shown : Represents e.desk ledger) (drops : e.state.DropsPositions) (fits : e.state.PositionsFit)
    (other : account ≠ tx.sender) (inWord : (exec (executeTxPayloadReadonly tx) e).1 ≠ .error (.engine .overflow)) :
    MakesOnly tx account e (exec (executeTxPayloadReadonly tx) e).2 := by
  unfold executeTxPayloadReadonly at inWord ⊢
  cases payload : tx.payload with
  | deposit request | withdraw request => exact makesOnly_of_agree (asTx_agree (sparing_updateBalance rfl _ _ _) e)
  | transfer request => exact makesOnly_of_agree (asTx_agree (sparing_transfer rfl rfl) e)
  | bridgeDeposit request => exact makesOnly_of_agree (asTx_agree (sparing_bridgeDeposit _ rfl) e)
  | bridgeWithdraw request => exact makesOnly_of_agree (asTx_agree (sparing_bridgeWithdraw _ rfl) e)
  | setAgent agent | removeAgent agent => exact makesOnly_of_agree (asTx_agree (sparing_emit _) e)
  | modifyOrder modify => exact makesOnly_of_agree (.refl _ _)
  | cancelOrder cancel =>
    dsimp only
    rw [exec_asTx_state]
    exact cancelOrder_makesOnly other Prod.mk.eta.symm
  | placeOrder request =>
    rw [payload] at inWord
    dsimp only at inWord ⊢
    rw [exec_asTx_result,exec_bind_pure_result] at inWord
    rw [exec_asTx_state,exec_bind_pure_state]
    refine placement_makesOnly shown drops fits other (placeOrder_placement shown.toQueued Prod.mk.eta.symm) ?_ ?_ ?_
    · intro failed
      exact inWord (by rw [failed]; rfl)
    · simp [Transaction.TradesIn,payload]
    · simp [Transaction.fills,payload]
  | closePosition close =>
    rw [payload] at inWord
    dsimp only at inWord ⊢
    rw [exec_asTx_result] at inWord
    rw [exec_asTx_state]
    cases found : e.state.getPosition tx.sender close.marketId with
    | none =>
      rw [PositionService.closePosition_none found]
      exact makesOnly_of_agree (.refl _ _)
    | some position =>
      rw [PositionService.closePosition_some found,exec_bind_pure_result] at inWord
      rw [PositionService.closePosition_some found,exec_bind_pure_state]
      refine placement_makesOnly shown drops fits other (placeOrder_placement shown.toQueued Prod.mk.eta.symm) ?_ ?_ ?_
      · intro failed
        exact inWord (by rw [failed]; rfl)
      · simp [Transaction.TradesIn,payload,PositionService.closeOrder]
      · simp [Transaction.fills,payload,found]

section Balances
open Pranklin.Frame Supply AccountService

def balancesOf (account : Address) : StateKey → Bool
  | .balance address _ => address = account
  | _ => false

theorem balance_of_agree (agree : StateManager.Agree (balancesOf account) e.state after.state) (assetId : Nat) :
    e.state.getBalance account assetId ≤ after.state.getBalance account assetId :=
  (congrArg (Option.getD · 0) (agree (.balance account assetId) (decide_eq_true rfl))).ge

theorem clear_balancesOf : Clear (balancesOf account) := by
  intro key chosen
  cases key <;> first | rfl | cases chosen

theorem transfer_balance {request : TransferTx} (other : account ≠ sender)
    (inWord : (exec (transfer sender request) e).1 ≠ .error .overflow) (assetId : Nat) :
    e.state.getBalance account assetId ≤ (exec (transfer sender request) e).2.state.getBalance account assetId := by
  have transfers := transfer_transfers sender request e
  generalize exec (transfer sender request) e = outcome at transfers inWord ⊢
  obtain ⟨result,after⟩ := outcome
  dsimp only at transfers inWord ⊢
  cases transfers with
  | refused error refuses => exact Nat.le_refl _
  | drained passes exceeds => exact absurd rfl inWord
  | arrived passes small context =>
    dsimp only
    rw [credited,getBalance_setBalance]
    split
    · rename_i same
      rw [same.1,same.2]
      exact Nat.le_add_right _ _
    · rw [debited,getBalance_setBalance,if_neg fun same => other same.1]

theorem bridgeDeposit_balance (operator : Address) (request : BridgeDepositTx) (e : Engine) (account : Address)
    (assetId : Nat) :
    e.state.getBalance account assetId ≤
      (exec (bridgeDeposit operator request) e).2.state.getBalance account assetId := by
  have rewrites := bridgeDeposit_rewrites operator request e
  generalize exec (bridgeDeposit operator request) e = outcome at rewrites ⊢
  obtain ⟨result,after⟩ := outcome
  dsimp only at rewrites ⊢
  cases rewrites with
  | refused error => exact Nat.le_refl _
  | written balance raised small context =>
    dsimp only
    rw [getBalance_setBalance]
    split
    · rename_i same
      rw [same.1,same.2]
      omega
    · exact Nat.le_refl _

theorem payload_balances (other : account ≠ tx.sender)
    (inWord : (exec (executeTxPayloadReadonly tx) e).1 ≠ .error (.engine .overflow)) (assetId : Nat) :
    e.state.getBalance account assetId ≤ (exec (executeTxPayloadReadonly tx) e).2.state.getBalance account assetId ∨
      ∃ request, tx.payload = .bridgeWithdraw request ∧ request.user = account ∧
        e.state.isBridgeOperator tx.sender = true := by
  unfold executeTxPayloadReadonly at inWord ⊢
  have untaken : ∀ {m : EngineM Unit}, Sparing (balancesOf account) m → _ := fun sparing =>
    balance_of_agree (asTx_agree sparing e) assetId
  cases payload : tx.payload with
  | deposit request | withdraw request =>
    exact .inl (untaken (sparing_updateBalance (decide_eq_false (Ne.symm other)) _ _ _))
  | transfer request =>
    rw [payload] at inWord
    dsimp only at inWord ⊢
    rw [exec_asTx_result] at inWord
    rw [exec_asTx_state]
    refine .inl (transfer_balance other (fun failed => ?_) assetId)
    exact inWord (by rw [failed]; rfl)
  | bridgeDeposit request =>
    dsimp only
    rw [exec_asTx_state]
    exact .inl (bridgeDeposit_balance _ _ e account assetId)
  | bridgeWithdraw request =>
    by_cases user : request.user = account
    case neg => exact .inl (untaken (sparing_bridgeWithdraw _ (decide_eq_false user)))
    by_cases bridges : Bridges e tx.sender request.assetId
    · exact .inr ⟨request,rfl,user,bridges.1⟩
    · obtain ⟨error,failed⟩ := bridgeWithdraw_refused bridges
      dsimp only
      rw [exec_asTx_state,failed]
      exact .inl (Nat.le_refl _)
  | setAgent agent | removeAgent agent => exact .inl (untaken (sparing_emit _))
  | modifyOrder modify => exact .inl (Nat.le_refl _)
  | cancelOrder cancel => exact .inl (untaken (sparing_cancelOrder clear_balancesOf _ _))
  | placeOrder request =>
    exact .inl (untaken (sparing_bind (sparing_placeOrder clear_balancesOf _ _) fun _ => .pure spared_refl _))
  | closePosition close => exact .inl (untaken (sparing_closePosition clear_balancesOf _ _))

end Balances

theorem payload_respects (shown : Represents e.desk ledger) (drops : e.state.DropsPositions) (fits : e.state.PositionsFit)
    (other : account ≠ tx.sender) (inWord : (exec (executeTxPayloadReadonly tx) e).1 ≠ .error (.engine .overflow)) :
    Respects tx account e (exec (executeTxPayloadReadonly tx) e).2 where
  toMakesOnly := payload_makesOnly shown drops fits other inWord
  nonce := payload_getNonce tx e account
  balances := payload_balances other inWord

theorem respects_counted (respects : Respects tx account e after) (other : account ≠ tx.sender) :
    Respects tx account e {after with state:=after.state.incrementNonce tx.sender} := by
  have agree : ∀ key, key ≠ .nonce tx.sender → (after.state.incrementNonce tx.sender).get key = after.state.get key :=
    fun key apart => StateManager.get_set_ne _ _ apart
  have orders : ∀ orderId, (after.state.incrementNonce tx.sender).getOrder orderId = after.state.getOrder orderId :=
    fun orderId => agree _ (by simp)
  have positions : ∀ marketId,
      (after.state.incrementNonce tx.sender).getPosition account marketId = after.state.getPosition account marketId :=
    fun marketId => agree _ (by simp)
  obtain ⟨⟨kept,created,markets,unfilled,moved⟩,nonce,balances⟩ := respects
  refine ⟨⟨fun orderId order found owned => ?_,fun orderId order absent found => ?_,fun marketId => ?_,
    fun none marketId => (positions marketId).trans (unfilled none marketId),fun marketId small => ?_⟩,?_,fun assetId => ?_⟩
  · rw [orders]
    exact kept orderId order found owned
  · rw [orders] at found
    exact created orderId order absent found
  · rw [positions]
    exact markets marketId
  · have alike : dropped e.state (after.state.incrementNonce tx.sender) account marketId =
        dropped e.state after.state account marketId := Finset.sum_congr rfl fun orderId _ => by rw [orders]
    rw [alike] at small ⊢
    rw [positions]
    exact moved marketId small
  · rw [Nonces.getNonce_incrementNonce,if_neg other]
    exact nonce
  · have same : (after.state.incrementNonce tx.sender).getBalance account assetId = after.state.getBalance account assetId :=
      congrArg (Option.getD · 0) (agree (.balance account assetId) (by simp))
    rw [same]
    exact balances assetId

theorem respects_refl (tx : Transaction) (account : Address) (e : Engine) : Respects tx account e e where
  toMakesOnly := makesOnly_of_same (fun _ => rfl) fun _ => rfl
  nonce := rfl
  balances _ := .inl (Nat.le_refl _)

end Payloads

-- No transaction touches the account of another: its orders trade as makers and its positions follow
-- them, it may be paid, and only an operator of the bridge takes from it. Without the signature of the
-- sender nothing changes at all.
theorem others_untouched (codec : Codec) (node : Node) (reached : Reachable node.engine)
    (drops : node.engine.state.DropsPositions) (fits : node.engine.state.PositionsFit) (tx : Transaction) :
    ((exec (execute codec tx) node).1 ≠ .error (.engine .overflow) → ∀ account, account ≠ tx.sender →
      Respects tx account node.engine (exec (execute codec tx) node).2.engine) ∧
    (recoverSigner codec tx ≠ .ok tx.sender → (exec (execute codec tx) node).2 = node) := by
  obtain ⟨ledger,shown⟩ := Atomicity.reachable_represents reached
  constructor
  · intro inWord account other
    by_cases accepted : Accepted codec tx node
    case neg =>
      obtain ⟨error,failed⟩ := execute_rejected accepted
      rw [failed]
      exact respects_refl tx account node.engine
    rw [execute_accepted accepted] at inWord ⊢
    cases ran : exec (executeTxPayloadReadonly tx) node.engine with
    | mk result e =>
      rw [ran] at inWord
      have paid : Respects tx account node.engine (exec (executeTxPayloadReadonly tx) node.engine).2 := by
        refine payload_respects shown drops fits other ?_
        rw [ran]
        cases result with
        | error error => exact inWord
        | ok _ => exact fun failed => by cases failed
      rw [ran] at paid
      cases result with
      | error error => exact paid
      | ok _ => exact respects_counted paid other
  · intro unsigned
    obtain ⟨error,failed⟩ := execute_rejected fun accepted => unsigned accepted.signed
    rw [failed]

theorem drops_of_flat {s : StateManager} (flat : ∀ address marketId, s.committed (.position address marketId) = none) :
    s.DropsPositions := by
  intro address marketId
  rw [StateManager.getPosition_deletePosition,if_pos ⟨rfl,rfl⟩,flat]

theorem booked_drops (booked : OpenInterest.Booked e) : e.state.DropsPositions := drops_of_flat booked.flat

theorem booked_fits (booked : OpenInterest.Booked e) (sizes : OpenInterest.SizesFit e.context) : e.state.PositionsFit := by
  intro address marketId position found
  have small := sizes e.context (List.prefix_refl _) address marketId
  rw [← booked.positions,found] at small
  cases side : position.isLong <;> simpa [signedSize,signed,side] using small

def sales : List Call :=
  [.placeOrder Bench.alice Bench.ask,.placeOrder Bench.bob (Bench.limit true 100 2 .gtc)]

def sold : Node := ⟨(Engine.new Bench.state).run sales,fun _ _ => none⟩

def buysRest : Transaction := ⟨0,Bench.carol,.placeOrder (Bench.limit true 100 3 .gtc),.rawBorsh 0⟩

theorem sold_sizes : OpenInterest.SizesFit sold.engine.context := OpenInterest.sizesFit_of_volume (by decide +kernel)

theorem sold_booked : OpenInterest.Booked sold.engine := by
  have sizes := sold_sizes
  dsimp only [sold] at sizes ⊢
  exact OpenInterest.run_booked (.start Bench.noOrders) rfl Bench.noPositions (by decide) (by decide +kernel) sizes

theorem sold_reachable : Reachable sold.engine := by
  dsimp only [sold]
  exact Atomicity.reachable_run (.start Bench.noOrders) sales

theorem sold_drops : sold.engine.state.DropsPositions := booked_drops sold_booked

theorem sold_fits : sold.engine.state.PositionsFit := booked_fits sold_booked sold_sizes

theorem others_untouched_maker :
    let after := (exec (execute Bench.trusting buysRest) sold).2.engine
    sold.engine.state.getPosition Bench.alice 0 = some ⟨2,100,false,20,0⟩ ∧
      after.state.getPosition Bench.alice 0 = some ⟨5,100,false,50,0⟩ ∧
      dropped sold.engine.state after.state Bench.alice 0 = -3 ∧ Respects buysRest Bench.alice sold.engine after := by
  intro after
  have untouched := others_untouched Bench.trusting sold sold_reachable sold_drops sold_fits buysRest
  exact ⟨by decide +kernel,by decide +kernel,by decide +kernel,untouched.1 (by decide +kernel) Bench.alice (by decide)⟩

end Isolation
end Pranklin
