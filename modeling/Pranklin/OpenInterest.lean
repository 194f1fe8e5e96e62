import Mathlib.Algebra.BigOperators.Group.Finset.Piecewise
import Mathlib.Algebra.BigOperators.Ring.Finset
import Pranklin.Atomicity

namespace Pranklin
open Words Effect OrderService

def signed (isLong : Bool) (size : Nat) : Int := if isLong then size else -size

def signedSize (position : Option Position) : Int :=
  position.elim 0 fun position => signed position.isLong position.size

def Event.exposes (address : Address) (marketId : Nat) : Event → Int
  | .orderFilled _ _ maker taker market _ size takerIsBuy _ _ =>
    if market = marketId then
      (if taker = address then signed takerIsBuy size else 0) + (if maker = address then signed (!takerIsBuy) size else 0)
    else 0
  | _ => 0

def exposure (events : List Event) (address : Address) (marketId : Nat) : Int :=
  (events.map (Event.exposes address marketId)).sum

@[simp] theorem exposure_append (front back : List Event) (address : Address) (marketId : Nat) :
    exposure (front ++ back) address marketId = exposure front address marketId + exposure back address marketId := by
  simp [exposure]

namespace OpenInterest
variable {e after : Engine} {ledger : Ledger} {trader : Address} {request : PlaceOrderTx} {calls : List Call}

theorem traded_signed {position updated : Option Position}
    (traded : PositionManager.traded position size price isBuy bps = .ok updated)
    (fits : (signedSize position + signed isBuy size).natAbs < 2 ^ 64) :
    signedSize updated = signedSize position + signed isBuy size := by
  rcases PositionManager.traded_cases traded with
    ⟨rfl,new,rfl,side,sized⟩ | ⟨before,new,rfl,same,rfl,side,sized⟩ |
      ⟨before,new,rfl,opposite,smaller,rfl,side,sized⟩ | ⟨before,rfl,opposite,equal,rfl⟩ |
      ⟨before,new,rfl,opposite,larger,rfl,side,sized⟩
  · simp [signedSize,side,sized]
  · simp only [signedSize,Option.elim_some,same,side] at fits ⊢
    rcases sized with sized | ⟨rfl,nothing⟩
    · have room : before.size + size < 2 ^ 64 := by
        cases isBuy <;> simp only [signed,if_true,Bool.false_eq_true,if_false] at fits <;> omega
      rw [sized,wrap_of_lt room]
      cases isBuy with
      | false => simp [signed]; omega
      | true => simp [signed]
    · cases isBuy <;> (simp [signed]; omega)
  · simp only [signedSize,Option.elim_some,opposite,side,sized]
    cases isBuy <;> simp [signed] <;> omega
  · simp only [signedSize,Option.elim_some,Option.elim_none,opposite,equal]
    cases isBuy <;> simp [signed]
  · simp only [signedSize,Option.elim_some,opposite,side,sized]
    cases isBuy <;> simp [signed] <;> omega

-- A deletion uncovers what was last committed.
theorem updatePosition_uncovers
    (ran : exec (PositionManager.updatePosition trader marketId size price isBuy bps) e = (.ok (),after)) :
    ∃ updated, PositionManager.traded (e.state.getPosition trader marketId) size price isBuy bps = .ok updated ∧
      (∀ reader read, after.state.getPosition reader read =
        if reader = trader ∧ read = marketId then updated.or (e.state.committed (.position trader marketId))
        else e.state.getPosition reader read) ∧
      (∀ key, after.state.committed key = e.state.committed key) ∧ after.context = e.context := by
  rcases PositionManager.updatePosition_exec trader marketId size price isBuy bps e with failed | ⟨updated,traded,done⟩
  · rw [failed] at ran; cases ran
  · rw [done] at ran
    cases ran
    refine ⟨updated,traded,?_,?_,rfl⟩
    · intro reader read
      cases updated with
      | some position => exact StateManager.getPosition_setPosition _ _ _ _ _ _
      | none => exact StateManager.getPosition_deletePosition _ _ _ _ _
    · intro key
      cases updated <;> simp

theorem updatePosition_reads (flat : e.state.committed (.position trader marketId) = none)
    (ran : exec (PositionManager.updatePosition trader marketId size price isBuy bps) e = (.ok (),after)) :
    ∃ updated, PositionManager.traded (e.state.getPosition trader marketId) size price isBuy bps = .ok updated ∧
      (∀ reader read, after.state.getPosition reader read =
        if reader = trader ∧ read = marketId then updated else e.state.getPosition reader read) ∧
      (∀ key, after.state.committed key = e.state.committed key) ∧ after.context = e.context := by
  obtain ⟨updated,traded,reads,rest⟩ := updatePosition_uncovers ran
  rw [flat,Option.or_none] at reads
  exact ⟨updated,traded,reads,rest⟩

-- Every position is what the reported fills add up to, and no position has been committed.
structure Booked (e : Engine) : Prop where
  flat : ∀ address marketId, e.state.committed (.position address marketId) = none
  positions : ∀ address marketId, signedSize (e.state.getPosition address marketId) = exposure e.context address marketId

theorem exposes_fillEvent (fill : Fill) (address : Address) (marketId : Nat) :
    exposure [fillEvent fill] address marketId =
      if fill.marketId = marketId then
        (if fill.taker = address then signed fill.takerIsBuy fill.size else 0) +
          (if fill.maker = address then signed (!fill.takerIsBuy) fill.size else 0)
      else 0 := by
  simp [exposure,fillEvent,Event.exposes]

theorem Booked.processFill (booked : Booked e) (strangers : fill.maker ≠ fill.taker)
    (ran : exec (processFill market fill) e = (.ok (),after))
    (fits : ∀ address marketId, (exposure after.context address marketId).natAbs < 2 ^ 64) : Booked after := by
  have context := processFill_context ran
  rcases processFill_cases ran with failed | ⟨first,second,left,right,_,rfl⟩
  · cases failed
  obtain ⟨taker,tradedTaker,readsTaker,committedTaker,_⟩ := updatePosition_reads (booked.flat _ _) left
  obtain ⟨maker,tradedMaker,readsMaker,committedMaker,_⟩ :=
    updatePosition_reads ((committedTaker _).trans (booked.flat _ _)) right
  -- The maker's position is another one, so the first update has not moved it.
  rw [readsTaker,if_neg fun both => strangers both.1] at tradedMaker
  have total : ∀ address marketId, exposure (second.context ++ [fillEvent fill]) address marketId =
      exposure e.context address marketId + exposure [fillEvent fill] address marketId := by
    intro address marketId
    rw [show second.context ++ [fillEvent fill] = e.context ++ [fillEvent fill] from context,exposure_append]
  refine ⟨fun address marketId => ?_,fun address marketId => ?_⟩
  · exact (committedMaker _).trans ((committedTaker _).trans (booked.flat address marketId))
  · have small := fits address marketId
    rw [total,← booked.positions,exposes_fillEvent] at small
    rw [total,← booked.positions,exposes_fillEvent]
    change signedSize (second.state.getPosition address marketId) = _
    rw [readsMaker,readsTaker]
    by_cases here : fill.marketId = marketId
    · subst here
      by_cases isMaker : address = fill.maker
      · subst isMaker
        have apart : ¬fill.taker = fill.maker := Ne.symm strangers
        simp only [and_self,if_true,apart,if_false,zero_add] at small ⊢
        exact traded_signed tradedMaker small
      · by_cases isTaker : address = fill.taker
        · subst isTaker
          simp only [Ne.symm strangers,strangers,and_true,if_true,if_false,add_zero] at small ⊢
          exact traded_signed tradedTaker small
        · simp [isMaker,isTaker,Ne.symm isMaker,Ne.symm isTaker]
    · simp [here,Ne.symm here]

-- No position of the run leaves its word: at every point of the report the net fills of
-- every account, which are the size of its position, stay below 2^64.
def SizesFit (events : List Event) : Prop :=
  ∀ front, front <+: events → ∀ address marketId, (exposure front address marketId).natAbs < 2 ^ 64

theorem SizesFit.earlier (fits : SizesFit events) (earlier : front <+: events) : SizesFit front :=
  fun shorter inside => fits shorter (inside.trans earlier)

def volume : Event → Nat
  | .orderFilled _ _ _ _ _ _ size _ _ _ => 2 * size
  | _ => 0

theorem natAbs_exposes_le (event : Event) (address : Address) (marketId : Nat) :
    (event.exposes address marketId).natAbs ≤ volume event := by
  cases event with
  | orderFilled makerOrderId takerOrderId maker taker market price size takerIsBuy makerFee takerFee =>
    simp only [Event.exposes,volume]
    cases takerIsBuy <;> simp only [signed,Bool.not_true,Bool.not_false,Bool.false_eq_true,if_true,if_false] <;>
      split <;> (try split) <;> (try split) <;> omega
  | _ => exact Nat.le_refl 0

theorem natAbs_exposure_le (events : List Event) (address : Address) (marketId : Nat) :
    (exposure events address marketId).natAbs ≤ (events.map volume).sum := by
  induction events with
  | nil => exact Nat.le_refl 0
  | cons event events ih =>
    have first := natAbs_exposes_le event address marketId
    simp only [exposure,List.map_cons,List.sum_cons] at ih ⊢
    omega

theorem sizesFit_of_volume (small : (events.map volume).sum < 2 ^ 64) : SizesFit events := by
  rintro front ⟨back,rfl⟩ address marketId
  have bound := natAbs_exposure_le front address marketId
  rw [List.map_append,List.sum_append] at small
  omega

theorem Booked.processFills (booked : Booked e) (strangers : ∀ fill ∈ fills, fill.maker ≠ fill.taker)
    (ran : exec (processFills market fills) e = (.ok (),after)) (fits : SizesFit after.context) : Booked after := by
  induction fills generalizing e with
  | nil => cases ran; exact booked
  | cons fill fills ih =>
    obtain ⟨_,middle,first,rest⟩ := exec_bind_ok ran
    have grows : middle.context <+: after.context := ⟨_,(processFills_context rest).symm⟩
    have next := booked.processFill (strangers fill List.mem_cons_self) first (fits middle.context grows)
    exact ih next (fun other inside => strangers other (List.mem_cons_of_mem _ inside)) rest

theorem Booked.of_reads (booked : Booked e)
    (positions : ∀ address marketId, after.state.getPosition address marketId = e.state.getPosition address marketId)
    (committed : ∀ key, after.state.committed key = e.state.committed key)
    (context : ∀ address marketId, exposure after.context address marketId = exposure e.context address marketId) :
    Booked after where
  flat address marketId := (committed _).trans (booked.flat address marketId)
  positions address marketId := by rw [positions,context]; exact booked.positions address marketId

theorem takeAll_positions (d : Desk) (takes : List Take) :
    (∀ address marketId, (d.takeAll takes).state.getPosition address marketId = d.state.getPosition address marketId) ∧
      ∀ key, (d.takeAll takes).state.committed key = d.state.committed key := by
  induction takes generalizing d with
  | nil => exact ⟨fun _ _ => rfl,fun _ => rfl⟩
  | cons take takes ih =>
    obtain ⟨positions,committed⟩ := ih (d.take take)
    rw [Desk.takeAll_cons]
    refine ⟨fun address marketId => (positions address marketId).trans ?_,fun key => (committed key).trans ?_⟩ <;>
      · rw [Desk.take]
        split <;> simp [Desk.reduce,Desk.remove]

theorem matched_positions (matched : Matched e trader request market middle) :
    (∀ address marketId, middle.state.getPosition address marketId = e.state.getPosition address marketId) ∧
      ∀ key, middle.state.committed key = e.state.committed key := by
  have state : middle.state = ((issued e).desk.takeAll (takesOf e trader request)).state := congrArg Desk.state matched.desk
  obtain ⟨positions,committed⟩ := takeAll_positions (issued e).desk (takesOf e trader request)
  refine ⟨fun address marketId => ?_,fun key => ?_⟩
  · rw [state,positions]; exact StateManager.get_set_ne _ _ (by simp)
  · rw [state,committed]; rfl

theorem Booked.matched (booked : Booked e) (matched : Matched e trader request market middle) : Booked middle := by
  obtain ⟨positions,committed⟩ := matched_positions matched
  exact booked.of_reads positions committed fun _ _ => by rw [matched.context]

theorem settleOrder_positions (ran : exec (settleOrder order timeInForce) e = (.ok (),after)) :
    (∀ address marketId, after.state.getPosition address marketId = e.state.getPosition address marketId) ∧
      (∀ key, after.state.committed key = e.state.committed key) ∧ after.context = e.context := by
  unfold settleOrder at ran
  split at ran
  · cases ran; exact ⟨fun _ _ => by simp,fun _ => by simp,rfl⟩
  · cases timeInForce with
    | gtc | postOnly => cases ran; exact ⟨fun _ _ => by simp,fun _ => by simp,rfl⟩
    | ioc => cases ran; exact ⟨fun _ _ => by simp,fun _ => by simp,rfl⟩
    | fok => cases ran

theorem processFill_stranger {account : Address} (apart : fill.taker ≠ account ∧ fill.maker ≠ account)
    (ran : exec (processFill market fill) e = (.ok (),after)) (marketId : Nat) :
    after.state.getPosition account marketId = e.state.getPosition account marketId := by
  rcases processFill_cases ran with failed | ⟨first,second,left,right,_,rfl⟩
  · cases failed
  obtain ⟨_,_,readsTaker,_⟩ := updatePosition_uncovers left
  obtain ⟨_,_,readsMaker,_⟩ := updatePosition_uncovers right
  change second.state.getPosition account marketId = _
  rw [readsMaker,if_neg fun both => apart.2 both.1.symm,readsTaker,if_neg fun both => apart.1 both.1.symm]

theorem processFills_stranger {account : Address} (apart : ∀ fill ∈ fills, fill.taker ≠ account ∧ fill.maker ≠ account)
    (ran : exec (processFills market fills) e = (.ok (),after)) (marketId : Nat) :
    after.state.getPosition account marketId = e.state.getPosition account marketId := by
  induction fills generalizing e with
  | nil => cases ran; rfl
  | cons fill rest ih =>
    obtain ⟨_,middle,first,last⟩ := exec_bind_ok ran
    exact (ih (fun other inside => apart other (List.mem_cons_of_mem _ inside)) last).trans
      (processFill_stranger (apart fill List.mem_cons_self) first marketId)

theorem fillsOf_strangers (e : Engine) (trader : Address) (request : PlaceOrderTx) :
    ∀ fill ∈ fillsOf e trader request, fill.maker ≠ fill.taker := by
  intro fill inside
  obtain ⟨take,member,rfl⟩ := List.mem_map.mp inside
  exact of_decide_eq_true (Bool.and_eq_true_iff.mp (OrderbookManager.mem_takesOf member).2.1).1

theorem Booked.placed (booked : Booked e) (matched : Matched e trader request market middle)
    (ran : exec (OrderService.processFills market (fillsOf e trader request)) middle = (.ok (),filled))
    (fits : SizesFit (filled.context ++ [placedEvent e trader request])) :
    Booked {filled with context:=filled.context ++ [placedEvent e trader request]} := by
  have done := (booked.matched matched).processFills (fillsOf_strangers e trader request) ran
    (fits.earlier (List.prefix_append _ _))
  refine done.of_reads (fun _ _ => rfl) (fun _ => rfl) fun address marketId => ?_
  rw [exposure_append]
  exact add_zero _

theorem placed_grows (matched : Matched e trader request market middle)
    (ran : exec (OrderService.processFills market (fillsOf e trader request)) middle = (.ok (),filled)) :
    e.context <+: filled.context ++ [placedEvent e trader request] := by
  rw [processFills_context ran,matched.context,List.append_assoc]
  exact List.prefix_append _ _

theorem after_grows (shown : Represents e.desk ledger) {call : Call} (inWord : e.result call ≠ .error .overflow) :
    e.context <+: (e.after call).context := by
  cases call.outcome shown with
  | places trader request result placing placement fails returns =>
    generalize e.after call = last at placement
    cases placement with
    | refused error reason => exact List.prefix_refl _
    | turnedAway fails => exact List.prefix_refl _
    | broken matched ran => exact absurd (fails _ (congrArg Except.error (processFills_overflow ran))) inWord
    | killed matched ran short kill => exact placed_grows matched ran
    | settled matched ran ended => rw [(settleOrder_positions ended).2.2]; exact placed_grows matched ran
  | idles placing same fails => rw [same]
  | cancels trader cancel result placing cancellation returns =>
    generalize e.after call = last at cancellation
    cases cancellation with
    | refused error reason => exact List.prefix_refl _
    | cancelled order found active => exact List.prefix_append _ _
  | liquidates ledger' liquidation placing path context returns => rw [context]

theorem Booked.call (booked : Booked e) (shown : Represents e.desk ledger) {call : Call}
    (trading : call.liquidates = false) (inWord : e.result call ≠ .error .overflow)
    (fits : SizesFit (e.after call).context) : Booked (e.after call) := by
  cases call.outcome shown with
  | places trader request result placing placement fails returns =>
    generalize e.after call = last at placement fits
    cases placement with
    | refused error reason => exact booked
    | turnedAway fails =>
      exact booked.of_reads (fun _ _ => StateManager.get_set_ne _ _ (by simp)) (fun _ => rfl) fun _ _ => rfl
    | broken matched ran => exact absurd (fails _ (congrArg Except.error (processFills_overflow ran))) inWord
    | killed matched ran short kill => exact booked.placed matched ran fits
    | settled matched ran ended =>
      obtain ⟨positions,committed,context⟩ := settleOrder_positions ended
      rw [context] at fits
      exact (booked.placed matched ran fits).of_reads positions committed fun _ _ => by rw [context]
  | idles placing same fails => rw [same]; exact booked
  | cancels trader cancel result placing cancellation returns =>
    generalize e.after call = last at cancellation
    cases cancellation with
    | refused error reason => exact booked
    | cancelled order found active =>
      refine booked.of_reads (fun _ _ => by simp) (fun _ => by simp) fun address marketId => ?_
      rw [exposure_append]
      exact add_zero _
  | liquidates ledger' liquidation placing path context returns =>
    rw [trading] at liquidation
    cases liquidation

theorem run_booked (reached : Reachable e) (silent : e.context = [])
    (empty : ∀ address marketId, e.state.getPosition address marketId = none)
    (trading : ∀ call ∈ calls, call.liquidates = false) (inWord : e.InWord calls)
    (fits : SizesFit (e.run calls).context) : Booked (e.run calls) := by
  induction calls using List.reverseRecOn with
  | nil =>
    refine ⟨fun address marketId => StateManager.committed_of_get_none (empty address marketId),?_⟩
    intro address marketId
    change signedSize (e.state.getPosition address marketId) = exposure e.context address marketId
    rw [empty,silent]
    rfl
  | append_singleton calls call ih =>
    obtain ⟨earlier,last⟩ := Engine.inWord_append.mp inWord
    obtain ⟨ledger,shown⟩ := Atomicity.reachable_represents (Atomicity.reachable_run reached calls)
    rw [Engine.run_append] at fits ⊢
    have booked := ih (fun other inside => trading other (List.mem_append_left _ inside)) earlier
      (fits.earlier (after_grows shown last))
    exact booked.call shown (trading call (List.mem_append_right _ (List.mem_singleton_self _))) last fits

def longSize (position : Option Position) : Nat :=
  position.elim 0 fun position => if position.isLong then position.size else 0

def shortSize (position : Option Position) : Nat :=
  position.elim 0 fun position => if position.isLong then 0 else position.size

theorem signedSize_eq (position : Option Position) :
    signedSize position = (longSize position : Int) - (shortSize position : Int) := by
  cases position with
  | none => rfl
  | some position => cases side : position.isLong <;> simp [signedSize,signed,longSize,shortSize,side]

theorem signed_not (isLong : Bool) (size : Nat) : signed isLong size + signed (!isLong) size = 0 := by
  cases isLong <;> simp [signed]

-- Every fill adds to one account what it takes from the other.
theorem sum_exposes (event : Event) (marketId : Nat) : ∑ address : Address, event.exposes address marketId = 0 := by
  cases event with
  | orderFilled makerOrderId takerOrderId maker taker market price size takerIsBuy makerFee takerFee =>
    simp only [Event.exposes]
    split
    · rw [Finset.sum_add_distrib,Finset.sum_ite_eq,Finset.sum_ite_eq]
      simp [signed_not]
    · exact Finset.sum_const_zero
  | _ => exact Finset.sum_const_zero

theorem sum_exposure (events : List Event) (marketId : Nat) :
    ∑ address : Address, exposure events address marketId = 0 := by
  induction events with
  | nil => exact Finset.sum_const_zero
  | cons event events ih =>
    simp only [exposure,List.map_cons,List.sum_cons] at ih ⊢
    rw [Finset.sum_add_distrib,sum_exposes,ih,add_zero]

-- Whatever is traded, cancelled or closed, and however the calls end short of an
-- overflow, the long side of every market is as large as the short side.
theorem run_open_interest (reached : Reachable e) (silent : e.context = [])
    (empty : ∀ address marketId, e.state.getPosition address marketId = none)
    (trading : ∀ call ∈ calls, call.liquidates = false) (inWord : e.InWord calls)
    (fits : SizesFit (e.run calls).context) (marketId : Nat) :
    ∑ address : Address, longSize ((e.run calls).state.getPosition address marketId) =
      ∑ address : Address, shortSize ((e.run calls).state.getPosition address marketId) := by
  have booked := run_booked reached silent empty trading inWord fits
  have net : ∑ address : Address, ((longSize ((e.run calls).state.getPosition address marketId) : Int) -
      (shortSize ((e.run calls).state.getPosition address marketId) : Int)) = 0 := by
    rw [← sum_exposure (e.run calls).context marketId]
    refine Finset.sum_congr rfl fun address _ => ?_
    rw [← signedSize_eq,booked.positions]
  rw [Finset.sum_sub_distrib,sub_eq_zero,← Nat.cast_sum,← Nat.cast_sum] at net
  exact Nat.cast_injective net

theorem run_open_interest_flipped :
    let calls : List Call := [.placeOrder Bench.alice (Bench.limit false 100 5 .gtc),
      .placeOrder Bench.bob (Bench.limit true 100 3 .gtc),.placeOrder Bench.carol (Bench.limit true 100 9 .fok),
      .placeOrder Bench.bob (Bench.limit false 100 4 .gtc),.placeOrder Bench.alice (Bench.limit true 100 4 .gtc),
      .closePosition Bench.alice ⟨0,0⟩]
    let e := (Engine.new Bench.state).run calls
    e.state.getPosition Bench.bob 0 = some ⟨1,100,false,10,0⟩ ∧
      ∑ address : Address, longSize (e.state.getPosition address 0) =
        ∑ address : Address, shortSize (e.state.getPosition address 0) := by
  intro calls
  exact ⟨by decide +kernel,run_open_interest (.start Bench.noOrders) rfl Bench.noPositions (by decide)
    (by decide +kernel) (sizesFit_of_volume (by decide +kernel)) 0⟩

end OpenInterest
end Pranklin
