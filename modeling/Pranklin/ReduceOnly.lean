import Pranklin.Isolation

namespace Pranklin
open Words Effect OrderService OrderbookManager

-- A signed size that comes closer to zero and not past it: the same side and less of it, or nothing.
def Reduces (before after : Int) : Prop := 0 ≤ after ∧ after < before ∨ before < after ∧ after ≤ 0

instance (before after : Int) : Decidable (Reduces before after) := inferInstanceAs (Decidable (_ ∨ _))

structure Processed where
  fill : Fill
  before : Engine
  after : Engine

def Processed.Reduces (step : Processed) (owner : Address) : Prop :=
  Pranklin.Reduces (signedSize (step.before.state.getPosition owner step.fill.marketId))
    (signedSize (step.after.state.getPosition owner step.fill.marketId))

instance (step : Processed) (owner : Address) : Decidable (step.Reduces owner) :=
  inferInstanceAs (Decidable (Pranklin.Reduces _ _))

-- The fills that `process_fills` gets through, up to the first that fails.
def processed (market : Market) : List Fill → Engine → List Processed
  | [],_ => []
  | fill :: rest,e =>
    match exec (processFill market fill) e with
    | (.error _,_) => []
    | (.ok _,after) => ⟨fill,e,after⟩ :: processed market rest after

namespace OrderService

def processedFills (e : Engine) (trader : Address) (request : PlaceOrderTx) : List Processed :=
  match validateOrder e.state trader request with
  | .error _ => []
  | .ok market =>
    match exec takeOrderId e with
    | (.error _,_) => []
    | (.ok orderId,e) =>
      match exec (matchIncoming (newOrder trader request orderId e.state.version)) e with
      | (.error _,_) => []
      | (.ok fills,e) => processed market fills e

end OrderService

-- Whoever has a reduce-only order in a fill of the call, as its taker or as its maker, is left
-- with less of the same position.
def Call.ReducesOnly (e : Engine) (call : Call) : Prop :=
  ∀ trader request, call.placing e = some (trader,request) → ∀ step ∈ processedFills e trader request,
    (request.reduceOnly = true → step.Reduces trader) ∧
      ∀ maker, e.state.getOrder step.fill.makerOrderId = some maker → maker.reduceOnly = true → step.Reduces maker.owner

namespace ReduceOnly
variable {e middle after : Engine} {ledger : Ledger} {trader owner account : Address} {request : PlaceOrderTx}
  {market : Market} {fill : Fill} {fills front : List Fill} {marketId size : Nat} {isBuy isLong : Bool}

def offered (line : List Order) : Nat := (line.map Order.remainingSize).sum

def bite (size : Nat) (front : List Order) (maker : Order) : Nat := min (size - offered front) maker.remainingSize

-- Closing the last of a position leaves what `delete_position` uncovers: the committed position.
def Closes (e : Engine) (owner : Address) (marketId : Nat) (isLong : Bool) (size : Nat) : Prop :=
  Reduces (signed isLong size) (signedSize (e.state.committed (.position owner marketId)))

def Backed (e : Engine) (owner : Address) (marketId : Nat) (isLong : Bool) (gone size : Nat) : Prop :=
  ∃ position, e.state.getPosition owner marketId = some position ∧ position.isLong = isLong ∧
    gone + size ≤ position.size ∧ (gone + size = position.size → Closes e owner marketId isLong size)

structure Sound (e : Engine) (trader : Address) (request : PlaceOrderTx) (front : List Order) (maker : Order) : Prop where
  made : maker.reduceOnly = true → Backed e maker.owner request.marketId request.isBuy
    (offered (front.filter (·.owner = maker.owner))) (bite request.size front maker)
  taken : request.reduceOnly = true → ∀ position, e.state.getPosition trader request.marketId = some position →
    offered front + bite request.size front maker = position.size →
    Closes e trader request.marketId position.isLong (bite request.size front maker)

end ReduceOnly

def Call.WithinPositions (e : Engine) (call : Call) : Prop :=
  ∀ trader request, call.placing e = some (trader,request) → Admitted e trader request →
    ∀ front maker back, Prices.metLine e trader request = front ++ maker :: back →
      ReduceOnly.offered front < request.size → ReduceOnly.Sound e trader request front maker

namespace ReduceOnly
variable {e middle after : Engine} {ledger : Ledger} {trader owner account : Address} {request : PlaceOrderTx}
  {market : Market} {fill : Fill} {fills front : List Fill} {marketId size : Nat} {isBuy isLong : Bool}

section Line

theorem offered_filter_le (line : List Order) (chosen : Order → Bool) : offered (line.filter chosen) ≤ offered line :=
  (List.filter_sublist.map _).sum_le_sum fun _ _ => Nat.zero_le _

theorem walk_split {front back : List Take} {take : Take} {line : List Order}
    (walked : walk size line = front ++ take :: back) :
    ∃ makers rest, line = makers ++ take.maker :: rest ∧ front = makers.map (fun maker => ⟨maker,maker.remainingSize⟩) ∧
      offered makers < size ∧ take.size = bite size makers take.maker := by
  induction front generalizing size line with
  | nil =>
    cases line with
    | nil => simp [walk] at walked
    | cons maker rest =>
      by_cases spent : size = 0
      · simp [walk,spent] at walked
      · simp only [walk,spent,if_false,List.nil_append,List.cons.injEq] at walked
        obtain ⟨rfl,_⟩ := walked
        exact ⟨[],rest,rfl,rfl,Nat.pos_of_ne_zero spent,rfl⟩
  | cons first front ih =>
    cases line with
    | nil => simp [walk] at walked
    | cons maker rest =>
      by_cases spent : size = 0
      · simp [walk,spent] at walked
      · simp only [walk,spent,if_false,List.cons_append,List.cons.injEq] at walked
        obtain ⟨rfl,walked⟩ := walked
        obtain ⟨makers,rest,rfl,rfl,reached,bitten⟩ := ih walked
        have whole : min size maker.remainingSize = maker.remainingSize := by omega
        rw [whole] at reached bitten ⊢
        have total : offered (maker :: makers) = maker.remainingSize + offered makers := by simp [offered]
        refine ⟨maker :: makers,rest,rfl,rfl,by omega,?_⟩
        rw [bitten,bite,bite,total,Nat.sub_sub]

theorem walk_reaches {makers rest : List Order} {maker : Order} (reached : offered makers < size) :
    walk size (makers ++ maker :: rest) = makers.map (fun maker => ⟨maker,maker.remainingSize⟩) ++
      ⟨maker,bite size makers maker⟩ :: walk (size - offered makers - bite size makers maker) rest := by
  induction makers generalizing size with
  | nil =>
    have unspent : size ≠ 0 := Nat.ne_of_gt (Nat.zero_lt_of_lt reached)
    simp [walk,unspent,bite,offered]
  | cons first makers ih =>
    have unspent : size ≠ 0 := by omega
    have total : offered (first :: makers) = first.remainingSize + offered makers := by simp [offered]
    have whole : min size first.remainingSize = first.remainingSize := by omega
    simp only [List.cons_append,walk,unspent,if_false,List.map_cons,whole]
    rw [ih (by omega),bite,bite,total,Nat.sub_sub size]

end Line

section Position

theorem traded_covered {held : Position} {updated : Option Position} (opposite : held.isLong = (!isBuy))
    (covered : size ≤ held.size) (ran : PositionManager.traded (some held) size price isBuy bps = .ok updated) :
    (size < held.size ∧ ∃ left, updated = some left ∧ left.isLong = held.isLong ∧ left.size = held.size - size) ∨
      size = held.size ∧ updated = none := by
  rcases PositionManager.traded_cases ran with
    ⟨none_,_⟩ | ⟨before,_,same,side,_⟩ | ⟨before,_,same,_,smaller,_⟩ | ⟨before,same,_,equal,gone⟩ |
      ⟨before,left,same,_,larger,rfl,side,sized⟩
  · cases none_
  · cases same
    rw [opposite] at side
    cases isBuy <;> cases side
  · cases same
    omega
  · cases same
    exact .inr ⟨equal.symm,gone⟩
  · cases same
    exact .inl ⟨larger,left,rfl,side,sized⟩

def Party (account : Address) (isBuy : Bool) (fill : Fill) : Prop :=
  fill.taker = account ∧ fill.takerIsBuy = isBuy ∨ fill.maker = account ∧ (!fill.takerIsBuy) = isBuy

theorem processFill_party (strangers : fill.maker ≠ fill.taker) (party : Party account isBuy fill)
    (ran : exec (processFill market fill) e = (.ok (),after)) :
    ∃ updated, PositionManager.traded (e.state.getPosition account fill.marketId) fill.size fill.price isBuy
        market.initialMarginBps = .ok updated ∧
      after.state.getPosition account fill.marketId = updated.or (e.state.committed (.position account fill.marketId)) := by
  rcases processFill_cases ran with failed | ⟨first,second,left,right,_,rfl⟩
  · cases failed
  obtain ⟨taker,tradedTaker,readsTaker,committedTaker,_⟩ := OpenInterest.updatePosition_uncovers left
  obtain ⟨maker,tradedMaker,readsMaker,_,_⟩ := OpenInterest.updatePosition_uncovers right
  change ∃ updated, _ ∧ second.state.getPosition account fill.marketId = _
  rcases party with ⟨rfl,rfl⟩ | ⟨rfl,rfl⟩
  · refine ⟨taker,tradedTaker,?_⟩
    rw [readsMaker,if_neg fun both => strangers both.1.symm,readsTaker,if_pos ⟨rfl,rfl⟩]
  · rw [readsTaker,if_neg fun both => strangers both.1] at tradedMaker
    refine ⟨maker,tradedMaker,?_⟩
    rw [readsMaker,if_pos ⟨rfl,rfl⟩,committedTaker]

theorem processFill_committed (ran : exec (processFill market fill) e = (.ok (),after)) (key : StateKey) :
    after.state.committed key = e.state.committed key := by
  rcases processFill_cases ran with failed | ⟨first,second,left,right,_,rfl⟩
  · cases failed
  obtain ⟨_,_,_,committedTaker,_⟩ := OpenInterest.updatePosition_uncovers left
  obtain ⟨_,_,_,committedMaker,_⟩ := OpenInterest.updatePosition_uncovers right
  exact (committedMaker key).trans (committedTaker key)

def Held (e : Engine) (account : Address) (marketId : Nat) (isLong : Bool) (size : Nat) : Prop :=
  ∃ position, e.state.getPosition account marketId = some position ∧ position.isLong = isLong ∧ position.size = size

theorem processFill_held (held : Held e account fill.marketId isLong size) (strangers : fill.maker ≠ fill.taker)
    (party : Party account (!isLong) fill) (covered : fill.size ≤ size)
    (ran : exec (processFill market fill) e = (.ok (),after)) :
    (fill.size < size ∧ Held after account fill.marketId isLong (size - fill.size)) ∨
      fill.size = size ∧
        after.state.getPosition account fill.marketId = e.state.committed (.position account fill.marketId) := by
  obtain ⟨position,found,rfl,rfl⟩ := held
  obtain ⟨updated,traded,reads⟩ := processFill_party strangers party ran
  rw [found] at traded
  rcases traded_covered (by simp) covered traded with ⟨larger,left,rfl,side,sized⟩ | ⟨whole,rfl⟩
  · exact .inl ⟨larger,left,reads,side,sized⟩
  · exact .inr ⟨whole,reads⟩

theorem processFill_reduces (held : Held e account fill.marketId isLong size) (strangers : fill.maker ≠ fill.taker)
    (party : Party account (!isLong) fill) (positive : 0 < fill.size) (covered : fill.size ≤ size)
    (closes : fill.size = size → Closes e account fill.marketId isLong fill.size)
    (ran : exec (processFill market fill) e = (.ok (),after)) : Processed.Reduces ⟨fill,e,after⟩ account := by
  have before : signedSize (e.state.getPosition account fill.marketId) = signed isLong size := by
    obtain ⟨position,found,rfl,rfl⟩ := held
    simp [signedSize,found]
  unfold Processed.Reduces
  rw [before]
  rcases processFill_held held strangers party covered ran with ⟨larger,left,found,side,sized⟩ | ⟨whole,uncovered⟩
  · simp only [found,signedSize,Option.elim_some,side,sized,Reduces]
    cases isLong <;> simp only [signed,if_true,Bool.false_eq_true,if_false] <;> omega
  · rw [uncovered,← whole]
    exact closes whole

theorem processFill_failed (ran : exec (processFill market fill) e = (.error error,after)) : after.context = e.context := by
  have quiet := fun trader isBuy (e : Engine) => (quiets_updatePosition (fun _ => false) (by simp) trader fill.marketId
    fill.size fill.price isBuy market.initialMarginBps e).context
  have first := quiet fill.taker fill.takerIsBuy e
  rw [processFill,exec_bind] at ran
  cases taker : exec (PositionManager.updatePosition fill.taker fill.marketId fill.size fill.price fill.takerIsBuy
      market.initialMarginBps) e with
  | mk outcome middle =>
  rw [taker] at ran first
  cases outcome with
  | error error => cases ran; exact first
  | ok done =>
  have second := quiet fill.maker (!fill.takerIsBuy) middle
  dsimp only at ran
  rw [exec_bind] at ran
  cases maker : exec (PositionManager.updatePosition fill.maker fill.marketId fill.size fill.price (!fill.takerIsBuy)
      market.initialMarginBps) middle with
  | mk outcome last =>
  rw [maker] at ran second
  cases outcome with
  | error error => cases ran; exact second.trans first
  | ok done => cases ran

theorem mem_processed {step : Processed} (inside : step ∈ processed market fills e) :
    ∃ front back, fills = front ++ step.fill :: back ∧ exec (processFills market front) e = (.ok (),step.before) ∧
      exec (processFill market step.fill) step.before = (.ok (),step.after) := by
  induction fills generalizing e with
  | nil => cases inside
  | cons fill fills ih =>
    rw [processed] at inside
    cases ran : exec (processFill market fill) e with
    | mk result middle =>
    rw [ran] at inside
    cases result with
    | error error => cases inside
    | ok done =>
    rcases List.mem_cons.mp inside with rfl | later
    · exact ⟨[],fills,rfl,rfl,ran⟩
    · obtain ⟨front,back,rfl,earlier,last⟩ := ih later
      refine ⟨fill :: front,back,rfl,?_,last⟩
      rw [processFills,exec_bind,ran]
      exact earlier

theorem processed_of_ok {front back : List Fill} (ran : exec (processFills market (front ++ fill :: back)) e = (.ok (),after)) :
    ∃ step ∈ processed market (front ++ fill :: back) e, step.fill = fill ∧
      exec (processFills market front) e = (.ok (),step.before) ∧
      exec (processFill market fill) step.before = (.ok (),step.after) := by
  induction front generalizing e with
  | nil =>
    obtain ⟨_,middle,first,rest⟩ := exec_bind_ok ran
    refine ⟨⟨fill,e,middle⟩,?_,rfl,rfl,first⟩
    simp only [List.nil_append,processed,first]
    exact List.mem_cons_self
  | cons other front ih =>
    obtain ⟨_,middle,first,rest⟩ := exec_bind_ok ran
    obtain ⟨step,inside,same,earlier,last⟩ := ih rest
    refine ⟨step,?_,same,?_,last⟩
    · simp only [List.cons_append,processed,first]
      exact List.mem_cons_of_mem _ inside
    · rw [processFills,exec_bind,first]
      exact earlier

theorem processed_reported (ran : exec (processFills market fills) e = (result,after)) :
    after.context = e.context ++ (processed market fills e).map (fillEvent ·.fill) := by
  induction fills generalizing e with
  | nil => cases ran; simp [processed]
  | cons fill fills ih =>
    rw [processFills,exec_bind] at ran
    cases first : exec (processFill market fill) e with
    | mk outcome middle =>
    rw [first] at ran
    cases outcome with
    | ok done =>
      simp only [processed,first,List.map_cons]
      rw [ih ran,processFill_context first,List.append_assoc]
      rfl
    | error error =>
      cases ran
      simp only [processed,first,List.map_nil,List.append_nil]
      exact processFill_failed first

def volumeOf (account : Address) (fills : List Fill) : Nat :=
  ((fills.filter fun fill => fill.taker = account ∨ fill.maker = account).map Fill.size).sum

structure Alike (account : Address) (marketId : Nat) (isBuy : Bool) (fill : Fill) : Prop where
  strangers : fill.maker ≠ fill.taker
  market : fill.marketId = marketId
  party : fill.taker = account ∨ fill.maker = account → Party account isBuy fill

theorem processFills_held (held : Held e account marketId isLong size)
    (alike : ∀ fill ∈ fills, Alike account marketId (!isLong) fill) (outlasts : volumeOf account fills < size)
    (ran : exec (processFills market fills) e = (.ok (),after)) :
    Held after account marketId isLong (size - volumeOf account fills) ∧
      ∀ key, after.state.committed key = e.state.committed key := by
  induction fills generalizing e size with
  | nil => cases ran; exact ⟨held,fun _ => rfl⟩
  | cons fill fills ih =>
    obtain ⟨_,middle,first,rest⟩ := exec_bind_ok ran
    obtain ⟨strangers,rfl,party⟩ := alike fill List.mem_cons_self
    have later := fun other inside => alike other (List.mem_cons_of_mem fill inside)
    have committed := processFill_committed first
    by_cases involved : fill.taker = account ∨ fill.maker = account
    · have split : volumeOf account (fill :: fills) = fill.size + volumeOf account fills := by simp [volumeOf,involved]
      rw [split] at outlasts ⊢
      rcases processFill_held held strangers (party involved) (by omega) first with ⟨_,left⟩ | ⟨whole,_⟩
      · obtain ⟨held',committed'⟩ := ih left later (by omega) rest
        rw [Nat.sub_sub] at held'
        exact ⟨held',fun key => (committed' key).trans (committed key)⟩
      · omega
    · have split : volumeOf account (fill :: fills) = volumeOf account fills := by simp [volumeOf,involved]
      rw [split] at outlasts ⊢
      obtain ⟨position,found,side,sized⟩ := held
      have still : Held middle account fill.marketId isLong size :=
        ⟨position,(OpenInterest.processFill_stranger (not_or.mp involved) first _).trans found,side,sized⟩
      obtain ⟨held',committed'⟩ := ih still later outlasts rest
      exact ⟨held',fun key => (committed' key).trans (committed key)⟩

theorem processed_reduces (backed : Backed e account marketId isLong (volumeOf account front) fill.size)
    (alike : ∀ other ∈ front ++ [fill], Alike account marketId (!isLong) other)
    (involved : fill.taker = account ∨ fill.maker = account) (positive : 0 < fill.size) (ran : exec (processFills market front) e = (.ok (),middle))
    (last : exec (processFill market fill) middle = (.ok (),after)) : Processed.Reduces ⟨fill,middle,after⟩ account := by
  obtain ⟨position,found,side,covered,closes⟩ := backed
  obtain ⟨strangers,rfl,party⟩ := alike fill (List.mem_append_right _ List.mem_cons_self)
  have earlier := fun other inside => alike other (List.mem_append_left [fill] inside)
  obtain ⟨held,committed⟩ := processFills_held ⟨position,found,side,rfl⟩ earlier (by omega) ran
  refine processFill_reduces held strangers (party involved) positive (by omega) (fun whole => ?_) last
  rw [Closes,committed]
  exact closes (by omega)

end Position

section Call

theorem validateOrder_reduceOnly {state : StateManager} (valid : validateOrder state trader request = .ok market)
    (flag : request.reduceOnly = true) :
    ∃ position, state.getPosition trader request.marketId = some position ∧ position.isLong = (!request.isBuy) ∧
      request.size ≤ position.size := by
  obtain ⟨_,_,passed⟩ := validateOrder_ok valid
  have allowed := passed.reduceOnly
  unfold RiskEngine.checkReduceOnly at allowed
  rw [if_pos flag] at allowed
  cases found : state.getPosition trader request.marketId with
  | none => rw [found] at allowed; cases allowed
  | some position =>
    rw [found] at allowed
    dsimp only at allowed
    split at allowed
    · cases allowed
    rename_i other
    split at allowed
    · cases allowed
    rename_i covered
    refine ⟨position,rfl,?_,Nat.le_of_not_lt covered⟩
    cases buys : request.isBuy <;> cases side : position.isLong <;> simp_all

theorem admitted_of_processed {step : Processed} (inside : step ∈ processedFills e trader request) :
    Admitted e trader request := by
  unfold processedFills at inside
  cases valid : validateOrder e.state trader request with
  | error error => simp only [valid] at inside; cases inside
  | ok market =>
  by_cases counter : e.state.orderCounter + 1 < 2 ^ 64
  case neg => simp only [valid,takeOrderId_full counter] at inside; cases inside
  cases passes : e.orderbook.passesPostOnly (incoming e trader request) with
  | true => exact ⟨⟨market,valid⟩,counter,passes⟩
  | false =>
    have order : newOrder trader request e.state.orderCounter (issued e).state.version = incoming e trader request := rfl
    simp only [valid,takeOrderId_exec counter,order,matchIncoming_turnedAway (e:=issued e) passes] at inside
    cases inside

theorem settleOrder_context (order : Order) (timeInForce : TimeInForce) (e : Engine) :
    (exec (settleOrder order timeInForce) e).2.context = e.context := by
  unfold settleOrder
  split
  · rfl
  · cases timeInForce <;> rfl

structure Processes (e : Engine) (trader : Address) (request : PlaceOrderTx) (result : Except EngineError Nat) (after : Engine)
    (market : Market) (middle : Engine) (outcome : Except EngineError Unit) (filled : Engine) : Prop where
  matched : Matched e trader request market middle
  steps : processedFills e trader request = processed market (fillsOf e trader request) middle
  ran : exec (processFills market (fillsOf e trader request)) middle = (outcome,filled)
  fails : ∀ error, outcome = .error error → result = .error error
  context : after.context = filled.context ∨ after.context = filled.context ++ [placedEvent e trader request]

theorem placeOrder_processes (shown : Represents e.desk ledger) (admitted : Admitted e trader request)
    (ran : exec (placeOrder trader request) e = (result,after)) :
    ∃ market middle outcome filled, Processes e trader request result after market middle outcome filled := by
  obtain ⟨⟨market,valid⟩,counter,passes⟩ := admitted
  obtain ⟨middle,matched,met⟩ := matchIncoming_matched shown.toQueued valid counter passes
  have order : newOrder trader request e.state.orderCounter (issued e).state.version = incoming e trader request := rfl
  have steps : processedFills e trader request = processed market (fillsOf e trader request) middle := by
    simp only [processedFills,valid,takeOrderId_exec counter,order,met]
  rw [placeOrder,exec_bind,exec_tries,valid] at ran
  dsimp only at ran
  rw [exec_ok_bind (takeOrderId_exec counter),exec_reads_bind,order,exec_ok_bind met,exec_bind] at ran
  cases processed : exec (processFills market (fillsOf e trader request)) middle with
  | mk outcome filled =>
  rw [processed] at ran
  refine ⟨market,middle,outcome,filled,matched,steps,processed,?_,?_⟩
  · rintro error rfl
    cases ran
    rfl
  cases outcome with
  | error error => cases ran; exact .inl rfl
  | ok done =>
    dsimp only at ran
    rw [exec_bind,emit,exec_writes] at ran
    have settled := congrArg (fun ended => ended.2.context) ran
    rw [exec_bind_pure_state,settleOrder_context] at settled
    exact .inr settled.symm

theorem exec_placing {call : Call} (placing : call.placing e = some (trader,request)) :
    e.after call = (exec (placeOrder trader request) e).2 ∧
      ∀ error, (exec (placeOrder trader request) e).1 = .error error → e.result call = .error error := by
  cases call with
  | placeOrder trader request =>
    cases placing
    rw [Engine.after,Engine.result,Call.perform,exec_bind_pure_state,exec_bind_pure_result]
    exact ⟨rfl,fun error failed => by rw [failed]; rfl⟩
  | closePosition trader close =>
    cases found : e.state.getPosition trader close.marketId with
    | none => simp [Call.placing,found] at placing
    | some position =>
      simp only [Call.placing,found,Option.map_some,Option.some.injEq] at placing
      cases placing
      rw [Engine.after,Engine.result,Call.perform,exec_bind_pure_state,exec_bind_pure_result,
        PositionService.closePosition_some found,exec_bind_pure_state,exec_bind_pure_result]
      exact ⟨rfl,fun error failed => by rw [failed]; rfl⟩
  | cancelOrder => cases placing
  | liquidateWithIncentive => cases placing

theorem call_reports (shown : Represents e.desk ledger) {call : Call} (placing : call.placing e = some (trader,request)) :
    ∃ rest, (e.after call).context = e.context ++ (processedFills e trader request).map (fillEvent ·.fill) ++ rest ∧
      (rest = [] ∨ rest = [placedEvent e trader request]) := by
  rw [(exec_placing placing).1]
  by_cases admitted : Admitted e trader request
  · obtain ⟨market,middle,outcome,filled,processes⟩ := placeOrder_processes shown admitted Prod.mk.eta.symm
    have reported := processed_reported processes.ran
    rw [processes.matched.context,← processes.steps] at reported
    rcases processes.context with same | placed
    · exact ⟨[],by rw [same,reported,List.append_nil],.inl rfl⟩
    · exact ⟨_,by rw [placed,reported],.inr rfl⟩
  · have nothing : processedFills e trader request = [] :=
      List.eq_nil_iff_forall_not_mem.mpr fun step inside => admitted (admitted_of_processed inside)
    rw [nothing]
    have placement := placeOrder_placement shown.toQueued (Prod.mk.eta (p:=exec (placeOrder trader request) e)).symm
    generalize (exec (placeOrder trader request) e).1 = result,(exec (placeOrder trader request) e).2 = last at placement
    cases placement with
    | refused error reason => exact ⟨[],by simp,.inl rfl⟩
    | turnedAway fails => exact ⟨[],by simp [issued],.inl rfl⟩
    | broken matched | killed matched | settled matched =>
      exact absurd ⟨⟨_,matched.validated⟩,matched.counter,matched.passes⟩ admitted

theorem Backed.moved (backed : Backed e account marketId isLong gone size)
    (positions : ∀ address marketId, after.state.getPosition address marketId = e.state.getPosition address marketId)
    (committed : ∀ key, after.state.committed key = e.state.committed key) :
    Backed after account marketId isLong gone size := by
  unfold Backed Closes
  rw [positions,committed]
  exact backed

theorem fillsOf_split {back : List Fill} (parts : fillsOf e trader request = front ++ fill :: back) :
    ∃ makers maker rest, Prices.metLine e trader request = makers ++ maker :: rest ∧ offered makers < request.size ∧
      front = makers.map (fun maker => Take.fill (incoming e trader request) ⟨maker,maker.remainingSize⟩) ∧
      fill = Take.fill (incoming e trader request) ⟨maker,bite request.size makers maker⟩ := by
  obtain ⟨frontTakes,rest,walked,rfl,others⟩ := List.map_eq_append_iff.mp parts
  obtain ⟨take,backTakes,rfl,rfl,_⟩ := List.map_eq_cons_iff.mp others
  have walked : walk request.size (Prices.metLine e trader request) = _ := walked
  obtain ⟨makers,rest,line,rfl,reached,bitten⟩ := walk_split walked
  have bitten : take.size = bite request.size makers take.maker := bitten
  refine ⟨makers,take.maker,rest,line,reached,by simp,?_⟩
  rw [← bitten]

theorem volumeOf_maker {makers : List Order} (apart : trader ≠ owner) :
    volumeOf owner (makers.map fun maker => Take.fill (incoming e trader request) ⟨maker,maker.remainingSize⟩) =
      offered (makers.filter (·.owner = owner)) := by
  induction makers with
  | nil => rfl
  | cons maker makers ih =>
    by_cases own : maker.owner = owner <;>
      simp_all [volumeOf,offered,Take.fill,makeFill,incoming,newOrder]

theorem volumeOf_taker {makers : List Order} :
    volumeOf trader (makers.map fun maker => Take.fill (incoming e trader request) ⟨maker,maker.remainingSize⟩) =
      offered makers := by
  induction makers with
  | nil => rfl
  | cons maker makers ih => simp_all [volumeOf,offered,Take.fill,makeFill,incoming,newOrder]

theorem fillsOf_alike_taker : ∀ fill ∈ fillsOf e trader request, Alike trader request.marketId request.isBuy fill := by
  intro fill inside
  have strangers := OpenInterest.fillsOf_strangers e trader request fill inside
  obtain ⟨take,_,rfl⟩ := List.mem_map.mp inside
  exact ⟨strangers,rfl,fun _ => .inl ⟨rfl,rfl⟩⟩

theorem fillsOf_alike_maker (apart : trader ≠ owner) :
    ∀ fill ∈ fillsOf e trader request, Alike owner request.marketId (!request.isBuy) fill := by
  intro fill inside
  have strangers := OpenInterest.fillsOf_strangers e trader request fill inside
  obtain ⟨take,_,rfl⟩ := List.mem_map.mp inside
  exact ⟨strangers,rfl,fun involved => .inr ⟨involved.resolve_left apart,rfl⟩⟩

theorem step_reduces {step : Processed} {makers rest : List Order} {maker : Order} (shown : Represents e.desk ledger)
    (matched : Matched e trader request market middle) (line : Prices.metLine e trader request = makers ++ maker :: rest)
    (reached : offered makers < request.size) (sound : Sound e trader request makers maker) {back : List Fill}
    (parts : fillsOf e trader request = front ++ step.fill :: back)
    (whole : front = makers.map fun maker => Take.fill (incoming e trader request) ⟨maker,maker.remainingSize⟩)
    (filled : step.fill = Take.fill (incoming e trader request) ⟨maker,bite request.size makers maker⟩)
    (earlier : exec (processFills market front) middle = (.ok (),step.before))
    (last : exec (processFill market step.fill) step.before = (.ok (),step.after)) :
    (request.reduceOnly = true → step.Reduces trader) ∧ (maker.reduceOnly = true → step.Reduces maker.owner) := by
  obtain ⟨positions,committed⟩ := OpenInterest.matched_positions matched
  obtain ⟨found,active,_,_,foreign,_⟩ :=
    (Prices.mem_metLine shown).mp (show maker ∈ Prices.metLine e trader request by simp [line])
  have sized : step.fill.size = bite request.size makers maker := congrArg Fill.size filled
  have positive : 0 < step.fill.size := by
    have live := (shown.live maker ((shown.complete _ _ found).2.2 active)).2
    rw [sized]
    exact Nat.lt_min.mpr ⟨Nat.sub_pos_of_lt reached,live⟩
  have upTo : ∀ fill ∈ front ++ [step.fill], fill ∈ fillsOf e trader request := by
    intro fill among
    rw [parts]
    simp only [List.mem_append,List.mem_cons,List.not_mem_nil,or_false] at among ⊢
    tauto
  refine ⟨fun flag => ?_,fun flag => ?_⟩
  · obtain ⟨position,held,side,covers⟩ := validateOrder_reduceOnly matched.validated flag
    have backed : Backed e trader request.marketId (!request.isBuy) (volumeOf trader front) step.fill.size := by
      rw [whole,volumeOf_taker,sized]
      exact ⟨position,held,side,by unfold bite; omega,fun all => side ▸ sound.taken flag position held all⟩
    refine processed_reduces (backed.moved positions committed) (fun fill among => ?_) (.inl (congrArg Fill.taker filled))
      positive earlier last
    rw [Bool.not_not]
    exact fillsOf_alike_taker fill (upTo fill among)
  · have backed : Backed e maker.owner request.marketId request.isBuy (volumeOf maker.owner front) step.fill.size := by
      rw [whole,volumeOf_maker (Ne.symm foreign),sized]
      exact sound.made flag
    exact processed_reduces (backed.moved positions committed)
      (fun fill among => fillsOf_alike_maker (Ne.symm foreign) fill (upTo fill among)) (.inr (congrArg Fill.maker filled))
      positive earlier last

theorem call_reducesOnly (shown : Represents e.desk ledger) {call : Call} (backed : call.WithinPositions e) : call.ReducesOnly e := by
  intro trader request placing step inside
  have admitted := admitted_of_processed inside
  obtain ⟨market,middle,_,_,processes⟩ := placeOrder_processes shown admitted Prod.mk.eta.symm
  rw [processes.steps] at inside
  obtain ⟨front,back,parts,earlier,last⟩ := mem_processed inside
  obtain ⟨makers,maker,rest,line,reached,whole,filled⟩ := fillsOf_split parts
  have sound := backed trader request placing admitted makers maker rest line reached
  obtain ⟨taken,made⟩ := step_reduces shown processes.matched line reached sound parts whole filled earlier last
  refine ⟨taken,fun order stored flag => ?_⟩
  obtain ⟨found,_⟩ := (Prices.mem_metLine shown).mp (show maker ∈ Prices.metLine e trader request by simp [line])
  have same : e.state.getOrder maker.id = some order := by rw [← stored,filled]; rfl
  rw [found] at same
  obtain rfl := Option.some_inj.mp same
  exact made flag

section Exact
variable {makers rest : List Order} {maker : Order}

theorem closes_flat (flat : e.state.committed (.position owner marketId) = none) (positive : 0 < size) :
    Closes e owner marketId isLong size := by
  rw [Closes,flat,Reduces]
  cases isLong <;> simp [signed,signedSize] <;> omega

theorem volumeOf_eq_soldBy (taken : ∀ fill ∈ fills, fill.taker ≠ account) : volumeOf account fills = soldBy account fills := by
  unfold volumeOf soldBy
  congr 2
  exact List.filter_congr fun fill inside => by simp [taken fill inside]

theorem signed_fits {held : Int} (small : held.natAbs + size < bound) : (held + signed isBuy size).natAbs < bound := by
  cases isBuy <;> simp only [signed,if_true,Bool.false_eq_true,if_false] <;> omega

theorem covers_of_reduces {position : Option Position} (positive : 0 < size)
    (reduces : Reduces (signedSize position + signed (!isLong) gone)
      (signedSize position + signed (!isLong) gone + signed (!isLong) size)) :
    ∃ held, position = some held ∧ held.isLong = isLong ∧ gone + size ≤ held.size := by
  cases position with
  | none => cases isLong <;> simp [Reduces,signed,signedSize] at reduces <;> omega
  | some held =>
    refine ⟨held,rfl,?_⟩
    cases isLong <;> cases side : held.isLong <;> simp [Reduces,signed,signedSize,side] at reduces ⊢ <;> omega

theorem front_signed (flat : ∀ address marketId, e.state.committed (.position address marketId) = none)
    (fits : (signedSize (e.state.getPosition owner request.marketId)).natAbs + request.size < 2 ^ 64) (foreign : owner ≠ trader)
    (reached : offered makers < request.size)
    (ran : exec (processFills market
      (makers.map fun maker => Take.fill (incoming e trader request) ⟨maker,maker.remainingSize⟩)) middle = (.ok (),after))
    (matched : Matched e trader request market middle) :
    signedSize (after.state.getPosition owner request.marketId) = signedSize (e.state.getPosition owner request.marketId) +
        signed (!request.isBuy) (offered (makers.filter (·.owner = owner))) ∧
      ∀ key, after.state.committed key = e.state.committed key := by
  obtain ⟨positions,committed⟩ := OpenInterest.matched_positions matched
  have taken : ∀ fill ∈ makers.map fun maker => Take.fill (incoming e trader request) ⟨maker,maker.remainingSize⟩,
      fill.taker ≠ owner ∧ fill.marketId = request.marketId ∧ fill.takerIsBuy = request.isBuy := by
    intro fill among
    obtain ⟨other,_,rfl⟩ := List.mem_map.mp among
    exact ⟨Ne.symm foreign,rfl,rfl⟩
  have part : offered (makers.filter (·.owner = owner)) ≤ offered makers := offered_filter_le makers _
  have supplies := Isolation.processFills_supplies (fun address marketId => (committed _).trans (flat address marketId)) taken ran
  refine ⟨?_,fun key => (supplies.committed key).trans (committed key)⟩
  have moved := supplies.here
  rw [positions,← volumeOf_eq_soldBy fun fill inside => (taken fill inside).1,volumeOf_maker (Ne.symm foreign)] at moved
  exact moved (by omega) (signed_fits (by omega))

theorem fill_signed {before : Engine} (flat : ∀ address marketId, before.state.committed (.position address marketId) = none)
    (fits : (signedSize (before.state.getPosition maker.owner request.marketId)).natAbs + size < 2 ^ 64)
    (foreign : maker.owner ≠ trader)
    (ran : exec (processFill market (Take.fill (incoming e trader request) ⟨maker,size⟩)) before = (.ok (),after)) :
    signedSize (after.state.getPosition maker.owner request.marketId) =
      signedSize (before.state.getPosition maker.owner request.marketId) + signed (!request.isBuy) size := by
  have moved := (Isolation.processFill_supplies flat (Ne.symm foreign) ran).here
  have own : (Take.fill (incoming e trader request) ⟨maker,size⟩).maker = maker.owner := rfl
  rw [if_pos own] at moved
  exact moved (Nat.lt_of_le_of_lt (Nat.le_add_right _ _) fits) (signed_fits fits)

theorem backed_of_reduces {before : Engine} (flat : ∀ address marketId, e.state.committed (.position address marketId) = none)
    (fits : (signedSize (e.state.getPosition maker.owner request.marketId)).natAbs + request.size < 2 ^ 64)
    (foreign : maker.owner ≠ trader) (positive : 0 < bite request.size makers maker) (reached : offered makers < request.size)
    (matched : Matched e trader request market middle)
    (earlier : exec (processFills market
      (makers.map fun maker => Take.fill (incoming e trader request) ⟨maker,maker.remainingSize⟩)) middle = (.ok (),before))
    (last : exec (processFill market (Take.fill (incoming e trader request) ⟨maker,bite request.size makers maker⟩)) before =
      (.ok (),after))
    (reduces : Reduces (signedSize (before.state.getPosition maker.owner request.marketId))
      (signedSize (after.state.getPosition maker.owner request.marketId))) :
    Backed e maker.owner request.marketId request.isBuy (offered (makers.filter (·.owner = maker.owner)))
      (bite request.size makers maker) := by
  have part : offered (makers.filter (·.owner = maker.owner)) ≤ offered makers := offered_filter_le makers _
  have bitten : offered makers + bite request.size makers maker ≤ request.size := by unfold bite; omega
  obtain ⟨first,committed⟩ := front_signed flat fits foreign reached earlier matched
  have room : (signedSize (before.state.getPosition maker.owner request.marketId)).natAbs <
      2 ^ 64 - bite request.size makers maker := by
    rw [first]
    exact signed_fits (by omega)
  have second := fill_signed (fun address marketId => (committed _).trans (flat address marketId)) (by omega) foreign last
  rw [second,first] at reduces
  obtain ⟨held,found,side,covered⟩ := covers_of_reduces positive reduces
  exact ⟨held,found,side,covered,fun _ => closes_flat (flat _ _) positive⟩

-- Where nothing is committed, no position can leave its word and no word overflows, the condition is exact.
theorem call_reducesOnly_iff (shown : Represents e.desk ledger) {call : Call}
    (flat : ∀ address marketId, e.state.committed (.position address marketId) = none)
    (fits : ∀ trader request, call.placing e = some (trader,request) → ∀ account,
      (signedSize (e.state.getPosition account request.marketId)).natAbs + request.size < 2 ^ 64)
    (inWord : e.result call ≠ .error .overflow) : call.ReducesOnly e ↔ call.WithinPositions e := by
  refine ⟨fun only trader request placing admitted makers maker rest line reached => ?_,call_reducesOnly shown⟩
  obtain ⟨market,middle,outcome,filled,processes⟩ := placeOrder_processes shown admitted Prod.mk.eta.symm
  have ran := processes.ran
  cases outcome with
  | error error =>
    obtain rfl := processFills_overflow ran
    exact absurd ((exec_placing placing).2 _ (processes.fails _ rfl)) inWord
  | ok done =>
  have inLine : maker ∈ Prices.metLine e trader request := by simp [line]
  obtain ⟨found,active,_,_,foreign,_⟩ := (Prices.mem_metLine shown).mp inLine
  have positive : 0 < bite request.size makers maker :=
    Nat.lt_min.mpr ⟨Nat.sub_pos_of_lt reached,(shown.live maker ((shown.complete _ _ found).2.2 active)).2⟩
  have walked : takesOf e trader request = _ := (congrArg (walk request.size) line).trans (walk_reaches reached)
  rw [fillsOf,walked,List.map_append,List.map_cons,List.map_map] at ran
  obtain ⟨step,inside,same,earlier,last⟩ := processed_of_ok ran
  have inside : step ∈ processedFills e trader request := by
    rw [processes.steps,fillsOf,walked,List.map_append,List.map_cons,List.map_map]
    exact inside
  refine ⟨fun flag => ?_,fun _ position _ _ => closes_flat (flat _ _) positive⟩
  have reduces := (only trader request placing step inside).2 maker (by rw [same]; exact found) flag
  unfold Processed.Reduces at reduces
  rw [same] at reduces
  exact backed_of_reduces flat (fits trader request placing maker.owner) foreign positive reached processes.matched earlier last
    reduces

end Exact

end Call

-- Along a run that never reaches a reduce-only order beyond the position behind it, every fill of
-- a reduce-only order reduces.
theorem reduce_only_reduces (reached : Reachable e) (calls : List Call)
    (backed : ∀ front call, front ++ [call] <+: calls → call.WithinPositions (e.run front)) :
    ∀ front call, front ++ [call] <+: calls → call.ReducesOnly (e.run front) := by
  intro front call part
  obtain ⟨ledger,shown⟩ := Atomicity.reachable_represents (Atomicity.reachable_run reached front)
  exact call_reducesOnly shown (backed front call part)

def sells (size : Nat) (words64 : 110 < 2 ^ 64 ∧ size < 2 ^ 64 := by decide) : PlaceOrderTx :=
  {Bench.limit false 110 size .gtc words64 with reduceOnly:=true}

def protectedLong : List Call :=
  [.placeOrder Bench.bob Bench.ask,.placeOrder Bench.alice Bench.bid,.placeOrder Bench.alice (sells 5)]

theorem backed_of_single {position : Position}
    (met : (Prices.metLine e trader request).map (fun maker => (maker.owner,maker.remainingSize)) = [(owner,size)])
    (found : e.state.getPosition owner request.marketId = some position) (side : position.isLong = request.isBuy)
    (covered : size ≤ position.size) (flat : e.state.committed (.position owner request.marketId) = none) (positive : 0 < size)
    (plain : request.reduceOnly = false) : (Call.placeOrder trader request).WithinPositions e := by
  rintro _ _ ⟨⟩ _ makers maker rest line reached
  rw [line] at met
  obtain ⟨rfl,rfl,rfl⟩ : makers = [] ∧ maker.owner = owner ∧ maker.remainingSize = size := by
    rcases makers with _ | ⟨first,makers⟩
    · simp only [List.nil_append,List.map_cons,List.cons.injEq,Prod.mk.injEq] at met
      exact ⟨rfl,met.1⟩
    · simp at met
  refine ⟨fun _ => ⟨position,found,side,?_,fun _ => closes_flat flat ?_⟩,fun flag => by rw [plain] at flag; cases flag⟩
  · exact Nat.le_trans (Nat.le_of_eq (Nat.zero_add _)) ((Nat.min_le_right _ _).trans covered)
  · exact Nat.lt_min.mpr ⟨Nat.sub_pos_of_lt reached,positive⟩

theorem reduce_only_reduces_closed :
    (processedFills ((Engine.new Bench.state).run protectedLong) Bench.carol (Bench.limit true 110 5 .gtc)).map
        (fun step => (step.fill.makerOrderId,signedSize (step.before.state.getPosition Bench.alice 0),
          signedSize (step.after.state.getPosition Bench.alice 0))) = [(2,5,0)] ∧
      ∀ front call, front ++ [call] <+: [Call.placeOrder Bench.carol (Bench.limit true 110 5 .gtc)] →
        call.ReducesOnly (((Engine.new Bench.state).run protectedLong).run front) := by
  have met : (Prices.metLine ((Engine.new Bench.state).run protectedLong) Bench.carol (Bench.limit true 110 5 .gtc)).map
      (fun maker => (maker.owner,maker.remainingSize)) = [(Bench.alice,5)] := by decide +kernel
  have held : (((Engine.new Bench.state).run protectedLong).state.getPosition Bench.alice 0).map
      (fun position => (position.isLong,position.size)) = some (true,5) := by decide +kernel
  have flat : (((Engine.new Bench.state).run protectedLong).state.committed (.position Bench.alice 0) : Option Position) =
      none := by decide +kernel
  obtain ⟨position,found,sized⟩ := Option.map_eq_some_iff.mp held
  obtain ⟨side,size⟩ := Prod.mk.inj sized
  refine ⟨by decide +kernel,reduce_only_reduces (Atomicity.reachable_run (.start Bench.noOrders) _) _ fun front call part => ?_⟩
  obtain ⟨rfl,rfl⟩ : front = [] ∧ call = .placeOrder Bench.carol (Bench.limit true 110 5 .gtc) := by
    rcases front with _ | ⟨first,rest⟩
    · simpa using part
    · simp at part
  rw [show ∀ e : Engine, e.run [] = e from fun _ => rfl]
  exact backed_of_single met found side (Nat.le_of_eq size.symm) flat (by decide) rfl

-- A second reduce-only ask behind the first: the buyer of both leaves Alice short.
theorem resting_reduce_only_opens_short :
    ¬∀ front call, front ++ [call] <+: protectedLong ++ [.placeOrder Bench.alice (sells 5),
        .placeOrder Bench.carol (Bench.limit true 110 10 .gtc)] →
      call.ReducesOnly ((Engine.new Bench.state).run front) := by
  intro all
  have last := all (protectedLong ++ [.placeOrder Bench.alice (sells 5)])
    (.placeOrder Bench.carol (Bench.limit true 110 10 .gtc)) (by simp [List.prefix_rfl]) Bench.carol (Bench.limit true 110 10 .gtc) rfl
  have steps : ((processedFills ((Engine.new Bench.state).run (protectedLong ++ [.placeOrder Bench.alice (sells 5)]))
      Bench.carol (Bench.limit true 110 10 .gtc))[1]?).map (fun step => (step.fill.makerOrderId,decide (step.Reduces Bench.alice))) =
        some (3,false) := by decide +kernel
  have order : (((Engine.new Bench.state).run (protectedLong ++ [.placeOrder Bench.alice (sells 5)])).state.getOrder 3).map
      (fun order => (order.owner,order.reduceOnly)) = some (Bench.alice,true) := by decide +kernel
  obtain ⟨step,inside,told⟩ := Option.map_eq_some_iff.mp steps
  obtain ⟨maker,grows⟩ := Prod.mk.inj told
  obtain ⟨order,found,own⟩ := Option.map_eq_some_iff.mp order
  obtain ⟨owner,flag⟩ := Prod.mk.inj own
  have reduces := (last step (List.mem_of_getElem? inside)).2 order (by rw [maker]; exact found) flag
  rw [owner] at reduces
  exact of_decide_eq_false grows reduces

end ReduceOnly
end Pranklin
