import Pranklin.Isolation
import Pranklin.ReduceOnly

namespace Pranklin
open Words Effect OrderService OrderbookManager PositionManager

namespace OrderbookManager
variable {s : StateManager} {order : Order} {book : OrderbookManager}

-- What the matching loops keep, on any book: positions are not touched, and the fills are those of this
-- order, at prices it can reach, and use up its size.
structure Swept (s : StateManager) (order : Order) (state : StateManager) (remaining : Nat) (fills : List Fill) : Prop where
  reads : StateManager.Agree (!StateKey.ofOrders ·) s state
  committed : ∀ key, state.committed key = s.committed key
  parties : ∀ fill ∈ fills, fill.taker = order.owner ∧ fill.maker ≠ order.owner ∧ fill.marketId = order.marketId ∧
    fill.takerIsBuy = order.isBuy
  reach : ∀ fill ∈ fills, outOfReach order fill.price = false
  total : (fills.map Fill.size).sum + remaining = order.remainingSize

theorem swept_matchMaker {m : LevelMatch} (inReach : outOfReach order price = false)
    (swept : Swept s order m.state m.remaining m.fills) (makerOrderId : Nat) :
    let next := matchMaker order price m makerOrderId
    Swept s order next.state next.remaining next.fills := by
  obtain ⟨reads,committed,parties,reach,total⟩ := swept
  unfold matchMaker
  cases m.state.getOrder makerOrderId with
  | none => exact ⟨reads,committed,parties,reach,total⟩
  | some maker =>
  dsimp only
  split
  · exact ⟨reads,committed,parties,reach,total⟩
  rename_i stranger
  have added : ∀ fill ∈ m.fills ++ [makeFill order maker price (min m.remaining maker.remainingSize) makerOrderId],
      (fill.taker = order.owner ∧ fill.maker ≠ order.owner ∧ fill.marketId = order.marketId ∧
        fill.takerIsBuy = order.isBuy) ∧ outOfReach order fill.price = false := by
    intro fill inside
    rcases List.mem_append.mp inside with earlier | new
    · exact ⟨parties fill earlier,reach fill earlier⟩
    · cases List.mem_singleton.mp new
      exact ⟨⟨rfl,stranger,rfl,rfl⟩,inReach⟩
  have left : ((m.fills ++ [makeFill order maker price (min m.remaining maker.remainingSize) makerOrderId]).map
      Fill.size).sum + subWrap 64 m.remaining (min m.remaining maker.remainingSize) = order.remainingSize := by
    rw [subWrap_of_le (Nat.min_le_left _ _),List.map_append,List.sum_append,List.map_singleton,List.sum_singleton]
    change _ + min m.remaining maker.remainingSize + _ = _
    omega
  have first := fun fill inside => (added fill inside).1
  have second := fun fill inside => (added fill inside).2
  split
  · exact ⟨(((reads.set rfl).delete rfl).set rfl),committed,first,second,left⟩
  · exact ⟨reads.set rfl,committed,first,second,left⟩

theorem swept_matchLevel {m : LevelMatch} (inReach : outOfReach order price = false)
    (swept : Swept s order m.state m.remaining m.fills) (orderIds : List Nat) :
    let next := matchLevel order price m orderIds
    Swept s order next.state next.remaining next.fills := by
  induction orderIds generalizing m with
  | nil => exact swept
  | cons makerOrderId rest ih =>
    unfold matchLevel
    split
    · exact swept
    · exact ih (swept_matchMaker inReach swept makerOrderId)

theorem swept_matchPrice {m : BookMatch} (inReach : outOfReach order price = false)
    (swept : Swept s order m.state m.remaining m.fills) :
    let next := matchPrice order m price
    Swept s order next.state next.remaining next.fills := by
  unfold matchPrice
  cases m.levels[price]? with
  | none => exact swept
  | some level =>
    exact @swept_matchLevel s order price ⟨m.state,level,m.remaining,m.fills,m.borrowed⟩ inReach swept level.orders

theorem swept_matchPrices {m : BookMatch} (swept : Swept s order m.state m.remaining m.fills) (prices : List Nat) :
    let next := matchPrices order m prices
    Swept s order next.state next.remaining next.fills := by
  induction prices generalizing m with
  | nil => exact swept
  | cons price rest ih =>
    unfold matchPrices
    split
    · exact swept
    · rename_i inReach
      have next := swept_matchPrice (Bool.eq_false_of_not_eq_true inReach) swept
      dsimp only
      split
      · exact next
      · exact ih next

theorem swept_matchOrder {m : MatchResult} (ran : book.matchOrder s order = .ok m) :
    ∃ remaining, Swept s order m.state remaining m.fills := by
  unfold matchOrder at ran
  split at ran
  · cases ran
  · cases ran
    have start : Swept s order s order.remainingSize [] :=
      ⟨.refl _ _,fun _ => rfl,List.forall_mem_nil _,List.forall_mem_nil _,Nat.zero_add _⟩
    exact ⟨_,@swept_matchPrices s order ⟨s,_,_,_,_⟩ start _⟩

end OrderbookManager

def marginOf (position : Option Position) : Nat := position.elim 0 Position.margin

def initialMargin (size price initialMarginBps : Nat) : Nat := size * price * initialMarginBps / basisPoints

-- What fills cost a trader who first closes so much of an opposite position with them: each charges the margin of
-- its part beyond, rounded down.
def cost (initialMarginBps : Nat) : Nat → List Fill → Nat
  | _,[] => 0
  | held,fill :: rest =>
    initialMargin (fill.size - held) fill.price initialMarginBps + cost initialMarginBps (held - fill.size) rest

def requirement (position : Option Position) (isBuy : Bool) (initialMarginBps : Nat) (fills : List Fill) : Nat :=
  match position with
  | none => cost initialMarginBps 0 fills
  | some position =>
    if position.isLong = isBuy then position.margin + cost initialMarginBps 0 fills
    else cost initialMarginBps position.size fills

namespace TakerMargin
variable {e after : Engine} {trader : Address} {request : PlaceOrderTx} {market : Market} {fills : List Fill}
  {marketId size price bps : Nat} {isBuy : Bool} {position : Position} {updated : Option Position}

theorem calculateInitialMargin_ok {margin : Nat} (ran : calculateInitialMargin size price bps = .ok margin) :
    margin = initialMargin size price bps := by
  obtain ⟨_,ran⟩ := checkedMul_bind_ok ran
  obtain ⟨_,ran⟩ := checkedMul_bind_ok ran
  cases ran
  rfl

theorem increasePosition_margin {increased : Position} (ran : increasePosition position size price bps = .ok increased) :
    increased.isLong = position.isLong ∧ increased.margin = position.margin + initialMargin size price bps := by
  rcases increasePosition_cases ran with ⟨_,_,_,_,rfl⟩ | ⟨rfl,empty⟩
  · exact ⟨rfl,rfl⟩
  · have nothing : size = 0 := by omega
    simp [initialMargin,nothing]

def OnSide (isBuy : Bool) (position : Option Position) : Prop := ∀ held, position = some held → held.isLong = isBuy

theorem traded_onSide {held : Option Position} (onSide : OnSide isBuy held)
    (ran : traded held size price isBuy bps = .ok updated) :
    OnSide isBuy updated ∧ marginOf updated = marginOf held + initialMargin size price bps := by
  unfold traded at ran
  cases held with
  | none =>
    obtain ⟨margin,reckoned,ran⟩ := bind_eq_ok ran
    cases ran
    refine ⟨fun _ same => ?_,?_⟩
    · cases same
      rfl
    · change margin = 0 + _
      rw [calculateInitialMargin_ok reckoned,Nat.zero_add]
  | some position =>
    have side := onSide position rfl
    dsimp only at ran
    rw [if_pos side] at ran
    obtain ⟨increased,reckoned,ran⟩ := bind_eq_ok ran
    cases ran
    obtain ⟨same,margin⟩ := increasePosition_margin reckoned
    exact ⟨fun _ equal => by cases equal; exact same.trans side,margin⟩

theorem traded_against (opposite : position.isLong ≠ isBuy) (ran : traded (some position) size price isBuy bps = .ok updated) :
    (size < position.size ∧ ∃ left, updated = some left ∧ left.isLong = position.isLong ∧ left.size = position.size - size ∧
        left.margin ≤ position.margin) ∨
      position.size ≤ size ∧ OnSide isBuy updated ∧ marginOf updated = initialMargin (size - position.size) price bps := by
  unfold traded at ran
  dsimp only at ran
  rw [if_neg opposite] at ran
  split at ran
  · rename_i covered
    right
    split at ran
    · obtain ⟨margin,reckoned,ran⟩ := bind_eq_ok ran
      cases ran
      refine ⟨covered,fun _ same => ?_,calculateInitialMargin_ok reckoned⟩
      cases same
      rfl
    · rename_i exact_
      cases ran
      have nothing : size - position.size = 0 := by omega
      refine ⟨covered,?_,?_⟩
      · intro _ same
        cases same
      · simp [marginOf,initialMargin,nothing]
  · rename_i larger
    left
    rw [if_neg (by omega)] at ran
    obtain ⟨_,_,ran⟩ := bind_eq_ok ran
    obtain ⟨_,_,ran⟩ := bind_eq_ok ran
    cases ran
    exact ⟨by omega,_,rfl,rfl,rfl,Nat.sub_le _ _⟩

structure Sweeps (trader : Address) (request : PlaceOrderTx) (fills : List Fill) : Prop where
  parties : ∀ fill ∈ fills, fill.taker = trader ∧ fill.maker ≠ trader ∧ fill.marketId = request.marketId ∧
    fill.takerIsBuy = request.isBuy
  limited : ∀ fill ∈ fills, request.isBuy = true → 0 < request.price → fill.price ≤ request.price
  total : (fills.map Fill.size).sum ≤ request.size

theorem Sweeps.tail {fill : Fill} (sweeps : ∀ other ∈ fill :: fills, other.taker = trader ∧ other.maker ≠ trader ∧
      other.marketId = marketId ∧ other.takerIsBuy = isBuy) :
    ∀ other ∈ fills, other.taker = trader ∧ other.maker ≠ trader ∧ other.marketId = marketId ∧ other.takerIsBuy = isBuy :=
  fun other inside => sweeps other (List.mem_cons_of_mem _ inside)

theorem processFill_taker {fill : Fill} (flat : e.state.committed (.position trader marketId) = none)
    (parties : fill.taker = trader ∧ fill.maker ≠ trader ∧ fill.marketId = marketId ∧ fill.takerIsBuy = isBuy)
    (ran : exec (processFill market fill) e = (.ok (),after)) :
    traded (e.state.getPosition trader marketId) fill.size fill.price isBuy market.initialMarginBps =
        .ok (after.state.getPosition trader marketId) ∧
      after.state.committed (.position trader marketId) = none := by
  obtain ⟨rfl,stranger,rfl,rfl⟩ := parties
  obtain ⟨updated,traded,reads⟩ := ReduceOnly.processFill_party stranger (.inl ⟨rfl,rfl⟩) ran
  rw [flat,Option.or_none] at reads
  exact ⟨reads ▸ traded,(ReduceOnly.processFill_committed ran _).trans flat⟩

theorem processFills_onSide (flat : e.state.committed (.position trader marketId) = none)
    (parties : ∀ fill ∈ fills, fill.taker = trader ∧ fill.maker ≠ trader ∧ fill.marketId = marketId ∧ fill.takerIsBuy = isBuy)
    (onSide : OnSide isBuy (e.state.getPosition trader marketId))
    (ran : exec (processFills market fills) e = (.ok (),after)) :
    marginOf (after.state.getPosition trader marketId) =
      marginOf (e.state.getPosition trader marketId) + cost market.initialMarginBps 0 fills := by
  induction fills generalizing e with
  | nil =>
    cases ran
    rfl
  | cons fill rest ih =>
    obtain ⟨_,middle,first,last⟩ := exec_bind_ok ran
    obtain ⟨traded,still⟩ := processFill_taker flat (parties fill List.mem_cons_self) first
    obtain ⟨onSide',charged⟩ := traded_onSide onSide traded
    rw [ih still (Sweeps.tail parties) onSide' last,charged,cost,Nat.sub_zero,Nat.zero_sub,Nat.add_assoc]

-- While the position outlasts the fills no margin is added; beyond it the fills are charged.
theorem processFills_against (flat : e.state.committed (.position trader marketId) = none)
    (parties : ∀ fill ∈ fills, fill.taker = trader ∧ fill.maker ≠ trader ∧ fill.marketId = marketId ∧ fill.takerIsBuy = isBuy)
    (found : e.state.getPosition trader marketId = some position) (opposite : position.isLong ≠ isBuy)
    (ran : exec (processFills market fills) e = (.ok (),after)) :
    (fills.map Fill.size).sum ≤ position.size ∧ marginOf (after.state.getPosition trader marketId) ≤ position.margin ∨
      position.size ≤ (fills.map Fill.size).sum ∧
        marginOf (after.state.getPosition trader marketId) = cost market.initialMarginBps position.size fills := by
  induction fills generalizing e position with
  | nil =>
    cases ran
    rw [found]
    exact .inl ⟨Nat.zero_le _,Nat.le_refl _⟩
  | cons fill rest ih =>
    obtain ⟨_,middle,first,last⟩ := exec_bind_ok ran
    obtain ⟨traded,still⟩ := processFill_taker flat (parties fill List.mem_cons_self) first
    rw [found] at traded
    rw [List.map_cons,List.sum_cons,cost]
    rcases traded_against opposite traded with ⟨larger,left,found',side,sized,margin⟩ | ⟨covered,onSide,charged⟩
    · have nothing : initialMargin (fill.size - position.size) fill.price market.initialMarginBps = 0 := by
        rw [Nat.sub_eq_zero_of_le (Nat.le_of_lt larger),initialMargin,Nat.zero_mul,Nat.zero_mul,Nat.zero_div]
      have later := ih still (Sweeps.tail parties) found' (by rw [side]; exact opposite) last
      rw [sized] at later
      rw [nothing,Nat.zero_add]
      rcases later with ⟨outlasts,less⟩ | ⟨outgrown,charged⟩
      · exact .inl ⟨by omega,less.trans margin⟩
      · exact .inr ⟨by omega,charged⟩
    · have later := processFills_onSide still (Sweeps.tail parties) onSide last
      rw [later,charged,Nat.sub_eq_zero_of_le covered]
      exact .inr ⟨by omega,rfl⟩

theorem cost_of_covered {held : Nat} (covered : (fills.map Fill.size).sum ≤ held) : cost bps held fills = 0 := by
  induction fills generalizing held with
  | nil => rfl
  | cons fill rest ih =>
    rw [List.map_cons,List.sum_cons] at covered
    rw [cost,ih (by omega),Nat.sub_eq_zero_of_le (by omega),initialMargin,Nat.zero_mul,Nat.zero_mul,Nat.zero_div]

structure Placed (e : Engine) (trader : Address) (request : PlaceOrderTx) (after : Engine) (market : Market)
    (middle filled : Engine) : Prop where
  valid : validateOrder e.state trader request = .ok market
  sweeps : Sweeps trader request (matchedFills e trader request)
  positions : ∀ address marketId, middle.state.getPosition address marketId = e.state.getPosition address marketId
  committed : ∀ key, middle.state.committed key = e.state.committed key
  processed : exec (processFills market (matchedFills e trader request)) middle = (.ok (),filled)
  settled : ∀ address marketId, after.state.getPosition address marketId = filled.state.getPosition address marketId
  balances : ∀ address assetId, after.state.getBalance address assetId = e.state.getBalance address assetId

theorem takeOrderId_ok (ran : exec takeOrderId e = (.ok orderId,after)) :
    (∀ address marketId, after.state.getPosition address marketId = e.state.getPosition address marketId) ∧
      ∀ key, after.state.committed key = e.state.committed key := by
  rw [takeOrderId,exec_attempts] at ran
  cases taken : e.state.nextOrderId with
  | error error =>
    rw [taken] at ran
    cases ran
  | ok pair =>
    obtain ⟨_,state,_⟩ := StateManager.nextOrderId_cases taken
    rw [taken] at ran
    cases ran
    dsimp only
    rw [state]
    exact ⟨fun _ _ => StateManager.get_set_ne _ _ (by simp),fun _ => rfl⟩

theorem matchIncoming_ok {order : Order} (ran : exec (matchIncoming order) e = (.ok fills,after)) :
    ∃ remaining, Swept e.state order after.state remaining fills := by
  rw [matchIncoming,exec_attempts] at ran
  cases met : e.orderbook.matchOrder e.state order with
  | error error =>
    rw [met] at ran
    cases ran
  | ok m =>
    rw [met] at ran
    cases ran
    exact swept_matchOrder met

theorem clear_balances : Frame.Clear StateKey.ofBalances := by
  intro key chosen
  cases key <;> simp [StateKey.ofOrders,StateKey.ofPositions,StateKey.ofBalances] at chosen ⊢

theorem placeOrder_ok (ran : exec (placeOrder trader request) e = (.ok orderId,after)) :
    ∃ market middle filled, Placed e trader request after market middle filled := by
  have spared := Frame.sparing_placeOrder clear_balances trader request e
  rw [ran] at spared
  rw [placeOrder] at ran
  obtain ⟨market,valid,ran⟩ := exec_tries_ok ran
  obtain ⟨taken,issued,numbered,ran⟩ := exec_bind_ok ran
  rw [exec_reads_bind] at ran
  obtain ⟨fills,middle,met,ran⟩ := exec_bind_ok ran
  obtain ⟨_,filled,processed,ran⟩ := exec_bind_ok ran
  rw [emit,exec_writes_bind] at ran
  obtain ⟨_,settled,ended,ran⟩ := exec_bind_ok ran
  cases ran
  have fills_ : matchedFills e trader request = fills := by
    unfold matchedFills
    simp only [valid,numbered,met]
  obtain ⟨held,committed⟩ := takeOrderId_ok numbered
  obtain ⟨remaining,swept⟩ := matchIncoming_ok met
  refine ⟨market,middle,filled,valid,?_,fun address marketId => ?_,fun key => ?_,?_,?_,fun address assetId => ?_⟩
  · rw [fills_]
    refine ⟨swept.parties,fun fill inside isBuy priced => ?_,?_⟩
    · have reach := swept.reach fill inside
      simp only [outOfReach,newOrder,isBuy,priced,decide_true,Bool.true_and,Bool.not_true,Bool.false_and,Bool.or_false,
        decide_eq_false_iff_not,Nat.not_lt] at reach
      exact reach
    · have total := swept.total
      change _ = request.size at total
      omega
  · exact (swept.reads _ rfl).trans (held address marketId)
  · exact (swept.committed key).trans (committed key)
  · rw [fills_]
    exact processed
  · exact (OpenInterest.settleOrder_positions ended).1
  · rw [StateManager.getBalance,spared _ rfl,StateManager.getBalance]

-- In a book that calls have led to the fills are those of the walk down the resting orders.
theorem matchedFills_of_placed (reached : Reachable e) (ran : exec (placeOrder trader request) e = (.ok orderId,after)) :
    matchedFills e trader request = fillsOf e trader request := by
  obtain ⟨ledger,shown⟩ := Atomicity.reachable_represents reached
  cases placeOrder_placement shown.toQueued ran with
  | settled matched _ _ => exact matchedFills_of_admitted shown.toQueued (admitted_of_matched matched)

theorem margin_sound_iff (drops : e.state.DropsPositions) (registered : e.state.getMarket request.marketId = some market)
    (covered : marginOf (e.state.getPosition trader request.marketId) ≤ e.state.getBalance trader market.quoteAssetId)
    (ran : exec (placeOrder trader request) e = (.ok orderId,after)) :
    (marginOf (after.state.getPosition trader request.marketId) ≤ after.state.getBalance trader market.quoteAssetId ↔
      requirement (e.state.getPosition trader request.marketId) request.isBuy market.initialMarginBps
        (matchedFills e trader request) ≤ e.state.getBalance trader market.quoteAssetId) ∧
      (Reachable e → matchedFills e trader request = fillsOf e trader request) := by
  refine ⟨?_,fun reached => matchedFills_of_placed reached ran⟩
  obtain ⟨validated,middle,filled,placed⟩ := placeOrder_ok ran
  have same : validated = market := Option.some.inj ((validateOrder_ok placed.valid).1.symm.trans registered)
  subst same
  have flat : middle.state.committed (.position trader request.marketId) = none :=
    (placed.committed _).trans (drops.committed _ _)
  have parties := placed.sweeps.parties
  have before := placed.positions trader request.marketId
  rw [placed.settled,placed.balances]
  unfold requirement
  cases found : e.state.getPosition trader request.marketId with
  | none =>
    rw [found] at before
    have charged := processFills_onSide flat parties (by rw [before]; intro _ same; cases same) placed.processed
    rw [before] at charged
    rw [charged]
    change 0 + _ ≤ _ ↔ _
    rw [Nat.zero_add]
  | some position =>
    rw [found] at before covered
    dsimp only
    split
    · rename_i side
      have charged := processFills_onSide flat parties (by rw [before]; intro _ same; cases same; exact side) placed.processed
      rw [before] at charged
      rw [charged]
      rfl
    · rename_i opposite
      rcases processFills_against flat parties before opposite placed.processed with ⟨outlasts,less⟩ | ⟨_,charged⟩
      · rw [cost_of_covered outlasts]
        exact iff_of_true (less.trans covered) (Nat.zero_le _)
      · rw [charged]

section LimitBuys

theorem initialMargin_mono {small large cheap dear : Nat} (sizes : small ≤ large) (prices : cheap ≤ dear) :
    initialMargin small cheap bps ≤ initialMargin large dear bps :=
  Nat.div_le_div_right (Nat.mul_le_mul_right _ (Nat.mul_le_mul sizes prices))

theorem cost_le (held : Nat) (limited : ∀ fill ∈ fills, fill.price ≤ price) :
    cost bps held fills ≤ initialMargin (fills.map Fill.size).sum price bps := by
  induction fills generalizing held with
  | nil => exact Nat.zero_le _
  | cons fill rest ih =>
    have later := ih (held - fill.size) fun other inside => limited other (List.mem_cons_of_mem _ inside)
    have own : initialMargin (fill.size - held) fill.price bps ≤ initialMargin fill.size price bps :=
      initialMargin_mono (Nat.sub_le _ _) (limited fill List.mem_cons_self)
    calc cost bps held (fill :: rest)
        ≤ initialMargin fill.size price bps + initialMargin (rest.map Fill.size).sum price bps := Nat.add_le_add own later
      _ ≤ (fill.size * price * bps + (rest.map Fill.size).sum * price * bps) / basisPoints :=
        Nat.div_add_div_le_add_div
      _ = initialMargin ((fill :: rest).map Fill.size).sum price bps := by
        rw [List.map_cons,List.sum_cons,initialMargin,Nat.add_mul,Nat.add_mul]

theorem limit_buy_sound (registered : e.state.getMarket request.marketId = some market)
    (covered : marginOf (e.state.getPosition trader request.marketId) ≤ e.state.getBalance trader market.quoteAssetId)
    (isBuy : request.isBuy = true) (priced : 0 < request.price)
    (ran : exec (placeOrder trader request) e = (.ok orderId,after)) :
    requirement (e.state.getPosition trader request.marketId) request.isBuy market.initialMarginBps
      (matchedFills e trader request) ≤ e.state.getBalance trader market.quoteAssetId := by
  obtain ⟨validated,_,_,placed⟩ := placeOrder_ok ran
  obtain ⟨listed,locked,reckoned,funded,_,_⟩ := validateOrder_ok placed.valid
  have same : validated = market := Option.some.inj (listed.symm.trans registered)
  subst same
  have enough : initialMargin request.size request.price validated.initialMarginBps ≤
    e.state.getBalance trader validated.quoteAssetId - locked := funded
  have limited := fun fill inside => placed.sweeps.limited fill inside isBuy priced
  have charged : ∀ held, cost validated.initialMarginBps held (matchedFills e trader request) ≤
      initialMargin request.size request.price validated.initialMarginBps := fun held =>
    (cost_le held limited).trans (initialMargin_mono placed.sweeps.total (Nat.le_refl _))
  unfold requirement
  cases found : e.state.getPosition trader request.marketId with
  | none => exact (charged 0).trans (enough.trans (Nat.sub_le _ _))
  | some position =>
    rw [found] at reckoned covered
    dsimp only
    split
    · rename_i side
      unfold RiskEngine.existingMargin at reckoned
      dsimp only at reckoned
      rw [if_pos side.symm] at reckoned
      cases reckoned
      have bound := charged 0
      have margin : position.margin ≤ e.state.getBalance trader validated.quoteAssetId := covered
      omega
    · exact (charged position.size).trans (enough.trans (Nat.sub_le _ _))

end LimitBuys

def thin : Engine :=
  (Engine.new (Bench.state.setBalance Bench.bob 0 10)).run [.placeOrder Bench.alice Bench.bid]

-- A sell with a limit of 20 is checked at 20 and one at the market at 0; both trade at 100 and lock 50.
theorem margin_unsound :
    marginOf (thin.state.getPosition Bench.bob 0) = 0 ∧
      (exec (placeOrder Bench.bob (Bench.limit false 20 5 .ioc)) thin).1 = .ok 1 ∧
      marginOf ((exec (placeOrder Bench.bob (Bench.limit false 20 5 .ioc)) thin).2.state.getPosition Bench.bob 0) = 50 ∧
      (exec (placeOrder Bench.bob (Bench.limit false 20 5 .ioc)) thin).2.state.getBalance Bench.bob 0 = 10 ∧
      (exec (placeOrder Bench.bob (Bench.limit false 0 5 .ioc)) thin).1 = .ok 1 ∧
      marginOf ((exec (placeOrder Bench.bob (Bench.limit false 0 5 .ioc)) thin).2.state.getPosition Bench.bob 0) = 50 ∧
      (exec (placeOrder Bench.bob (Bench.limit false 0 5 .ioc)) thin).2.state.getBalance Bench.bob 0 = 10 := by
  decide +kernel

def bidding : Engine := (Engine.new Bench.state).run [.placeOrder Bench.alice Bench.bid]

theorem margin_sound_on_bench :
    let request := Bench.limit false 0 5 .ioc
    let after := (exec (placeOrder Bench.bob request) bidding).2
    marginOf (after.state.getPosition Bench.bob request.marketId) ≤
        after.state.getBalance Bench.bob Bench.market.quoteAssetId ↔
      requirement (bidding.state.getPosition Bench.bob request.marketId) request.isBuy Bench.market.initialMarginBps
        (matchedFills bidding Bench.bob request) ≤ bidding.state.getBalance Bench.bob Bench.market.quoteAssetId := by
  have sizes : OpenInterest.SizesFit bidding.context := OpenInterest.sizesFit_of_volume (by decide +kernel)
  have booked : OpenInterest.Booked bidding := by
    dsimp only [bidding] at sizes ⊢
    exact OpenInterest.run_booked (.start Bench.noOrders) rfl Bench.noPositions (by decide) (by decide +kernel) sizes
  have registered : bidding.state.getMarket 0 = some Bench.market := by decide +kernel
  have covered : marginOf (bidding.state.getPosition Bench.bob 0) ≤ bidding.state.getBalance Bench.bob 0 := by
    decide +kernel
  have done : (exec (placeOrder Bench.bob (Bench.limit false 0 5 .ioc)) bidding).1 = .ok 1 := by decide +kernel
  exact (margin_sound_iff (Isolation.booked_drops booked) registered covered (exec_of_result done)).1

end TakerMargin
end Pranklin
