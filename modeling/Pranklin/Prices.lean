import Pranklin.Crossing

namespace Pranklin
open Words Effect OrderService OrderbookManager

theorem mem_walk_iff (size : Nat) (front : List Order) (maker : Order) (back : List Order)
    (once : maker ∉ front ∧ maker ∉ back) :
    maker ∈ (walk size (front ++ maker :: back)).map Take.maker ↔ (front.map Order.remainingSize).sum < size := by
  induction front generalizing size with
  | nil =>
    by_cases spent : size = 0 <;> simp [walk,spent]
    omega
  | cons first front ih =>
    have apart : maker ≠ first := fun same => once.1 (same ▸ List.mem_cons_self)
    have later := ih (size - min size first.remainingSize) ⟨fun inside => once.1 (List.mem_cons_of_mem _ inside),once.2⟩
    by_cases spent : size = 0
    · simp [walk,spent]
    · simp only [List.cons_append,walk,spent,if_false,List.map_cons,List.mem_cons,apart,false_or,later,List.sum_cons]
      omega

namespace OrderService

def matchedFills (e : Engine) (trader : Address) (request : PlaceOrderTx) : List Fill :=
  match validateOrder e.state trader request with
  | .error _ => []
  | .ok _ =>
    match exec takeOrderId e with
    | (.error _,_) => []
    | (.ok orderId,e) =>
      match exec (matchIncoming (newOrder trader request orderId e.state.version)) e with
      | (.error _,_) => []
      | (.ok fills,_) => fills

structure Admitted (e : Engine) (trader : Address) (request : PlaceOrderTx) : Prop where
  valid : ∃ market, validateOrder e.state trader request = .ok market
  counter : e.state.orderCounter + 1 < 2 ^ 64
  passes : e.orderbook.passesPostOnly (incoming e trader request)

section Fills
variable {e : Engine} {trader : Address} {request : PlaceOrderTx}

theorem matchedFills_of_admitted (queued : Queued e.desk) (admitted : Admitted e trader request) :
    matchedFills e trader request = fillsOf e trader request := by
  obtain ⟨⟨market,valid⟩,counter,passes⟩ := admitted
  obtain ⟨middle,_,met⟩ := matchIncoming_matched queued valid counter passes
  have order : newOrder trader request e.state.orderCounter (issued e).state.version = incoming e trader request := rfl
  simp only [matchedFills,valid,takeOrderId_exec counter,order,met]

theorem admitted_of_matched {market : Market} {middle : Engine} (matched : Matched e trader request market middle) :
    Admitted e trader request := ⟨⟨market,matched.validated⟩,matched.counter,matched.passes⟩

theorem matchedFills_of_not_admitted (outside : ¬Admitted e trader request) : matchedFills e trader request = [] := by
  unfold matchedFills
  cases valid : validateOrder e.state trader request with
  | error error => rfl
  | ok market =>
  by_cases counter : e.state.orderCounter + 1 < 2 ^ 64
  case neg => simp only [takeOrderId_full counter]
  cases passes : e.orderbook.passesPostOnly (incoming e trader request) with
  | true => exact absurd ⟨⟨market,valid⟩,counter,passes⟩ outside
  | false =>
    have order : newOrder trader request e.state.orderCounter (issued e).state.version = incoming e trader request := rfl
    simp only [takeOrderId_exec counter,order,matchIncoming_turnedAway (e:=issued e) passes]

end Fills
end OrderService

def Call.fills (e : Engine) (call : Call) : List Fill :=
  match call.placing e with
  | none => []
  | some (trader,request) => matchedFills e trader request

-- A trade at a real price: the maker's own, above zero, and no worse than the taker's limit.
structure Fill.Priced (e : Engine) (limit : Nat) (fill : Fill) : Prop where
  positive : 0 < fill.price
  makers : ∃ maker, e.state.getOrder fill.makerOrderId = some maker ∧ maker.price = fill.price
  within : limit ≠ 0 → if fill.takerIsBuy then fill.price ≤ limit else limit ≤ fill.price

def Call.Priced (e : Engine) (call : Call) : Prop :=
  ∀ trader request, call.placing e = some (trader,request) → ∀ fill ∈ call.fills e, fill.Priced e request.price

-- What an incoming sell has to buy its way through before it reaches the bids at price zero.
-- No ask stands before those at price zero.
def sizeAhead (e : Engine) (trader : Address) (request : PlaceOrderTx) : Nat :=
  if request.isBuy then 0
  else
    ((((List.range e.state.orderCounter).filterMap e.state.getOrder).filter fun bid =>
      bid.status = .active ∧ bid.marketId = request.marketId ∧ bid.isBuy = true ∧ bid.owner ≠ trader ∧ 0 < bid.price).map
      Order.remainingSize).sum

structure MeetsUnpriced (e : Engine) (trader : Address) (request : PlaceOrderTx) : Prop extends Admitted e trader request where
  market : request.isBuy = false → request.price = 0
  resting : ∃ orderId maker, e.state.getOrder orderId = some maker ∧ maker.status = .active ∧
    maker.marketId = request.marketId ∧ maker.isBuy = !request.isBuy ∧ maker.owner ≠ trader ∧ maker.price = 0
  reaches : sizeAhead e trader request < request.size

def Call.MeetsUnpriced (e : Engine) (call : Call) : Prop :=
  ∃ trader request, call.placing e = some (trader,request) ∧ Pranklin.MeetsUnpriced e trader request

namespace Prices
variable {e : Engine} {ledger : Ledger} {trader : Address} {request : PlaceOrderTx} {line : List Order}

def before (isBuy : Bool) (maker : Order) : Bool := !isBuy && decide (0 < maker.price)

theorem filter_before (sorted : (front ++ zero :: back).Pairwise fun maker later : Order =>
      ahead (!isBuy) maker.price later.price ∨ maker.price = later.price) (unpriced : zero.price = 0) :
    (front ++ zero :: back).filter (before isBuy) = front.filter (before isBuy) := by
  have later : ∀ maker ∈ zero :: back, before isBuy maker = false := by
    intro maker inside
    rcases List.mem_cons.mp inside with rfl | inside
    · simp [before,unpriced]
    · have order := List.rel_of_pairwise_cons (List.pairwise_append.mp sorted).2.1 inside
      cases isBuy <;> simp [before,ahead,unpriced] at order ⊢
      omega
  have nothing : (zero :: back).filter (before isBuy) = [] :=
    List.filter_eq_nil_iff.mpr fun maker inside => by simp [later maker inside]
  rw [List.filter_append,nothing,List.append_nil]

theorem takes_unpriced_iff (isBuy : Bool) (size : Nat) (distinct : line.Nodup) (sorted : line.Pairwise fun maker later =>
      ahead (!isBuy) maker.price later.price ∨ maker.price = later.price) :
    (∃ maker ∈ (walk size line).map Take.maker, maker.price = 0) ↔
      (∃ maker ∈ line, maker.price = 0) ∧ ((line.filter (before isBuy)).map Order.remainingSize).sum < size := by
  have split : ∀ {front zero back}, line = front ++ zero :: back → zero ∉ front ∧ zero ∉ back := by
    rintro front zero back rfl
    have apart := List.nodup_middle.mp distinct
    exact not_or.mp fun inside => (List.nodup_cons.mp apart).1 (List.mem_append.mpr inside)
  constructor
  · rintro ⟨zero,taken,unpriced⟩
    have inside := (walk_makers_sublist _ _).subset taken
    refine ⟨⟨zero,inside,unpriced⟩,?_⟩
    obtain ⟨front,back,rfl⟩ := List.append_of_mem inside
    have reached := (mem_walk_iff size front zero back (split rfl)).mp taken
    rw [filter_before sorted unpriced]
    exact Nat.lt_of_le_of_lt ((List.filter_sublist.map _).sum_le_sum fun _ _ => Nat.zero_le _) reached
  · rintro ⟨⟨some_,inside,unpriced⟩,reached⟩
    -- The first maker at price zero: only makers before that price stand before it.
    obtain ⟨zero,found⟩ := Option.isSome_iff_exists.mp
      (List.find?_isSome (p:=fun maker : Order => decide (maker.price = 0)).mpr ⟨some_,inside,decide_eq_true unpriced⟩)
    obtain ⟨unpriced,front,back,rfl,first⟩ := List.find?_eq_some_iff_append.mp found
    have unpriced := of_decide_eq_true unpriced
    have all : front.filter (before isBuy) = front := by
      refine List.filter_eq_self.mpr fun maker inside => ?_
      have priced : maker.price ≠ 0 := by simpa using first maker inside
      have order := (List.pairwise_append.mp sorted).2.2 maker inside zero List.mem_cons_self
      cases isBuy <;> simp [before,ahead,unpriced] at order ⊢ <;> omega
    rw [filter_before sorted unpriced,all] at reached
    exact ⟨zero,(mem_walk_iff size front zero back (split rfl)).mpr reached,unpriced⟩

def metLine (e : Engine) (trader : Address) (request : PlaceOrderTx) : List Order :=
  (e.orderbook.priorityLine (issued e).state (incoming e trader request)).filter (eligible (incoming e trader request))

theorem mem_metLine (shown : Represents e.desk ledger) {maker : Order} :
    maker ∈ metLine e trader request ↔ e.state.getOrder maker.id = some maker ∧ maker.status = .active ∧
      maker.marketId = request.marketId ∧ maker.isBuy = (!request.isBuy) ∧ maker.owner ≠ trader ∧
      crosses (incoming e trader request) maker.price = true := by
  rw [metLine,List.mem_filter,mem_priorityLine (queued_issued shown.toQueued),(Atomicity.untouched_issued e).orders,eligible,
    Bool.and_eq_true,decide_eq_true_eq]
  simp only [and_assoc]
  rfl

theorem metLine_nodup (shown : Represents e.desk ledger) : (metLine e trader request).Nodup :=
  (List.Nodup.of_map _ (priorityLine_ids_nodup (queued_issued shown.toQueued))).filter _

theorem metLine_sorted (shown : Represents e.desk ledger) : (metLine e trader request).Pairwise fun maker later =>
    ahead (!request.isBuy) maker.price later.price ∨ maker.price = later.price := by
  have sorted : (e.orderbook.priorityLine (issued e).state (incoming e trader request)).Pairwise _ :=
    priorityLine_sorted (queued_issued shown.toQueued)
  exact sorted.filter _

theorem metLine_perm (shown : Represents e.desk ledger) (free : ∀ price, crosses (incoming e trader request) price = true)
    {listed chosen : Order → Bool} (same : ∀ order, listed order = true ↔ (order.status = .active ∧
      order.marketId = request.marketId ∧ order.isBuy = (!request.isBuy) ∧ order.owner ≠ trader) ∧ chosen order = true) :
    (((List.range e.state.orderCounter).filterMap e.state.getOrder).filter listed).Perm
      ((metLine e trader request).filter chosen) := by
  refine (List.perm_ext_iff_of_nodup ?_ ((metLine_nodup shown).filter _)).mpr fun order => ?_
  · refine List.Nodup.filter _ (List.Nodup.filterMap (fun left right order inLeft inRight => ?_) List.nodup_range)
    exact (shown.toQueued.keyed left order inLeft).symm.trans (shown.toQueued.keyed right order inRight)
  · rw [List.mem_filter,List.mem_filter,mem_metLine shown,List.mem_filterMap,same]
    constructor
    · rintro ⟨⟨orderId,_,found⟩,⟨active,market,side,foreign⟩,picked⟩
      have keyed := shown.toQueued.keyed orderId order found
      exact ⟨⟨keyed ▸ found,active,market,side,foreign,free _⟩,picked⟩
    · rintro ⟨⟨found,active,market,side,foreign,_⟩,picked⟩
      exact ⟨⟨order.id,List.mem_range.mpr (shown.complete order.id order found).2.1,found⟩,⟨active,market,side,foreign⟩,picked⟩

theorem sizeAhead_eq (shown : Represents e.desk ledger) (market : request.isBuy = false → request.price = 0) :
    sizeAhead e trader request = (((metLine e trader request).filter (before request.isBuy)).map Order.remainingSize).sum := by
  unfold sizeAhead
  cases side : request.isBuy with
  | true =>
    have nothing : (metLine e trader request).filter (before true) = [] := List.filter_eq_nil_iff.mpr fun _ _ => by simp [before]
    rw [nothing]
    rfl
  | false =>
    have free : ∀ price, crosses (incoming e trader request) price = true := by
      intro price
      simp [crosses,incoming,newOrder,market side]
    refine ((metLine_perm shown free fun order => ?_).map _).sum_eq
    simp [before,side,and_assoc]

theorem meets_iff (shown : Represents e.desk ledger) (admitted : Admitted e trader request) :
    MeetsUnpriced e trader request ↔ (∃ maker ∈ metLine e trader request, maker.price = 0) ∧
      (((metLine e trader request).filter (before request.isBuy)).map Order.remainingSize).sum < request.size := by
  constructor
  · rintro ⟨_,market,⟨orderId,maker,found,active,sameMarket,side,foreign,unpriced⟩,reaches⟩
    have keyed := shown.toQueued.keyed orderId maker found
    have crossing : crosses (incoming e trader request) maker.price = true := by
      cases isBuy : request.isBuy with
      | true => simp [crosses,incoming,newOrder,isBuy,unpriced]
      | false => simp [crosses,incoming,newOrder,market isBuy]
    refine ⟨⟨maker,(mem_metLine shown).mpr ⟨keyed ▸ found,active,sameMarket,side,foreign,crossing⟩,unpriced⟩,?_⟩
    rwa [← sizeAhead_eq shown market]
  · rintro ⟨⟨maker,inside,unpriced⟩,reaches⟩
    obtain ⟨found,active,sameMarket,side,foreign,crossing⟩ := (mem_metLine shown).mp inside
    have market : request.isBuy = false → request.price = 0 := by
      intro isBuy
      simpa [crosses,incoming,newOrder,isBuy,unpriced] using crossing
    rw [← sizeAhead_eq shown market] at reaches
    exact ⟨admitted,market,⟨maker.id,maker,found,active,sameMarket,side,foreign,unpriced⟩,reaches⟩

theorem fill_priced_iff (shown : Represents e.desk ledger) {take : Take} (member : take ∈ takesOf e trader request) :
    (take.fill (incoming e trader request)).Priced e request.price ↔ take.maker.price ≠ 0 := by
  constructor
  · exact fun priced => Nat.ne_of_gt priced.positive
  intro priced
  have inside : take.maker ∈ metLine e trader request :=
    (walk_makers_sublist _ _).subset (List.mem_map_of_mem member)
  obtain ⟨found,_,_,_,_,crossing⟩ := (mem_metLine shown).mp inside
  refine ⟨Nat.pos_of_ne_zero priced,⟨take.maker,found,rfl⟩,fun limited => ?_⟩
  change if request.isBuy then take.maker.price ≤ request.price else request.price ≤ take.maker.price
  cases isBuy : request.isBuy <;> simpa [crosses,incoming,newOrder,isBuy,limited] using crossing

theorem matchedFills_priced_iff (shown : Represents e.desk ledger) :
    (∀ fill ∈ matchedFills e trader request, fill.Priced e request.price) ↔ ¬MeetsUnpriced e trader request := by
  by_cases admitted : Admitted e trader request
  case neg =>
    rw [matchedFills_of_not_admitted admitted]
    exact ⟨fun _ meets => admitted meets.toAdmitted,fun _ fill inside => absurd inside List.not_mem_nil⟩
  have sorted : (metLine e trader request).Pairwise _ := metLine_sorted shown
  have unpriced := takes_unpriced_iff request.isBuy request.size (metLine_nodup shown) sorted
  rw [matchedFills_of_admitted shown.toQueued admitted,meets_iff shown admitted,← unpriced,fillsOf]
  constructor
  · rintro priced ⟨maker,taken,zero⟩
    obtain ⟨take,member,rfl⟩ := List.mem_map.mp taken
    exact (fill_priced_iff shown member).mp (priced _ (List.mem_map_of_mem member)) zero
  · intro none_ fill inside
    obtain ⟨take,member,rfl⟩ := List.mem_map.mp inside
    exact (fill_priced_iff shown member).mpr fun zero => none_ ⟨take.maker,List.mem_map_of_mem member,zero⟩

theorem call_priced_iff (reached : Reachable e) (call : Call) : call.Priced e ↔ ¬call.MeetsUnpriced e := by
  obtain ⟨ledger,shown⟩ := Atomicity.reachable_represents reached
  unfold Call.Priced Call.MeetsUnpriced Call.fills
  cases placing : call.placing e with
  | none => simp
  | some placed =>
    obtain ⟨trader,request⟩ := placed
    constructor
    · rintro priced ⟨_,_,⟨⟩,meets⟩
      exact (matchedFills_priced_iff shown).mp (priced trader request rfl) meets
    · rintro clear _ _ ⟨⟩
      exact (matchedFills_priced_iff shown).mpr fun meets => clear ⟨trader,request,rfl,meets⟩

-- Along a run every trade has a real price exactly when no call of it gets through to an
-- order that rests at price zero.
theorem fills_priced_iff (reached : Reachable e) (calls : List Call) :
    (∀ front call, front ++ [call] <+: calls → call.Priced (e.run front)) ↔
      ∀ front call, front ++ [call] <+: calls → ¬call.MeetsUnpriced (e.run front) := by
  have each : ∀ (front : List Call) (call : Call), call.Priced (e.run front) ↔ ¬call.MeetsUnpriced (e.run front) := fun front call =>
    call_priced_iff (Atomicity.reachable_run reached front) call
  constructor
  · intro priced front call part
    exact (each front call).mp (priced front call part)
  · intro clear front call part
    exact (each front call).mpr (clear front call part)

theorem fills_priced_iff_ask_taken :
    (Call.fills ((Engine.new Bench.state).run [.placeOrder Bench.alice Bench.ask]) (.placeOrder Bench.bob Bench.bid)).map
        Fill.price = [100] ∧
      ∀ front call, front ++ [call] <+: [Call.placeOrder Bench.alice Bench.ask,.placeOrder Bench.bob Bench.bid] →
        ¬call.MeetsUnpriced ((Engine.new Bench.state).run front) := by
  refine ⟨by decide +kernel,(fills_priced_iff (.start Bench.noOrders) _).mp fun front call part => ?_⟩
  obtain ⟨rfl,rfl⟩ | ⟨rfl,rfl⟩ : front = [] ∧ call = .placeOrder Bench.alice Bench.ask ∨
      front = [.placeOrder Bench.alice Bench.ask] ∧ call = .placeOrder Bench.bob Bench.bid := by
    rcases front with _ | ⟨first,_ | ⟨second,rest⟩⟩ <;> simp at part <;> simp [part]
  · intro trader request placing fill inside
    have nothing : Call.fills ((Engine.new Bench.state).run []) (.placeOrder Bench.alice Bench.ask) = [] := by decide +kernel
    rw [nothing] at inside
    cases inside
  · rintro _ _ ⟨⟩ fill inside
    have single : Call.fills ((Engine.new Bench.state).run [.placeOrder Bench.alice Bench.ask])
        (.placeOrder Bench.bob Bench.bid) = [⟨Bench.alice,Bench.bob,0,100,5,true,0,1⟩] := by decide +kernel
    rw [single,List.mem_singleton] at inside
    subst inside
    have makers : (((Engine.new Bench.state).run [.placeOrder Bench.alice Bench.ask]).state.getOrder 0).map Order.price =
        some 100 := by decide +kernel
    exact ⟨by decide,Option.map_eq_some_iff.mp makers,fun _ => by decide⟩

-- A sell at no price finds nobody, rests, and is taken at price zero by a buyer who bids 100.
theorem resting_market_order_trades_at_zero :
    (Call.fills ((Engine.new Bench.state).run [.placeOrder Bench.alice (Bench.limit false 0 4 .gtc)])
      (.placeOrder Bench.bob Bench.bid)).map Fill.price = [0] := by decide +kernel

end Prices
end Pranklin
