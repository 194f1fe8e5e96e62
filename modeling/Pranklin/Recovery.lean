import Pranklin.Crossing
import Pranklin.Frame
import Pranklin.Twins

namespace Pranklin
open Words OrderService

namespace Engine

-- An order that is listed and no longer active is struck off the list.
def rebuildOrder (marketId : Nat) (e : Engine) (orderId : Nat) : Engine :=
  match e.state.getOrder orderId with
  | none => e
  | some order =>
    if order.status = .active ∧ 0 < order.remainingSize then
      {e with orderbook:=e.orderbook.addOrder orderId order}
    else {e with state:=e.state.removeActiveOrder marketId orderId}

def rebuildMarket (e : Engine) (marketId : Nat) : Engine :=
  (e.state.getActiveOrdersByMarket marketId).foldl (rebuildOrder marketId) e

def rebuildOrderbookFromState (e : Engine) : Engine :=
  e.state.listAllMarkets.foldl rebuildMarket {e with orderbook:=.new}

def fillsFor (e : Engine) (order : Order) : Except EngineError (List Fill) :=
  (e.orderbook.matchOrder e.state order).map OrderbookManager.MatchResult.fills

end Engine

def PriceLevel.ofOrders (orders : List Order) : Option PriceLevel :=
  if orders = [] then none else some ⟨orders.map Order.id,sumWrap 64 (orders.map Order.remainingSize)⟩

def OrderbookManager.addAll (book : OrderbookManager) (orders : List Order) : OrderbookManager :=
  orders.foldl (fun book order => book.addOrder order.id order) book

namespace Recovery
variable {e after : Engine} {ledger : Ledger} {d : Desk}

theorem ofOrders_append (orders : List Order) (order : Order) :
    PriceLevel.ofOrders (orders ++ [order]) =
      some (((PriceLevel.ofOrders orders).getD .new).addOrder order.id order.remainingSize) := by
  unfold PriceLevel.ofOrders PriceLevel.addOrder
  by_cases empty : orders = []
  · simp [empty,PriceLevel.new,sumWrap]
  · simp [empty,sumWrap]

theorem level_addAll (orders : List Order) (slot : Slot) :
    (OrderbookManager.new.addAll orders).level slot = PriceLevel.ofOrders (orders.filter (·.slot = slot)) := by
  induction orders using List.reverseRecOn with
  | nil => simp [OrderbookManager.addAll,PriceLevel.ofOrders]
  | append_singleton orders order ih =>
    have last : OrderbookManager.new.addAll (orders ++ [order]) =
        (OrderbookManager.new.addAll orders).addOrder order.id order := by simp [OrderbookManager.addAll]
    rw [last,OrderbookManager.level_addOrder,List.filter_append]
    by_cases same : slot = order.slot
    · subst same
      rw [if_pos rfl,ih]
      simp [ofOrders_append]
    · rw [if_neg same,ih]
      simp [Ne.symm same]

-- Every listed order is active, so the loop adds them all and strikes off none.
theorem rebuildMarket_eq (shown : Represents d ledger) (same : e.state = d.state) (marketId : Nat) :
    e.rebuildMarket marketId =
      {e with orderbook:=e.orderbook.addAll (ledger.filter (·.marketId = marketId))} := by
  have listed : e.state.getActiveOrdersByMarket marketId = (ledger.filter (·.marketId = marketId)).map Order.id := by
    rw [same,shown.listed]
  unfold Engine.rebuildMarket OrderbookManager.addAll
  rw [listed]
  clear listed
  have members : ∀ order ∈ ledger.filter (·.marketId = marketId), order ∈ ledger := fun order chosen =>
    (List.mem_filter.mp chosen).1
  generalize ledger.filter (·.marketId = marketId) = orders at members
  induction orders generalizing e with
  | nil => rfl
  | cons order orders ih =>
    have member := members order List.mem_cons_self
    have added : e.rebuildOrder marketId order.id = {e with orderbook:=e.orderbook.addOrder order.id order} := by
      unfold Engine.rebuildOrder
      rw [same,shown.stored order member]
      dsimp only
      rw [if_pos (shown.live order member)]
    rw [List.map_cons,List.foldl_cons,added,List.foldl_cons]
    exact ih same fun other inside => members other (List.mem_cons_of_mem _ inside)

theorem rebuildMarkets_eq (shown : Represents d ledger) (same : e.state = d.state) (marketIds : List Nat) :
    marketIds.foldl Engine.rebuildMarket e =
      {e with orderbook:=e.orderbook.addAll (marketIds.flatMap fun marketId => ledger.filter (·.marketId = marketId))} := by
  induction marketIds generalizing e with
  | nil => rfl
  | cons marketId marketIds ih =>
    have book : e.orderbook.addAll ((marketId :: marketIds).flatMap fun id => ledger.filter (·.marketId = id)) =
        (e.orderbook.addAll (ledger.filter (·.marketId = marketId))).addAll
          (marketIds.flatMap fun id => ledger.filter (·.marketId = id)) := by
      simp [OrderbookManager.addAll,List.foldl_append]
    rw [List.foldl_cons,rebuildMarket_eq shown same,book]
    exact ih (e:={e with orderbook:=e.orderbook.addAll (ledger.filter (·.marketId = marketId))}) same

structure Registered (s : StateManager) (ledger : Ledger) : Prop where
  once : s.listAllMarkets.Nodup
  listed : ∀ marketId market, s.getMarket marketId = some market → marketId ∈ s.listAllMarkets
  placed : ∀ order ∈ ledger, order.marketId ∈ s.listAllMarkets

theorem filter_markets (registered : Registered s ledger) (slot : Slot) :
    (s.listAllMarkets.flatMap fun marketId => ledger.filter (·.marketId = marketId)).filter (·.slot = slot) =
      ledger.filter (·.slot = slot) := by
  have here : ∀ marketId, (ledger.filter (·.marketId = marketId)).filter (·.slot = slot) =
      if marketId = slot.marketId then ledger.filter (·.slot = slot) else [] := by
    intro marketId
    rw [List.filter_filter]
    by_cases same : marketId = slot.marketId
    · rw [if_pos same]
      refine List.filter_congr fun order _ => ?_
      by_cases sits : order.slot = slot
      · have market : order.marketId = slot.marketId := congrArg Slot.marketId sits
        simp [sits,market,same]
      · simp [sits]
    · rw [if_neg same]
      refine List.filter_eq_nil_iff.mpr fun order _ both => ?_
      simp only [Bool.and_eq_true,decide_eq_true_eq] at both
      exact same (both.2.symm.trans (congrArg Slot.marketId both.1))
  rw [List.filter_flatMap,funext here,KeyedList.flatMap_single (fun _ => ledger.filter (·.slot = slot)) registered.once]
  split
  · rfl
  · rename_i unlisted
    refine (List.filter_eq_nil_iff.mpr fun order member sits => unlisted ?_).symm
    have market : order.marketId = slot.marketId := congrArg Slot.marketId (of_decide_eq_true sits)
    exact market ▸ registered.placed order member

theorem level_eq_ofOrders (shown : Represents d ledger) (exact_ : Totals d ledger)
    (fits : ∀ slot, ledger.total slot < 2 ^ 64) (slot : Slot) :
    d.level slot = PriceLevel.ofOrders (ledger.filter (·.slot = slot)) := by
  have queue := shown.queued slot
  unfold PriceLevel.ofOrders
  cases found : d.level slot with
  | none =>
    rw [Desk.queue,found] at queue
    rw [if_pos (List.map_eq_nil_iff.mp queue.symm)]
  | some level =>
    rw [Desk.queue,found] at queue
    have peopled := shown.peopled slot level found
    have total := exact_.sums slot level found
    have queue : level.orders = (ledger.filter (·.slot = slot)).map Order.id := queue
    have some_ : ledger.filter (·.slot = slot) ≠ [] := by
      intro empty
      rw [queue,empty] at peopled
      exact peopled rfl
    rw [if_neg some_,← queue,sumWrap_of_lt (fits slot),← Ledger.total,← total]

theorem rebuilt_level (shown : Represents e.desk ledger) (exact_ : Totals e.desk ledger)
    (fits : ∀ slot, ledger.total slot < 2 ^ 64) (registered : Registered e.state ledger) :
    e.rebuildOrderbookFromState = {e with orderbook:=e.rebuildOrderbookFromState.orderbook} ∧
      e.rebuildOrderbookFromState.orderbook.level = e.orderbook.level := by
  have rebuilt := rebuildMarkets_eq (e:={e with orderbook:=.new}) shown rfl e.state.listAllMarkets
  rw [← Engine.rebuildOrderbookFromState] at rebuilt
  refine ⟨by rw [rebuilt],?_⟩
  funext slot
  rw [rebuilt]
  dsimp only
  rw [level_addAll,filter_markets registered]
  exact (level_eq_ofOrders shown exact_ fits slot).symm

end Recovery

def StateKey.ofMarkets : StateKey → Bool
  | .market _ | .marketList => true
  | _ => false

-- The engines of the runs in which every sum of a level stays in its word, over markets
-- that `set_market` has registered. Everything else that the program does leaves the keys
-- of orders and markets and the book alone.
inductive Recoverable : Engine → Prop where
  | start (empty : state.NoOrders) (unregistered : ∀ key, key.ofMarkets → state.get key = none) :
      Recoverable (Engine.new state)
  | setMarket (reached : Recoverable e) (marketId : Nat) (info : Market) :
      Recoverable {e with state:=e.state.setMarket marketId info}
  | call (reached : Recoverable e) (call : Call) (fits : ∀ slot, (e.after call).desk.levelSum slot < 2 ^ 64) :
      Recoverable (e.after call)
  | elsewhere (reached : Recoverable e) (spared : Spares (fun key => key.ofOrders || key.ofMarkets) e after) :
      Recoverable after

namespace Recovery
variable {e after : Engine} {ledger : Ledger} {d : Desk}

theorem listAllMarkets_of_agree {s t : StateManager} (agree : StateManager.Agree keys s t) (chosen : keys .marketList) :
    t.listAllMarkets = s.listAllMarkets := by
  rw [StateManager.listAllMarkets,agree _ chosen,StateManager.listAllMarkets]

theorem Registered.of_agree {s t : StateManager} (registered : Registered s ledger)
    (agree : StateManager.Agree keys s t) (chosen : ∀ key, key.ofMarkets → keys key)
    (placed : ∀ order ∈ ledger', order.marketId ∈ s.listAllMarkets) : Registered t ledger' := by
  have list := listAllMarkets_of_agree agree (chosen .marketList rfl)
  refine ⟨by rw [list]; exact registered.once,fun marketId market found => ?_,by rw [list]; exact placed⟩
  rw [list]
  exact registered.listed marketId market ((agree _ (chosen (.market marketId) rfl)).symm.trans found)

theorem Registered.setMarket {s : StateManager} (registered : Registered s ledger) (marketId : Nat) (info : Market) :
    Registered (s.setMarket marketId info) ledger := by
  have list : (s.set (.market marketId) info).listAllMarkets = s.listAllMarkets :=
    congrArg (Option.getD · []) (StateManager.get_set_ne _ _ (by simp))
  have markets : ∀ {t : StateManager}, (∀ read, t.getMarket read = (s.set (.market marketId) info).getMarket read) →
      t.listAllMarkets.Nodup → marketId ∈ t.listAllMarkets → (∀ other ∈ s.listAllMarkets, other ∈ t.listAllMarkets) →
      Registered t ledger := by
    intro t reads once own others
    refine ⟨once,fun other market found => ?_,fun order member => others _ (registered.placed order member)⟩
    by_cases same : other = marketId
    · rw [same]; exact own
    · rw [reads,StateManager.getMarket,StateManager.get_set_ne _ _ (by simpa using same)] at found
      exact others _ (registered.listed other market found)
  unfold StateManager.setMarket
  dsimp only
  rw [list]
  split
  · rename_i known
    refine markets (fun _ => rfl) ?_ ?_ ?_ <;> rw [list]
    · exact registered.once
    · exact known
    · exact fun _ inside => inside
  · rename_i unknown
    have longer : ((s.set (.market marketId) info).set .marketList (s.listAllMarkets ++ [marketId])).listAllMarkets =
        s.listAllMarkets ++ [marketId] := by rw [StateManager.listAllMarkets,StateManager.get_set_self]; rfl
    refine markets (fun read => StateManager.get_set_ne _ _ (by simp)) ?_ ?_ ?_ <;> rw [longer]
    · exact registered.once.append (List.nodup_singleton _) (List.disjoint_singleton.mpr unknown)
    · simp
    · exact fun _ inside => List.mem_append_left _ inside

structure Sound (e : Engine) (ledger : Ledger) : Prop where
  shown : Represents e.desk ledger
  totals : Totals e.desk ledger
  fits : ∀ slot, ledger.total slot < 2 ^ 64
  registered : Registered e.state ledger

theorem Sound.step (sound : Sound e ledger) (step : Step e.desk ledger [] after.desk ledger)
    (registered : Registered after.state ledger) : Sound after ledger :=
  ⟨step.represents sound.shown,step.totals sound.shown sound.totals,sound.fits,registered⟩

theorem Sound.call (sound : Sound e ledger) (call : Call) (fits : ∀ slot, (e.after call).desk.levelSum slot < 2 ^ 64) :
    ∃ ledger', Sound (e.after call) ledger' := by
  obtain ⟨trades,ledger',conduct⟩ := Engine.after_conducts sound.shown call
  have shown := Consistency.conducts_represents conduct sound.shown
  refine ⟨ledger',shown,Consistency.conducts_totals conduct sound.shown sound.totals fits,?_,?_⟩
  · intro slot
    rw [← shown.levelSum_eq]
    exact fits slot
  · refine sound.registered.of_agree (Frame.after_spared e call) (fun key chosen => ?_) fun order member => ?_
    · cases key <;> first | rfl | cases chosen
    · rcases after_origin sound.shown (shown.stored order member) with ⟨before,found,evolves⟩ | ⟨trader,request,_,_,placed⟩
      · have active := Crossing.active_before evolves (shown.live order member).1
        rw [evolves.identity.2.2.1]
        exact sound.registered.placed before ((sound.shown.complete _ before found).2.2 active)
      · obtain ⟨market,valid⟩ := placed.validated
        obtain ⟨status,rfl⟩ := placed.identity
        exact sound.registered.listed _ market (validateOrder_ok valid).1

theorem recoverable_sound (reached : Recoverable e) : ∃ ledger, Sound e ledger := by
  induction reached with
  | @start state empty unregistered =>
    have list : state.listAllMarkets = [] := by rw [StateManager.listAllMarkets,unregistered .marketList rfl]; rfl
    refine ⟨[],Consistency.represents_new empty,Consistency.totals_new _,fun _ => by simp [Ledger.total],?_⟩
    refine ⟨by rw [Engine.new,list]; exact List.nodup_nil,fun marketId market found => ?_,by simp⟩
    have found : state.get (.market marketId) = some market := found
    rw [unregistered (.market marketId) rfl] at found
    cases found
  | @setMarket before _ marketId info ih =>
    obtain ⟨ledger,sound⟩ := ih
    have spared : StateManager.Agree StateKey.ofOrders before.state (before.state.setMarket marketId info) :=
      (StateManager.Agree.refl _ before.state).setMarket rfl rfl
    exact ⟨ledger,sound.step (.elsewhere spared) (sound.registered.setMarket marketId info)⟩
  | call _ call fits ih =>
    obtain ⟨ledger,sound⟩ := ih
    exact sound.call call fits
  | elsewhere _ spared ih =>
    obtain ⟨ledger,sound⟩ := ih
    have orders : Spares StateKey.ofOrders _ _ :=
      ⟨fun key chosen => spared.reads key (by simp [chosen]),spared.orderbook,spared.borrowed⟩
    exact ⟨ledger,sound.step orders.step
      (sound.registered.of_agree spared.reads (fun key chosen => by simp [chosen]) sound.registered.placed)⟩

-- Recovery: the rebuilt book has the live levels, the state is as it was, and from there on
-- the two engines cannot be told apart, by the fills least of all.
theorem rebuilds_live_book (reached : Recoverable e) :
    let rebuilt := e.rebuildOrderbookFromState
    (∀ slot, rebuilt.orderbook.level slot = e.orderbook.level slot) ∧ rebuilt.state = e.state ∧
      ∀ calls, rebuilt.results calls = e.results calls ∧
        (rebuilt.run calls).context = (e.run calls).context ∧ (rebuilt.run calls).state = (e.run calls).state ∧
        (∀ slot, (rebuilt.run calls).orderbook.level slot = (e.run calls).orderbook.level slot) ∧
        ∀ order, (rebuilt.run calls).fillsFor order = (e.run calls).fillsFor order := by
  obtain ⟨ledger,sound⟩ := recoverable_sound reached
  obtain ⟨same,levels⟩ := rebuilt_level sound.shown sound.totals sound.fits sound.registered
  have twin : Twin Eq e e.rebuildOrderbookFromState := by
    rw [same]
    exact ⟨rfl,levels,rfl,rfl,rfl⟩
  refine ⟨congrFun levels,by rw [same],fun calls => ?_⟩
  obtain ⟨results,final⟩ := run_twin mirrors_eq.observes twin calls
  refine ⟨results,final.context,final.state.symm,congrFun final.levels,fun order => ?_⟩
  unfold Engine.fillsFor
  rcases matchOrder_twin (kin_twin mirrors_eq.observes) final order with ⟨error,left,right⟩ | ⟨m,n,left,right,_,_,fills,_⟩
  · rw [left,right]
  · rw [left,right]
    exact congrArg Except.ok fills

theorem recoverable_run (start : Recoverable (Engine.new state)) (fits : Consistency.Fits (Engine.new state) calls) :
    Recoverable ((Engine.new state).run calls) := by
  induction calls using List.reverseRecOn with
  | nil => exact start
  | append_singleton calls call ih =>
    have last := fits _ (List.prefix_refl _)
    rw [Engine.run_append] at last ⊢
    exact .call (ih fun before earlier => fits before (earlier.trans (List.prefix_append _ _))) call last

theorem recoverable_bench : Recoverable (Engine.new Bench.state) := by
  have fresh : ∀ key : StateKey, Bench.fresh.get key = none := fun key => Storage.Db.getValueOption_empty 0 key
  have empty : Bench.fresh.NoOrders := ⟨fun _ => fresh _,fun _ => by
    rw [StateManager.getActiveOrdersByMarket,fresh]; rfl⟩
  refine .elsewhere (.setMarket (.start empty fun key _ => fresh key) 0 Bench.market) ⟨?_,rfl,rfl⟩
  exact (((StateManager.Agree.refl _ _).set rfl).set rfl).set rfl

theorem rebuilds_live_book_partial_fill :
    let calls : List Call := [.placeOrder Bench.alice (Bench.limit false 100 5 .gtc),
      .placeOrder Bench.carol (Bench.limit false 100 4 .gtc),.placeOrder Bench.bob (Bench.limit true 100 3 .gtc)]
    let e := (Engine.new Bench.state).run calls
    e.orderbook.level ⟨0,false,100⟩ = some ⟨[0,1],6⟩ ∧
      e.rebuildOrderbookFromState.orderbook.level ⟨0,false,100⟩ = some ⟨[0,1],6⟩ := by
  intro calls e
  have live : e.orderbook.level ⟨0,false,100⟩ = some ⟨[0,1],6⟩ := by decide +kernel
  have fits : Consistency.Fits (Engine.new Bench.state) calls :=
    Consistency.fits_of_outstanding Bench.noOrders (by decide +kernel)
  exact ⟨live,((rebuilds_live_book (recoverable_run recoverable_bench fits)).1 _).trans live⟩

-- Two orders whose sizes add up to 2^64 leave a level with total zero; once one of them is
-- cancelled, the rebuilt level has the size of the other and the live one still has none.
theorem rebuilt_total_differs :
    let calls : List Call := [.placeOrder Bench.alice (Bench.limit false 100 (2 ^ 63) .gtc),
      .placeOrder Bench.carol (Bench.limit false 100 (2 ^ 63) .gtc),.cancelOrder Bench.carol ⟨1⟩]
    let e := (Engine.new Bench.state).run calls
    (Engine.new Bench.state).results calls = [.ok (some 0),.ok (some 1),.ok none] ∧
      e.orderbook.level ⟨0,false,100⟩ = some ⟨[0],0⟩ ∧
      e.rebuildOrderbookFromState.orderbook.level ⟨0,false,100⟩ = some ⟨[0],2 ^ 63⟩ := by
  refine ⟨?_,?_,?_⟩ <;> decide +kernel

end Recovery
end Pranklin
