import Mathlib.Algebra.Order.BigOperators.Group.List
import Mathlib.Algebra.Order.Group.Nat
import Pranklin.Calls

namespace Pranklin
open OrderbookManager (ahead depthOf getDepth)

namespace Consistency
variable {state : StateManager} {d : Desk} {ledger : Ledger} {calls : List Call}

theorem represents_new (empty : state.NoOrders) : Represents (Engine.new state).desk [] where
  distinct := List.nodup_nil
  stored := by simp
  live := by simp
  complete orderId order found := absurd found (empty.absent orderId order)
  listed marketId := empty.active marketId
  queued slot := by simp [Desk.queue,Engine.desk,Engine.new,Ledger.queue]
  peopled slot found := by simp [Engine.desk,Engine.new]

theorem totals_new (state : StateManager) : Totals (Engine.new state).desk [] where
  sums slot found := by simp [Engine.desk,Engine.new]
  sound := rfl

theorem conducts_represents (conduct : Conducts d ledger trades d' ledger') (shown : Represents d ledger) :
    Represents d' ledger' := by
  obtain ⟨middle,ledger₁,path,ending⟩ := conduct
  exact ending.represents (path.represents shown)

theorem conducts_ascending (conduct : Conducts d ledger trades d' ledger') (shown : Represents d ledger)
    (ascending : (ledger.map Order.id).Pairwise (· < ·)) : (ledger'.map Order.id).Pairwise (· < ·) := by
  obtain ⟨middle,ledger₁,path,ending⟩ := conduct
  exact ending.ascending (path.represents shown) (ascending.sublist path.ids)

theorem conducts_totals (conduct : Conducts d ledger trades d' ledger') (shown : Represents d ledger)
    (exact_ : Totals d ledger) (fits : ∀ slot, d'.levelSum slot < 2 ^ 64) : Totals d' ledger' := by
  have after := conducts_represents conduct shown
  obtain ⟨middle,ledger₁,path,ending⟩ := conduct
  refine ending.totals (path.represents shown) (path.totals shown exact_) fun slot => ?_
  rw [← after.levelSum_eq]
  exact fits slot

theorem run_represents (empty : state.NoOrders) (calls : List Call) :
    ∃ ledger, Represents ((Engine.new state).run calls).desk ledger := by
  induction calls using List.reverseRecOn with
  | nil => exact ⟨[],represents_new empty⟩
  | append_singleton calls call ih =>
    obtain ⟨ledger,shown⟩ := ih
    obtain ⟨trades,ledger',conduct⟩ := Engine.after_conducts shown call
    rw [Engine.run_append]
    exact ⟨ledger',conducts_represents conduct shown⟩

def Fits (e : Engine) (calls : List Call) : Prop :=
  ∀ before, before <+: calls → ∀ slot, (e.run before).desk.levelSum slot < 2 ^ 64

theorem run_totals (empty : state.NoOrders) (fits : Fits (Engine.new state) calls) :
    ∃ ledger, Represents ((Engine.new state).run calls).desk ledger ∧
      Totals ((Engine.new state).run calls).desk ledger := by
  induction calls using List.reverseRecOn with
  | nil => exact ⟨[],represents_new empty,totals_new state⟩
  | append_singleton calls call ih =>
    obtain ⟨ledger,shown,exact_⟩ := ih fun before earlier => fits before (earlier.trans (List.prefix_append _ _))
    obtain ⟨trades,ledger',conduct⟩ := Engine.after_conducts shown call
    have last := fits _ (List.prefix_refl _)
    rw [Engine.run_append] at last ⊢
    exact ⟨ledger',conducts_represents conduct shown,conducts_totals conduct shown exact_ last⟩

-- A bound on every sum that can be computed: what remains of all the orders ever stored.
def outstanding (e : Engine) : Nat :=
  ((List.range e.state.orderCounter).map fun orderId => (e.state.getOrder orderId).elim 0 Order.remainingSize).sum

theorem levelSum_le_outstanding {e : Engine} (shown : Represents e.desk ledger) (slot : Slot) :
    e.desk.levelSum slot ≤ outstanding e := by
  have read : ∀ order ∈ ledger.filter (·.slot = slot),
      order.remainingSize = (e.state.getOrder order.id).elim 0 Order.remainingSize := by
    intro order chosen
    have stored : e.state.getOrder order.id = some order := shown.stored order (List.mem_filter.mp chosen).1
    rw [stored]
    rfl
  have known : (ledger.queue slot).Subperm (List.range e.state.orderCounter) := by
    refine (shown.queue_nodup slot).subperm fun orderId inside => ?_
    obtain ⟨order,chosen,rfl⟩ := List.mem_map.mp inside
    exact List.mem_range.mpr (shown.complete _ order (shown.stored order (List.mem_filter.mp chosen).1)).2.1
  obtain ⟨listed,perm,sublist⟩ := known
  rw [shown.levelSum_eq,Ledger.total,List.map_congr_left read]
  rw [Ledger.queue] at perm
  have sums := (perm.map fun orderId => (e.state.getOrder orderId).elim 0 Order.remainingSize).sum_eq
  rw [List.map_map] at sums
  exact Nat.le_trans (Nat.le_of_eq sums.symm) ((sublist.map _).sum_le_sum fun _ _ => Nat.zero_le _)

theorem fits_of_outstanding (empty : state.NoOrders)
    (small : ∀ before ∈ calls.inits, outstanding ((Engine.new state).run before) < 2 ^ 64) :
    Fits (Engine.new state) calls := by
  intro before earlier slot
  obtain ⟨ledger,shown⟩ := run_represents empty before
  exact Nat.lt_of_le_of_lt (levelSum_le_outstanding shown slot) (small before ((List.mem_inits _ _).mpr earlier))

structure DepthSide (d : Desk) (isBuy : Bool) (marketId : Nat) (entries : List (Nat × Nat)) : Prop where
  sorted : entries.Pairwise fun entry later => ahead isBuy entry.1 later.1
  sums : ∀ entry ∈ entries, entry.2 = d.levelSum ⟨marketId,isBuy,entry.1⟩ ∧ 0 < entry.2

theorem toList_side {book : OrderbookManager} {isBuy : Bool} {entry : Nat × PriceLevel} :
    entry ∈ (book.side isBuy marketId).toList ↔ book.level ⟨marketId,isBuy,entry.1⟩ = some entry.2 :=
  Std.TreeMap.mem_toList_iff_getElem?_eq_some

theorem total_pos (shown : Represents d ledger) (found : d.level slot = some level) : 0 < ledger.total slot := by
  have queue : level.orders = ledger.queue slot := by rw [← shown.queued,Desk.queue,found]; rfl
  obtain ⟨orderId,inside⟩ := List.exists_mem_of_ne_nil _ (shown.peopled slot level found)
  rw [queue] at inside
  obtain ⟨order,chosen,_⟩ := List.mem_map.mp inside
  obtain ⟨member,placed⟩ := List.mem_filter.mp chosen
  have most := Ledger.remainingSize_le_total shown.distinct member
  rw [of_decide_eq_true placed] at most
  exact Nat.lt_of_lt_of_le (shown.live order member).2 most

theorem depthOf_side (isBuy : Bool) {book : OrderbookManager} {levels : List (Nat × PriceLevel)} (shown : Represents d ledger)
    (exact_ : Totals d ledger) (reads : d.level = book.level)
    (sorted : levels.Pairwise fun entry later => ahead isBuy entry.1 later.1)
    (members : ∀ entry ∈ levels, entry ∈ (book.side isBuy marketId).toList) (count : Nat) :
    DepthSide d isBuy marketId (depthOf levels count) where
  sorted := List.pairwise_map.mpr (sorted.sublist (List.take_sublist _ _))
  sums := by
    intro entry inside
    obtain ⟨source,chosen,rfl⟩ := List.mem_map.mp inside
    have found : d.level ⟨marketId,isBuy,source.1⟩ = some source.2 := by
      rw [reads]
      exact toList_side.mp (members source (List.mem_of_mem_take chosen))
    have total := exact_.sums _ source.2 found
    exact ⟨total.trans (shown.levelSum_eq _).symm,total ▸ total_pos shown found⟩

theorem depth_sides {e : Engine} (shown : Represents e.desk ledger) (exact_ : Totals e.desk ledger)
    (marketId count : Nat) :
    DepthSide e.desk true marketId (e.orderbook.getDepth marketId count).1 ∧
      DepthSide e.desk false marketId (e.orderbook.getDepth marketId count).2 := by
  have ordered : ∀ levels : PriceLevels, levels.toList.Pairwise fun entry later => ahead false entry.1 later.1 :=
    fun levels => levels.ordered_keys_toList.imp fun less => Nat.compare_eq_lt.mp less
  constructor
  · exact depthOf_side true shown exact_ rfl (List.pairwise_reverse.mpr (ordered _))
      (fun entry inside => List.mem_reverse.mp inside) count
  · exact depthOf_side false shown exact_ rfl (ordered _) (fun entry inside => inside) count

theorem mem_depthOf {levels : List (Nat × PriceLevel)} {entry : Nat × PriceLevel} (inside : entry ∈ levels) :
    (entry.1,entry.2.totalSize) ∈ depthOf levels levels.length := by
  rw [depthOf,List.take_of_length_le (Nat.le_refl _)]
  exact List.mem_map_of_mem inside

-- What the reports leave out: a price with active orders is shown once enough levels
-- are asked for.
theorem depth_complete {e : Engine} (shown : Represents e.desk ledger) (exact_ : Totals e.desk ledger)
    (slot : Slot) (occupied : e.desk.levelSum slot ≠ 0) :
    ∃ count, (slot.price,e.desk.levelSum slot) ∈
      if slot.isBuy then (e.orderbook.getDepth slot.marketId count).1
      else (e.orderbook.getDepth slot.marketId count).2 := by
  cases found : e.desk.level slot with
  | none =>
    have queue : e.desk.queue slot = [] := by rw [Desk.queue,found]; rfl
    simp [Desk.levelSum,Desk.resting,queue] at occupied
  | some level =>
    have listed : (slot.price,level) ∈ (e.orderbook.side slot.isBuy slot.marketId).toList := toList_side.mpr found
    have total : level.totalSize = e.desk.levelSum slot :=
      (exact_.sums slot level found).trans (shown.levelSum_eq slot).symm
    rw [← total]
    cases side : slot.isBuy with
    | false => rw [side] at listed; exact ⟨_,mem_depthOf listed⟩
    | true => rw [side] at listed; exact ⟨_,mem_depthOf (List.mem_reverse.mpr listed)⟩

-- After every call of a run, whatever the outcomes: the queues, the totals, the depth
-- reports and the active lists are those of the active orders in state, and no
-- unchecked subtraction of the matching loop has gone below zero.
theorem run_consistent (empty : state.NoOrders) (fits : Fits (Engine.new state) calls) :
    let e := (Engine.new state).run calls
    Consistent e.desk ∧
      (∀ marketId count, DepthSide e.desk true marketId (e.orderbook.getDepth marketId count).1 ∧
        DepthSide e.desk false marketId (e.orderbook.getDepth marketId count).2) ∧
      (∀ slot, e.desk.levelSum slot ≠ 0 → ∃ count, (slot.price,e.desk.levelSum slot) ∈
        if slot.isBuy then (e.orderbook.getDepth slot.marketId count).1
        else (e.orderbook.getDepth slot.marketId count).2) ∧
      e.borrowed = false := by
  obtain ⟨ledger,shown,exact_⟩ := run_totals empty fits
  exact ⟨shown.toConsistent exact_,depth_sides shown exact_,depth_complete shown exact_,exact_.sound⟩

theorem run_consistent_partial_fill :
    let calls : List Call := [.placeOrder Bench.alice (Bench.limit false 100 5 .gtc),
      .placeOrder Bench.bob (Bench.limit true 90 5 .fok),.placeOrder Bench.bob (Bench.limit true 100 3 .gtc)]
    let e := (Engine.new Bench.state).run calls
    e.desk.levelSum ⟨0,false,100⟩ = 2 ∧ Consistent e.desk := by
  refine ⟨by decide +kernel,(run_consistent Bench.noOrders ?_).1⟩
  exact fits_of_outstanding Bench.noOrders (by decide +kernel)

end Consistency
end Pranklin
