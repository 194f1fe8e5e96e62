import Pranklin.Prices

namespace Pranklin
open Words Effect OrderService OrderbookManager

def RefusedEarly (e : Engine) (trader : Address) (request : PlaceOrderTx) : Prop :=
  (∀ market, validateOrder e.state trader request ≠ .ok market) ∨ 2 ^ 64 ≤ e.state.orderCounter + 1

def OnlyMakes (e : Engine) (trader : Address) (request : PlaceOrderTx) : Prop :=
  let result := (exec (placeOrder trader request) e).1
  result = .error .postOnlyWouldTake ∨ (∃ error, result = .error error ∧ RefusedEarly e trader request) ∨
    (∃ orderId, result = .ok orderId) ∧ matchedFills e trader request = []

def Counterparty (e : Engine) (trader : Address) (request : PlaceOrderTx) : Prop :=
  ∃ orderId maker, e.state.getOrder orderId = some maker ∧ maker.status = .active ∧ maker.marketId = request.marketId ∧
    maker.isBuy = !request.isBuy ∧ maker.owner ≠ trader ∧ crosses (incoming e trader request) maker.price = true

-- The two fields contradict each other: the time in force says post-only to a matcher that reads the flag, or the
-- flag is on an order that must be filled.
structure Unheeded (e : Engine) (trader : Address) (request : PlaceOrderTx) : Prop extends Admitted e trader request where
  sized : 0 < request.size
  conflict : request.timeInForce = .fok ∨ request.postOnly = false ∧ Counterparty e trader request

namespace PostOnly
variable {e after : Engine} {ledger : Ledger} {trader : Address} {request : PlaceOrderTx} {state : StateManager}
  {book : OrderbookManager} {order : Order}

-- The quick test sees the best price only, and no price behind it crosses when it does not.
theorem wouldMatch_of_crossing (queued : Queued (book.desk state)) {maker : Order}
    (inside : maker ∈ book.priorityLine state order) (crossing : crosses order maker.price = true) :
    book.wouldMatch order = true := by
  obtain ⟨price,listed,resting⟩ := List.mem_flatMap.mp inside
  rw [price_of_mem_resting queued resting] at crossing
  have sorted := bestFirst_sorted (!order.isBuy) (book.side (!order.isBuy) order.marketId)
  unfold wouldMatch
  cases prices : bestFirst (!order.isBuy) (book.side (!order.isBuy) order.marketId) with
  | nil =>
    rw [prices] at listed
    cases listed
  | cons best rest =>
    rw [prices] at listed sorted
    have first : price = best ∨ ahead (!order.isBuy) best price := by
      rcases List.mem_cons.mp listed with same | later
      · exact .inl same
      · exact .inr (List.rel_of_pairwise_cons sorted later)
    dsimp only
    split
    · rfl
    · rename_i limited
      unfold crosses at crossing
      rw [decide_eq_false limited,Bool.false_or] at crossing
      cases isBuy : order.isBuy with
      | true =>
        simp only [isBuy,if_true,decide_eq_true_eq,ahead,Bool.not_true,Bool.false_eq_true,if_false] at crossing first ⊢
        omega
      | false =>
        simp only [isBuy,Bool.false_eq_true,if_false,decide_eq_true_eq,ahead,Bool.not_false,if_true] at crossing first ⊢
        omega

theorem flag_meets_nobody (shown : Represents e.desk ledger) (flag : request.postOnly = true)
    (passes : e.orderbook.passesPostOnly (incoming e trader request) = true) : ¬Counterparty e trader request := by
  rintro ⟨orderId,maker,found,active,market,side,_,crossing⟩
  have queued := queued_issued shown.toQueued
  have keyed := shown.toQueued.keyed orderId maker found
  have reads : (issued e).state.getOrder maker.id = some maker :=
    ((Atomicity.untouched_issued e).orders _).trans (keyed ▸ found)
  have inside : maker ∈ e.orderbook.priorityLine (issued e).state (incoming e trader request) :=
    (mem_priorityLine queued).mpr ⟨reads,active,market,side⟩
  have matches_ := wouldMatch_of_crossing queued inside crossing
  rw [passesPostOnly,matches_,Bool.and_true] at passes
  have flagged : (incoming e trader request).postOnly = true := flag
  rw [flagged] at passes
  cases passes

theorem trades_iff (admitted : Admitted e trader request) :
    Atomicity.Trades e trader request ↔ 0 < request.size ∧ Counterparty e trader request :=
  ⟨fun trades => ⟨trades.sized,trades.counterparty⟩,fun ⟨sized,counterparty⟩ =>
    ⟨admitted.valid,admitted.counter,admitted.passes,sized,counterparty⟩⟩

theorem not_early (admitted : Admitted e trader request) : ¬RefusedEarly e trader request := by
  obtain ⟨⟨market,valid⟩,counter,_⟩ := admitted
  rintro (invalid | full)
  · exact invalid market valid
  · exact Nat.not_lt.mpr full counter

section Matched
variable {market : Market} {middle : Engine} (shown : Represents e.desk ledger)
  (matched : Matched e trader request market middle)
include shown matched

theorem fillsOf_eq_nil_iff : fillsOf e trader request = [] ↔ ¬(0 < request.size ∧ Counterparty e trader request) := by
  rw [fillsOf,List.map_eq_nil_iff,Atomicity.takesOf_eq_nil_iff shown matched,trades_iff (admitted_of_matched matched)]

theorem flagless (counterparty : Counterparty e trader request) : request.postOnly = false := by
  by_contra flag
  exact flag_meets_nobody shown (Bool.eq_true_of_not_eq_false flag) matched.passes counterparty

theorem unheeded_of_fills (filled : fillsOf e trader request ≠ []) : Unheeded e trader request := by
  have trades := not_not.mp (mt (fillsOf_eq_nil_iff shown matched).mpr filled)
  exact ⟨admitted_of_matched matched,trades.1,.inr ⟨flagless shown matched trades.2,trades.2⟩⟩

theorem heeded_of_settled {last : Engine} (nothing : fillsOf e trader request = [])
    (ended : exec (settleOrder (remainder e trader request) request.timeInForce) last = (.ok (),after)) :
    ¬Unheeded e trader request := by
  intro unheeded
  rcases unheeded.conflict with kill | ⟨_,counterparty⟩
  · have none_ : takesOf e trader request = [] := List.map_eq_nil_iff.mp nothing
    have whole : (remainder e trader request).remainingSize = request.size := by
      rw [remainder,none_]
      exact Nat.sub_zero _
    have left : (remainder e trader request).remainingSize ≠ 0 := by
      rw [whole]
      exact Nat.ne_of_gt unheeded.sized
    unfold settleOrder at ended
    rw [if_neg left,kill] at ended
    cases ended
  · exact (fillsOf_eq_nil_iff shown matched).mp nothing ⟨unheeded.sized,counterparty⟩

end Matched

theorem onlyMakes_iff (reached : Reachable e) : OnlyMakes e trader request ↔ ¬Unheeded e trader request := by
  obtain ⟨ledger,shown⟩ := Atomicity.reachable_represents reached
  have ran := exec_of_result (rfl : (exec (placeOrder trader request) e).1 = _)
  unfold OnlyMakes
  have placed := placeOrder_placement shown.toQueued ran
  generalize (exec (placeOrder trader request) e).1 = result at placed ⊢
  generalize (exec (placeOrder trader request) e).2 = after at placed
  cases placed with
  | refused error reason =>
    have early : RefusedEarly e trader request := by
      rcases reason with invalid | full
      · exact .inl fun market valid => by rw [valid] at invalid; cases invalid
      · exact .inr full
    exact iff_of_true (.inr (.inl ⟨error,rfl,early⟩)) fun unheeded => not_early unheeded.toAdmitted early
  | turnedAway fails =>
    refine iff_of_true (.inl rfl) fun unheeded => ?_
    have passes := unheeded.passes
    rw [fails] at passes
    cases passes
  | broken matched failed =>
    have filled : fillsOf e trader request ≠ [] := by
      intro nothing
      rw [nothing] at failed
      cases failed
    refine iff_of_false ?_ fun heeded => heeded (unheeded_of_fills shown matched filled)
    rintro (away | ⟨_,_,early⟩ | ⟨⟨_,done⟩,_⟩)
    · cases processFills_overflow failed
      cases away
    · exact not_early (admitted_of_matched matched) early
    · cases done
  | killed matched filled short kill =>
    have sized : 0 < request.size := by
      change request.size - _ ≠ 0 at short
      omega
    refine iff_of_false ?_ fun heeded => heeded ⟨admitted_of_matched matched,sized,.inl kill⟩
    rintro (away | ⟨_,_,early⟩ | ⟨⟨_,done⟩,_⟩)
    · cases away
    · exact not_early (admitted_of_matched matched) early
    · cases done
  | settled matched filled ended =>
    rw [matchedFills_of_admitted shown.toQueued (admitted_of_matched matched)]
    constructor
    · rintro (away | ⟨_,failed,_⟩ | ⟨_,nothing⟩)
      · cases away
      · cases failed
      · exact heeded_of_settled shown matched nothing ended
    · intro heeded
      exact .inr (.inr ⟨⟨_,rfl⟩,not_not.mp fun filled => heeded (unheeded_of_fills shown matched filled)⟩)

def offering : Engine := (Engine.new Bench.state).run [.placeOrder Bench.alice Bench.ask]

-- The time in force asks for post-only, the flag is not set, and the order takes what is for sale.
theorem post_only_takes :
    Reachable offering ∧ (Bench.limit true 100 5 .postOnly).timeInForce = .postOnly ∧
      (exec (placeOrder Bench.bob (Bench.limit true 100 5 .postOnly)) offering).1 = .ok 1 ∧
      (matchedFills offering Bench.bob (Bench.limit true 100 5 .postOnly)).map Fill.size = [5] ∧
      ¬OnlyMakes offering Bench.bob (Bench.limit true 100 5 .postOnly) := by
  have done : (exec (placeOrder Bench.bob (Bench.limit true 100 5 .postOnly)) offering).1 = .ok 1 := by decide +kernel
  have sizes : (matchedFills offering Bench.bob (Bench.limit true 100 5 .postOnly)).map Fill.size = [5] := by
    decide +kernel
  refine ⟨Atomicity.reachable_run (.start Bench.noOrders) _,rfl,done,sizes,?_⟩
  unfold OnlyMakes
  rw [done]
  rintro (away | ⟨_,failed,_⟩ | ⟨_,nothing⟩)
  · cases away
  · cases failed
  · rw [nothing] at sizes
    cases sizes

theorem onlyMakes_iff_on_bench :
    OnlyMakes offering Bench.bob (Bench.limit true 90 5 .postOnly) ↔
      ¬Unheeded offering Bench.bob (Bench.limit true 90 5 .postOnly) :=
  onlyMakes_iff (Atomicity.reachable_run (.start Bench.noOrders) _)

end PostOnly
end Pranklin
