import Pranklin.Consistency

namespace Pranklin
open Effect OrderService

def Event.filled (orderId : Nat) : Event → Nat
  | .orderFilled makerOrderId takerOrderId _ _ _ _ size _ _ _ =>
    (if makerOrderId = orderId then size else 0) + (if takerOrderId = orderId then size else 0)
  | _ => 0

def filledSize (events : List Event) (orderId : Nat) : Nat := (events.map (Event.filled orderId)).sum

@[simp] theorem filledSize_append (front back : List Event) (orderId : Nat) :
    filledSize (front ++ back) orderId = filledSize front orderId + filledSize back orderId := by simp [filledSize]

def OrderService.handsOut (e : Engine) (trader : Address) (request : PlaceOrderTx) : Option Nat :=
  match validateOrder e.state trader request,e.state.nextOrderId with
  | .ok _,.ok (orderId,_) => some orderId
  | _,_ => none

def Call.handsOut (e : Engine) (call : Call) : Option Nat :=
  (call.placing e).bind fun order => OrderService.handsOut e order.1 order.2

def Engine.handedOut (e : Engine) : List Call → List Nat
  | [] => []
  | call :: calls => (call.handsOut e).toList ++ (e.after call).handedOut calls

namespace Lifecycle
variable {e after : Engine} {ledger : Ledger} {trader : Address} {request : PlaceOrderTx} {calls : List Call}

theorem filledSize_fills (order : Order) (takes : List Take) (orderId : Nat) :
    filledSize ((takes.map (Take.fill order)).map fillEvent) orderId =
      tradedOf (tradesOf takes) orderId + (if order.id = orderId then takenSize takes else 0) := by
  induction takes with
  | nil => simp [filledSize,tradesOf]
  | cons take takes ih =>
    have first : Event.filled orderId (fillEvent (take.fill order)) =
        (if take.maker.id = orderId then take.size else 0) + (if order.id = orderId then take.size else 0) := rfl
    simp only [filledSize,tradesOf,List.map_cons,List.sum_cons,tradedOf_cons,takenSize_cons,first] at ih ⊢
    rw [ih]
    split <;> split <;> omega

-- The reported fills account for what every stored order has lost, and none is reported
-- for an id not handed out yet.
structure Accounted (e : Engine) : Prop where
  stored : ∀ orderId order, e.state.getOrder orderId = some order →
    order.remainingSize + filledSize e.context orderId = order.originalSize
  ahead : ∀ orderId, e.state.orderCounter ≤ orderId → filledSize e.context orderId = 0

theorem Accounted.steps (accounted : Accounted e) (shown : Represents e.desk ledger) (newIds : List Nat)
    (path : Steps e.desk ledger trades after.desk ledger')
    (reported : ∀ orderId, orderId ∉ newIds →
      filledSize after.context orderId = filledSize e.context orderId + tradedOf trades orderId)
    (fresh : ∀ orderId ∈ newIds, e.state.orderCounter ≤ orderId ∧ orderId < after.state.orderCounter) :
    Accounted after where
  stored orderId order found := by
    obtain ⟨before,present,traded⟩ := path.origin shown found
    have account := accounted.stored orderId before present
    have left := traded.account
    have same := traded.identity.2.2.2.2.2
    have known := (shown.complete orderId before present).2.1
    rw [reported orderId fun inside => Nat.not_lt.mpr (fresh orderId inside).1 known]
    omega
  ahead orderId above := by
    have before : e.state.orderCounter ≤ orderId := Nat.le_trans path.orderCounter_le above
    have absent : e.state.getOrder orderId = none := by
      cases found : e.state.getOrder orderId with
      | none => rfl
      | some order => exact absurd (shown.complete orderId order found).2.1 (Nat.not_lt.mpr before)
    rw [reported orderId fun inside => Nat.not_lt.mpr above (fresh orderId inside).2,
      accounted.ahead orderId before,path.traded_absent shown absent]

theorem Accounted.quiet (accounted : Accounted e) (shown : Represents e.desk ledger)
    (path : Steps e.desk ledger [] after.desk ledger')
    (context : ∀ orderId, filledSize after.context orderId = filledSize e.context orderId) : Accounted after :=
  accounted.steps shown [] path (fun orderId _ => by rw [context,tradedOf_nil,Nat.add_zero]) (by simp)

theorem Matched.accounted (matched : Matched e trader request market middle)
    (ran : exec (processFills market (fillsOf e trader request)) middle = (.ok (),filled))
    (shown : Represents e.desk ledger) (accounted : Accounted e) :
    let placed := {filled with context:=filled.context ++ [placedEvent e trader request]}
    Accounted placed ∧
      filledSize placed.context e.state.orderCounter = takenSize (takesOf e trader request) := by
  obtain ⟨ledger',path,fresh⟩ := matched.processed_steps ran shown
  have context : ∀ orderId, filledSize (filled.context ++ [placedEvent e trader request]) orderId =
      filledSize e.context orderId + tradedOf (tradesOf (takesOf e trader request)) orderId +
        (if e.state.orderCounter = orderId then takenSize (takesOf e trader request) else 0) := by
    intro orderId
    have own : (incoming e trader request).id = e.state.orderCounter := rfl
    have silent : filledSize [placedEvent e trader request] orderId = 0 := rfl
    rw [processFills_context ran,matched.context,filledSize_append,filledSize_append,fillsOf,filledSize_fills,own,
      silent,Nat.add_zero,Nat.add_assoc]
  intro placed
  constructor
  · refine accounted.steps shown [e.state.orderCounter] path (fun orderId known => ?_) ?_
    · have other : e.state.orderCounter ≠ orderId := fun same => known (by simp [same])
      rw [context,if_neg other,Nat.add_zero]
    · intro orderId inside
      obtain rfl := List.mem_singleton.mp inside
      exact ⟨Nat.le_refl _,Nat.lt_of_succ_le fresh.issued.le⟩
  · rw [context,if_pos rfl,accounted.ahead _ (Nat.le_refl _),path.traded_absent shown (getOrder_counter shown)]
    simp

theorem Placement.accounted (placement : Placement e trader request result after)
    (shown : Represents e.desk ledger) (accounted : Accounted e) (inWord : result ≠ .error .overflow) :
    Accounted after := by
  cases placement with
  | refused error reason => exact accounted
  | turnedAway fails => exact accounted.quiet shown (issued_step e).steps fun _ => rfl
  | broken matched ran => exact absurd (congrArg Except.error (processFills_overflow ran)) inWord
  | killed matched ran short kill => exact (Matched.accounted matched ran shown accounted).1
  | settled matched ran ended =>
    obtain ⟨before,own⟩ := Matched.accounted matched ran shown accounted
    obtain ⟨context,counter,status,reads⟩ := settleOrder_stores ended
    constructor
    · intro orderId order found
      rw [reads] at found
      rw [context]
      split at found
      · rename_i same
        cases found
        have bound := takenSize_takesOf_le e trader request
        rw [same]
        change request.size - takenSize (takesOf e trader request) + filledSize _ e.state.orderCounter = request.size
        rw [own]
        omega
      · exact before.stored orderId order found
    · intro orderId above
      rw [context]
      exact before.ahead orderId (counter ▸ above)

theorem Cancellation.context (cancellation : Cancellation e trader cancel result after) (orderId : Nat) :
    filledSize after.context orderId = filledSize e.context orderId := by
  cases cancellation with
  | refused error reason => rfl
  | cancelled order found active => rw [filledSize_append]; rfl

theorem after_accounted (shown : Represents e.desk ledger) (accounted : Accounted e) {call : Call}
    (inWord : e.result call ≠ .error .overflow) : Accounted (e.after call) := by
  cases call.outcome shown with
  | places trader request result placing placement fails returns =>
    exact Placement.accounted placement shown accounted fun failed => inWord (fails _ failed)
  | idles placing same fails => rw [same]; exact accounted
  | cancels trader cancel result placing cancellation returns =>
    obtain ⟨ledger',path⟩ := cancellation.steps shown
    exact accounted.quiet shown path (Cancellation.context cancellation)
  | liquidates ledger' liquidation placing path context returns =>
    exact accounted.quiet shown path fun orderId => by rw [context]

theorem conducts_stored (conduct : Conducts d ledger trades d' ledger') (shown : Represents d ledger)
    (found : d.state.getOrder orderId = some before) :
    ∃ later, d'.state.getOrder orderId = some later ∧ before.Evolves later := by
  obtain ⟨middle,ledger₁,path,ending⟩ := conduct
  obtain ⟨later,found,traded⟩ := path.stored shown found
  exact ⟨later,ending.stored found,traded.toEvolves⟩

theorem conducts_settled (conduct : Conducts d ledger trades d' ledger') (shown : Represents d ledger)
    (settled : Settled d) : Settled d' := by
  obtain ⟨middle,ledger₁,path,ending⟩ := conduct
  refine ending.settled fun orderId order found => ?_
  obtain ⟨before,present,traded⟩ := path.origin shown found
  exact traded.settled (settled orderId before present)

theorem conducts_orderCounter_le (conduct : Conducts d ledger trades d' ledger') :
    d.state.orderCounter ≤ d'.state.orderCounter := by
  obtain ⟨middle,ledger₁,path,ending⟩ := conduct
  rw [ending.orderCounter_eq]
  exact path.orderCounter_le

-- The id handed out is the counter, and the counter has moved past it when the call is over.
theorem handsOut_eq (taken : OrderService.handsOut e trader request = some orderId) :
    orderId = e.state.orderCounter ∧ (∃ market, validateOrder e.state trader request = .ok market) ∧
      e.state.orderCounter + 1 < 2 ^ 64 := by
  unfold OrderService.handsOut at taken
  split at taken
  · rename_i market id state validated next
    cases taken
    obtain ⟨own,_,counter⟩ := StateManager.nextOrderId_cases next
    exact ⟨own,⟨market,validated⟩,counter⟩
  · cases taken

theorem Placement.orderCounter_lt (placement : Placement e trader request result after)
    (shown : Represents e.desk ledger) (taken : OrderService.handsOut e trader request = some orderId) :
    e.state.orderCounter < after.state.orderCounter := by
  obtain ⟨_,⟨market,validated⟩,counter⟩ := handsOut_eq taken
  cases placement with
  | refused error reason =>
    rcases reason with invalid | full
    · rw [validated] at invalid; cases invalid
    · omega
  | turnedAway fails => simp [issued,StateManager.orderCounter,StateManager.get_set_self]
  | broken matched ran => exact Nat.lt_of_succ_le (matched.processed_steps ran shown).choose_spec.2.issued.le
  | killed matched ran short kill => exact Nat.lt_of_succ_le (matched.processed_steps ran shown).choose_spec.2.issued.le
  | settled matched ran ended =>
    rw [(settleOrder_stores ended).2.1]
    exact Nat.lt_of_succ_le (matched.processed_steps ran shown).choose_spec.2.issued.le

theorem after_handsOut (shown : Represents e.desk ledger) {call : Call} (taken : call.handsOut e = some orderId) :
    orderId = e.state.orderCounter ∧ orderId < (e.after call).state.orderCounter := by
  cases call.outcome shown with
  | places trader request result placing placement fails returns =>
    rw [Call.handsOut,placing] at taken
    have own := (handsOut_eq taken).1
    exact ⟨own,own ▸ Placement.orderCounter_lt placement shown taken⟩
  | idles placing _ _ | cancels _ _ _ placing _ _ | liquidates _ _ placing _ _ _ =>
    rw [Call.handsOut,placing] at taken
    cases taken

theorem result_handsOut (shown : Represents e.desk ledger) {call : Call}
    (returned : e.result call = .ok (some orderId)) : call.handsOut e = some orderId := by
  cases call.outcome shown with
  | places trader request result placing placement fails returns =>
    obtain rfl := returns orderId returned
    cases placement with
    | settled matched ran ended =>
      rw [Call.handsOut,placing,Option.bind_some,OrderService.handsOut,matched.validated,
        StateManager.nextOrderId_of_lt matched.counter]
  | idles placing same fails => obtain ⟨error,failed⟩ := fails; rw [failed] at returned; cases returned
  | cancels _ _ _ _ _ returns | liquidates _ _ _ _ _ returns => exact absurd returned (returns orderId)

theorem handedOut_increasing (shown : Represents e.desk ledger) (calls : List Call) :
    (e.handedOut calls).Pairwise (· < ·) ∧ ∀ orderId ∈ e.handedOut calls, e.state.orderCounter ≤ orderId := by
  induction calls generalizing e ledger with
  | nil => simp [Engine.handedOut]
  | cons call calls ih =>
    obtain ⟨trades,ledger',conduct⟩ := Engine.after_conducts shown call
    obtain ⟨sorted,bound⟩ := ih (Consistency.conducts_represents conduct shown)
    have grows : e.state.orderCounter ≤ (e.after call).state.orderCounter := conducts_orderCounter_le conduct
    cases taken : call.handsOut e with
    | none =>
      simp only [Engine.handedOut,taken,Option.toList_none,List.nil_append]
      exact ⟨sorted,fun orderId inside => Nat.le_trans grows (bound orderId inside)⟩
    | some own =>
      obtain ⟨rfl,below⟩ := after_handsOut shown taken
      simp only [Engine.handedOut,taken,Option.toList_some,List.singleton_append]
      refine ⟨List.pairwise_cons.mpr ⟨fun orderId inside => Nat.lt_of_lt_of_le below (bound orderId inside),sorted⟩,?_⟩
      intro orderId inside
      rcases List.mem_cons.mp inside with rfl | inside
      · exact Nat.le_refl _
      · exact Nat.le_trans grows (bound orderId inside)

theorem run_accounted (empty : state.NoOrders) (inWord : (Engine.new state).InWord calls) :
    Accounted ((Engine.new state).run calls) := by
  induction calls using List.reverseRecOn with
  | nil =>
    exact ⟨fun orderId order found => absurd found (empty.absent orderId order),fun _ _ => rfl⟩
  | append_singleton calls call ih =>
    obtain ⟨ledger,shown⟩ := Consistency.run_represents empty calls
    obtain ⟨earlier,last⟩ := Engine.inWord_append.mp inWord
    rw [Engine.run_append]
    exact after_accounted shown (ih earlier) last

theorem run_settled (empty : state.NoOrders) (calls : List Call) : Settled ((Engine.new state).run calls).desk := by
  induction calls using List.reverseRecOn with
  | nil =>
    intro orderId order found
    exact absurd found (empty.absent orderId order)
  | append_singleton calls call ih =>
    obtain ⟨ledger,shown⟩ := Consistency.run_represents empty calls
    obtain ⟨trades,ledger',conduct⟩ := Engine.after_conducts shown call
    rw [Engine.run_append]
    exact conducts_settled conduct shown ih

theorem run_evolves (empty : state.NoOrders) (before calls : List Call)
    (found : ((Engine.new state).run before).state.getOrder orderId = some order) :
    ∃ later, ((Engine.new state).run (before ++ calls)).state.getOrder orderId = some later ∧
      order.Evolves later := by
  induction calls using List.reverseRecOn with
  | nil => exact ⟨order,by rwa [List.append_nil],.refl order⟩
  | append_singleton calls call ih =>
    obtain ⟨middle,found,first⟩ := ih
    obtain ⟨ledger,shown⟩ := Consistency.run_represents empty (before ++ calls)
    obtain ⟨trades,ledger',conduct⟩ := Engine.after_conducts shown call
    obtain ⟨later,found,second⟩ := conducts_stored conduct shown found
    rw [← List.append_assoc,Engine.run_append]
    exact ⟨later,found,first.trans second⟩

-- The life of the orders of a run: the ids handed out strictly increase, and a call that
-- returns an id was handed it; from any point of the run on, an order keeps what identifies
-- it, never grows and never leaves a final status; filled means that nothing remains; and
-- the reported fills account for every order.
theorem run_lifecycle (empty : state.NoOrders) (inWord : (Engine.new state).InWord calls) :
    let e := Engine.new state
    ((e.handedOut calls).Pairwise (· < ·) ∧
      ∀ before call orderId, before ++ [call] <+: calls → (e.run before).result call = .ok (some orderId) →
        call.handsOut (e.run before) = some orderId) ∧
    (∀ before, before <+: calls → ∀ orderId order, (e.run before).state.getOrder orderId = some order →
      ∃ later, (e.run calls).state.getOrder orderId = some later ∧ order.Evolves later) ∧
    (∀ orderId order, (e.run calls).state.getOrder orderId = some order →
      (order.status = .filled ↔ order.remainingSize = 0)) ∧
    ∀ orderId order, (e.run calls).state.getOrder orderId = some order →
      order.remainingSize ≤ order.originalSize ∧
        order.originalSize - order.remainingSize = filledSize (e.run calls).context orderId := by
  refine ⟨⟨(handedOut_increasing (Consistency.represents_new empty) calls).1,?_⟩,?_,run_settled empty calls,?_⟩
  · intro before call orderId _ returned
    obtain ⟨ledger,shown⟩ := Consistency.run_represents empty before
    exact result_handsOut shown returned
  · rintro before ⟨rest,rfl⟩ orderId order found
    exact run_evolves empty before rest found
  · intro orderId order found
    have account := (run_accounted empty inWord).stored orderId order found
    omega

theorem run_lifecycle_cancelled_rest :
    let calls : List Call := [.placeOrder Bench.alice (Bench.limit false 100 5 .gtc),
      .placeOrder Bench.bob (Bench.limit true 100 3 .gtc),.cancelOrder Bench.alice ⟨0⟩]
    let e := (Engine.new Bench.state).run calls
    (Engine.new Bench.state).handedOut calls = [0,1] ∧ filledSize e.context 0 = 3 ∧
      ∀ orderId order, e.state.getOrder orderId = some order →
        (order.status = .filled ↔ order.remainingSize = 0) := by
  intro calls
  have inWord : (Engine.new Bench.state).InWord calls := by
    decide +kernel
  exact ⟨by decide +kernel,by decide +kernel,(run_lifecycle Bench.noOrders inWord).2.2.1⟩

end Lifecycle
end Pranklin
