import Pranklin.Desk

namespace Pranklin

structure Order.Evolves (before after : Order) : Prop where
  identity : after.id = before.id ∧ after.owner = before.owner ∧ after.marketId = before.marketId ∧
    after.isBuy = before.isBuy ∧ after.price = before.price ∧ after.originalSize = before.originalSize
  remaining : after.remainingSize ≤ before.remainingSize
  status : after.status = before.status ∨
    before.status = .active ∧ (after.status = .filled ∨ after.status = .cancelled)

theorem Order.Evolves.refl (order : Order) : order.Evolves order :=
  ⟨⟨rfl,rfl,rfl,rfl,rfl,rfl⟩,Nat.le_refl _,.inl rfl⟩

theorem Order.Evolves.trans {a b c : Order} (left : a.Evolves b) (right : b.Evolves c) : a.Evolves c := by
  obtain ⟨⟨h1,h2,h3,h4,h5,h6⟩,less,first⟩ := left
  obtain ⟨⟨g1,g2,g3,g4,g5,g6⟩,fewer,second⟩ := right
  refine ⟨⟨g1.trans h1,g2.trans h2,g3.trans h3,g4.trans h4,g5.trans h5,g6.trans h6⟩,
    Nat.le_trans fewer less,?_⟩
  rcases second with same | ⟨active,final⟩
  · rw [same]; exact first
  · rcases first with same | ⟨_,final'⟩
    · exact .inr ⟨same ▸ active,final⟩
    · rw [active] at final'; simp at final'

def tradedOf (trades : List (Nat × Nat)) (orderId : Nat) : Nat :=
  (trades.map fun trade => if trade.1 = orderId then trade.2 else 0).sum

@[simp] theorem tradedOf_nil (orderId : Nat) : tradedOf [] orderId = 0 := rfl

@[simp] theorem tradedOf_append (front back : List (Nat × Nat)) (orderId : Nat) :
    tradedOf (front ++ back) orderId = tradedOf front orderId + tradedOf back orderId := by simp [tradedOf]

@[simp] theorem tradedOf_cons (trade : Nat × Nat) (trades : List (Nat × Nat)) (orderId : Nat) :
    tradedOf (trade :: trades) orderId = (if trade.1 = orderId then trade.2 else 0) + tradedOf trades orderId := by
  simp [tradedOf]

theorem le_tradedOf {trade : Nat × Nat} {trades : List (Nat × Nat)} (member : trade ∈ trades) :
    trade.2 ≤ tradedOf trades trade.1 := by
  induction trades with
  | nil => cases member
  | cons first trades ih =>
    rw [tradedOf_cons]
    rcases List.mem_cons.mp member with rfl | member
    · rw [if_pos rfl]; exact Nat.le_add_right _ _
    · exact Nat.le_trans (ih member) (Nat.le_add_left _ _)

-- The changes to the desk that create no order, with the trades they stand for.
-- `elsewhere` is any write to keys that are not the orders'.
inductive Step : Desk → Ledger → List (Nat × Nat) → Desk → Ledger → Prop where
  | elsewhere {state : StateManager} (spared : StateManager.Agree StateKey.ofOrders d.state state) :
      Step d ledger [] {d with state:=state} ledger
  | handOut : Step d ledger [] d.handOut ledger
  | reduce (maker : Order) (size : Nat) (member : maker ∈ ledger) (partly : size < maker.remainingSize) :
      Step d ledger [(maker.id,size)] (d.reduce maker size) (ledger.reduce maker.id size)
  | fill (order : Order) (member : order ∈ ledger) :
      Step d ledger [(order.id,order.remainingSize)] (d.remove order .filled) (ledger.remove order.id)
  | cancel (order : Order) (member : order ∈ ledger) :
      Step d ledger [] (d.remove order .cancelled) (ledger.remove order.id)

inductive Steps : Desk → Ledger → List (Nat × Nat) → Desk → Ledger → Prop where
  | refl : Steps d ledger [] d ledger
  | tail : Steps d ledger trades d₁ ledger₁ → Step d₁ ledger₁ trades' d₂ ledger₂ →
      Steps d ledger (trades ++ trades') d₂ ledger₂

-- A call ends with at most one new order, stored in a final status or come to rest.
inductive Settles : Desk → Ledger → Desk → Ledger → Prop where
  | still : Settles d ledger d ledger
  | store (order : Order) (fresh : d.state.getOrder order.id = none) (issued : order.id + 1 = d.state.orderCounter)
      (final : order.status ≠ .active) (settled : order.status = .filled ↔ order.remainingSize = 0) :
      Settles d ledger (d.store order) ledger
  | rest (order : Order) (fresh : d.state.getOrder order.id = none) (issued : order.id + 1 = d.state.orderCounter)
      (active : order.status = .active) (positive : 0 < order.remainingSize) :
      Settles d ledger (d.rest order) (ledger ++ [order])

def Settled (d : Desk) : Prop := ∀ orderId order, d.state.getOrder orderId = some order →
  (order.status = .filled ↔ order.remainingSize = 0)

section Steps
variable {d d₁ d₂ : Desk} {ledger ledger₁ ledger₂ : Ledger} {trades : List (Nat × Nat)}

theorem Steps.trans (left : Steps d ledger trades d₁ ledger₁) (right : Steps d₁ ledger₁ trades' d₂ ledger₂) :
    Steps d ledger (trades ++ trades') d₂ ledger₂ := by
  induction right with
  | refl => rw [List.append_nil]; exact left
  | tail _ step ih => rw [← List.append_assoc]; exact ih.tail step

theorem Step.steps (step : Step d ledger trades d₁ ledger₁) : Steps d ledger trades d₁ ledger₁ := .tail .refl step

theorem Step.represents (step : Step d ledger trades d₁ ledger₁) (shown : Represents d ledger) :
    Represents d₁ ledger₁ := by
  cases step with
  | elsewhere spared =>
    exact shown.of_reads (fun _ => spared.getOrder rfl) (fun _ => spared.getActiveOrdersByMarket rfl)
      (Nat.le_of_eq (spared.orderCounter rfl).symm)
  | handOut =>
    have spared : StateManager.Agree (· ≠ .nextOrderId) d.state d.handOut.state :=
      (StateManager.Agree.refl _ d.state).set (by simp)
    refine shown.of_reads (fun _ => spared.getOrder (by simp))
      (fun _ => spared.getActiveOrdersByMarket (by simp)) ?_
    simp [StateManager.orderCounter,StateManager.get_set_self]
  | reduce maker size member partly => exact shown.reduce member partly
  | fill order member => exact shown.remove member .filled
  | cancel order member => exact shown.remove member .cancelled

theorem Step.totals (step : Step d ledger trades d₁ ledger₁) (shown : Represents d ledger)
    (exact_ : Totals d ledger) : Totals d₁ ledger₁ := by
  cases step with
  | elsewhere _ => exact ⟨exact_.sums,exact_.sound⟩
  | handOut => exact ⟨exact_.sums,exact_.sound⟩
  | reduce maker size member partly => exact exact_.reduce shown member (Nat.le_of_lt partly)
  | fill order member => exact exact_.remove shown member .filled
  | cancel order member => exact exact_.remove shown member .cancelled

theorem Step.orderCounter_le (step : Step d ledger trades d₁ ledger₁) :
    d.state.orderCounter ≤ d₁.state.orderCounter := by
  cases step with
  | elsewhere spared => exact Nat.le_of_eq (spared.orderCounter rfl).symm
  | handOut => simp [Desk.handOut,StateManager.orderCounter,StateManager.get_set_self]
  | reduce maker size member partly => simp [Desk.reduce]
  | fill order member | cancel order member => simp [Desk.remove]

structure Order.Traded (before after : Order) (traded : Nat) : Prop extends before.Evolves after where
  account : after.remainingSize + traded = before.remainingSize
  settled : (before.status = .filled ↔ before.remainingSize = 0) →
    (after.status = .filled ↔ after.remainingSize = 0)

theorem Order.Traded.refl (order : Order) : order.Traded order 0 := ⟨.refl order,rfl,fun before => before⟩

theorem Order.Traded.trans {a b c : Order} (left : a.Traded b traded) (right : b.Traded c traded') :
    a.Traded c (traded + traded') where
  toEvolves := left.toEvolves.trans right.toEvolves
  account := by have := left.account; have := right.account; omega
  settled before := right.settled (left.settled before)

theorem Order.reduced_traded {order : Order} (active : order.status = .active) (partly : size < order.remainingSize) :
    order.Traded (order.reduced size) size where
  identity := ⟨rfl,rfl,rfl,rfl,rfl,rfl⟩
  remaining := Nat.sub_le _ _
  status := .inl rfl
  account := Nat.sub_add_cancel (Nat.le_of_lt partly)
  settled _ := by
    have left : order.remainingSize - size ≠ 0 := by omega
    simp [Order.reduced,active,left]

theorem Order.ended_traded {order : Order} (active : order.status = .active) (positive : 0 < order.remainingSize)
    (ending : Ending) :
    order.Traded (order.ended ending) (if ending = .filled then order.remainingSize else 0) := by
  have left : order.remainingSize ≠ 0 := by omega
  cases ending with
  | filled =>
    exact ⟨⟨⟨rfl,rfl,rfl,rfl,rfl,rfl⟩,Nat.zero_le _,.inr ⟨active,.inl rfl⟩⟩,Nat.zero_add _,by simp [Order.ended]⟩
  | cancelled =>
    exact ⟨⟨⟨rfl,rfl,rfl,rfl,rfl,rfl⟩,Nat.le_refl _,.inr ⟨active,.inr rfl⟩⟩,rfl,by simp [Order.ended,left]⟩

theorem Step.stored (step : Step d ledger trades d₁ ledger₁) (shown : Represents d ledger)
    (found : d.state.getOrder orderId = some before) :
    ∃ after, d₁.state.getOrder orderId = some after ∧ before.Traded after (tradedOf trades orderId) := by
  -- The order that the step writes, and all the others.
  have written : ∀ order ∈ ledger, ∀ after traded, order.Traded after traded →
      ∃ later, (if orderId = order.id then some after else d.state.getOrder orderId) = some later ∧
        before.Traded later (if order.id = orderId then traded else 0) := by
    intro order member after traded becomes
    by_cases same : orderId = order.id
    · subst same
      rw [shown.stored order member] at found
      cases found
      exact ⟨after,if_pos rfl,by simpa using becomes⟩
    · exact ⟨before,by rw [if_neg same]; exact found,by rw [if_neg (Ne.symm same)]; exact .refl before⟩
  cases step with
  | elsewhere spared => exact ⟨before,(spared.getOrder rfl).trans found,.refl before⟩
  | handOut => exact ⟨before,(StateManager.get_set_ne _ _ (by simp)).trans found,.refl before⟩
  | reduce maker size member partly =>
    have becomes := Order.reduced_traded (shown.live maker member).1 partly
    simpa [Desk.reduce] using written maker member _ _ becomes
  | fill order member =>
    have live := shown.live order member
    simpa [Desk.remove] using written order member _ _ (Order.ended_traded live.1 live.2 .filled)
  | cancel order member =>
    have live := shown.live order member
    simpa [Desk.remove] using written order member _ _ (Order.ended_traded live.1 live.2 .cancelled)

theorem Step.absent (step : Step d ledger trades d₁ ledger₁) (shown : Represents d ledger)
    (absent : d.state.getOrder orderId = none) : d₁.state.getOrder orderId = none := by
  have other : ∀ order ∈ ledger, orderId ≠ order.id := fun order member same =>
    shown.fresh_of_absent absent (same ▸ List.mem_map_of_mem member)
  cases step with
  | elsewhere spared => exact (spared.getOrder rfl).trans absent
  | handOut => exact (StateManager.get_set_ne _ _ (by simp)).trans absent
  | reduce maker size member partly => simp [Desk.reduce,other maker member,absent]
  | fill order member | cancel order member => simp [Desk.remove,other order member,absent]

theorem Steps.represents (path : Steps d ledger trades d₁ ledger₁) (shown : Represents d ledger) :
    Represents d₁ ledger₁ := by
  induction path with
  | refl => exact shown
  | tail _ step ih => exact step.represents ih

theorem Steps.totals (path : Steps d ledger trades d₁ ledger₁) (shown : Represents d ledger)
    (exact_ : Totals d ledger) : Totals d₁ ledger₁ := by
  induction path with
  | refl => exact exact_
  | tail path step ih => exact step.totals (path.represents shown) ih

theorem Steps.orderCounter_le (path : Steps d ledger trades d₁ ledger₁) :
    d.state.orderCounter ≤ d₁.state.orderCounter := by
  induction path with
  | refl => exact Nat.le_refl _
  | tail _ step ih => exact Nat.le_trans ih step.orderCounter_le

theorem Steps.stored (path : Steps d ledger trades d₁ ledger₁) (shown : Represents d ledger)
    (found : d.state.getOrder orderId = some before) :
    ∃ after, d₁.state.getOrder orderId = some after ∧ before.Traded after (tradedOf trades orderId) := by
  induction path with
  | refl => exact ⟨before,found,.refl before⟩
  | tail path step ih =>
    obtain ⟨middle,found,first⟩ := ih
    obtain ⟨after,found,second⟩ := step.stored (path.represents shown) found
    rw [tradedOf_append]
    exact ⟨after,found,first.trans second⟩

theorem Steps.absent (path : Steps d ledger trades d₁ ledger₁) (shown : Represents d ledger)
    (absent : d.state.getOrder orderId = none) : d₁.state.getOrder orderId = none := by
  induction path with
  | refl => exact absent
  | tail path step ih => exact step.absent (path.represents shown) ih

theorem Step.traded_absent (step : Step d ledger trades d₁ ledger₁) (shown : Represents d ledger)
    (absent : d.state.getOrder orderId = none) : tradedOf trades orderId = 0 := by
  have other : ∀ order ∈ ledger, order.id ≠ orderId := fun order member same =>
    shown.fresh_of_absent absent (same ▸ List.mem_map_of_mem member)
  cases step with
  | elsewhere _ | handOut | cancel _ _ => rfl
  | reduce maker size member partly => simp [other maker member]
  | fill order member => simp [other order member]

theorem Steps.traded_absent (path : Steps d ledger trades d₁ ledger₁) (shown : Represents d ledger)
    (absent : d.state.getOrder orderId = none) : tradedOf trades orderId = 0 := by
  induction path with
  | refl => rfl
  | tail path step ih =>
    rw [tradedOf_append,ih,step.traded_absent (path.represents shown) (path.absent shown absent)]

-- The ledger keeps the order in which its orders came to rest.
theorem Step.ids (step : Step d ledger trades d₁ ledger₁) : (ledger₁.map Order.id).Sublist (ledger.map Order.id) := by
  cases step with
  | elsewhere _ | handOut => exact .refl _
  | reduce maker size member partly =>
    have same := @Ledger.ids_reduce size maker.id (fun _ => true) (fun _ => rfl) ledger
    rw [List.filter_true,List.filter_true] at same
    exact same ▸ .refl _
  | fill order member | cancel order member =>
    have fewer := @Ledger.ids_remove order.id (fun _ => true) ledger
    rw [List.filter_true,List.filter_true] at fewer
    exact fewer ▸ List.filter_sublist

theorem Steps.ids (path : Steps d ledger trades d₁ ledger₁) : (ledger₁.map Order.id).Sublist (ledger.map Order.id) := by
  induction path with
  | refl => exact .refl _
  | tail _ step ih => exact step.ids.trans ih

theorem Settles.ascending (ending : Settles d ledger d₁ ledger₁) (shown : Represents d ledger)
    (ascending : (ledger.map Order.id).Pairwise (· < ·)) : (ledger₁.map Order.id).Pairwise (· < ·) := by
  cases ending with
  | still | store _ _ _ _ _ => exact ascending
  | rest order fresh issued active positive =>
    rw [List.map_append,List.pairwise_append]
    refine ⟨ascending,List.pairwise_singleton _ _,fun orderId inside newest same => ?_⟩
    obtain rfl := List.mem_singleton.mp same
    obtain ⟨older,member,rfl⟩ := List.mem_map.mp inside
    have below := (shown.complete _ older (shown.stored older member)).2.1
    have apart : older.id ≠ order.id := fun same => shown.fresh_of_absent fresh (same ▸ inside)
    omega

theorem Steps.origin (path : Steps d ledger trades d₁ ledger₁) (shown : Represents d ledger)
    (found : d₁.state.getOrder orderId = some after) :
    ∃ before, d.state.getOrder orderId = some before ∧ before.Traded after (tradedOf trades orderId) := by
  cases present : d.state.getOrder orderId with
  | none => rw [path.absent shown present] at found; cases found
  | some before =>
    obtain ⟨later,read,becomes⟩ := path.stored shown present
    rw [read] at found
    cases found
    exact ⟨before,rfl,becomes⟩

theorem Settles.represents (ending : Settles d ledger d₁ ledger₁) (shown : Represents d ledger) :
    Represents d₁ ledger₁ := by
  cases ending with
  | still => exact shown
  | store order fresh issued final settled => exact shown.store fresh (Nat.lt_of_succ_le issued.le) final
  | rest order fresh issued active positive => exact shown.rest fresh (Nat.lt_of_succ_le issued.le) active positive

theorem Settles.totals (ending : Settles d ledger d₁ ledger₁) (shown : Represents d ledger)
    (exact_ : Totals d ledger) (fits : ∀ slot, ledger₁.total slot < 2 ^ 64) : Totals d₁ ledger₁ := by
  cases ending with
  | still => exact exact_
  | store _ _ _ _ _ => exact ⟨exact_.sums,exact_.sound⟩
  | rest _ _ _ _ _ => exact exact_.rest shown (fits _)

theorem Settles.orderCounter_eq (ending : Settles d ledger d₁ ledger₁) :
    d₁.state.orderCounter = d.state.orderCounter := by
  cases ending with
  | still => rfl
  | store _ _ _ _ _ => simp [Desk.store]
  | rest _ _ _ _ _ => simp [Desk.rest]

theorem Settles.settled (ending : Settles d ledger d₁ ledger₁) (before : Settled d) : Settled d₁ := by
  intro orderId order found
  cases ending with
  | still => exact before orderId order found
  | store stored fresh issued final settled =>
    simp only [Desk.store,StateManager.getOrder_setOrder] at found
    split at found
    · cases found; exact settled
    · exact before orderId order found
  | rest rested fresh issued active positive =>
    simp only [Desk.rest,StateManager.getOrder_addActiveOrder,StateManager.getOrder_setOrder] at found
    split at found
    · have left : rested.remainingSize ≠ 0 := by omega
      cases found
      simp [active,left]
    · exact before orderId order found

theorem Settles.stored (ending : Settles d ledger d₁ ledger₁) (found : d.state.getOrder orderId = some order) :
    d₁.state.getOrder orderId = some order := by
  cases ending with
  | still => exact found
  | store stored fresh issued final settled =>
    have other : orderId ≠ stored.id := fun same => by rw [same,fresh] at found; cases found
    simp [Desk.store,other,found]
  | rest rested fresh issued active positive =>
    have other : orderId ≠ rested.id := fun same => by rw [same,fresh] at found; cases found
    simp [Desk.rest,other,found]

end Steps
end Pranklin
