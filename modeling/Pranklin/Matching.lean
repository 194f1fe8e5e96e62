import Pranklin.Desk

namespace Pranklin
open Words

structure Take where
  maker : Order
  size : Nat
deriving DecidableEq

def Take.fill (order : Order) (take : Take) : Fill :=
  OrderbookManager.makeFill order take.maker take.maker.price take.size take.maker.id

def Take.taken (take : Take) : Order :=
  if take.size < take.maker.remainingSize then take.maker.reduced take.size else take.maker.ended .filled

def Desk.take (d : Desk) (take : Take) : Desk :=
  if take.size < take.maker.remainingSize then d.reduce take.maker take.size else d.remove take.maker .filled

def Desk.takeAll (d : Desk) (takes : List Take) : Desk := takes.foldl Desk.take d

-- The greedy reference: down the line, as much as both sides allow, until the
-- incoming order is exhausted.
def walk : Nat → List Order → List Take
  | _,[] => []
  | remaining,maker :: rest =>
    if remaining = 0 then []
    else
      let size := min remaining maker.remainingSize
      ⟨maker,size⟩ :: walk (remaining - size) rest

def takenSize (takes : List Take) : Nat := (takes.map Take.size).sum

@[simp] theorem takenSize_nil : takenSize [] = 0 := rfl

@[simp] theorem takenSize_cons (take : Take) (takes : List Take) :
    takenSize (take :: takes) = take.size + takenSize takes := by simp [takenSize]

theorem walk_zero (line : List Order) : walk 0 line = [] := by cases line <;> rfl

theorem walk_eq_nil_iff {remaining : Nat} {line : List Order} : walk remaining line = [] ↔ line = [] ∨ remaining = 0 := by
  cases line with
  | nil => simp [walk]
  | cons maker line => by_cases spent : remaining = 0 <;> simp [walk,spent]

theorem walk_append (remaining : Nat) (front back : List Order) :
    walk remaining (front ++ back) =
      walk remaining front ++ walk (remaining - takenSize (walk remaining front)) back := by
  induction front generalizing remaining with
  | nil => simp [walk]
  | cons maker front ih =>
    by_cases spent : remaining = 0
    · subst spent; simp [walk_zero]
    · simp [walk,spent,ih,Nat.sub_sub]

theorem takenSize_walk_le (remaining : Nat) (line : List Order) : takenSize (walk remaining line) ≤ remaining := by
  induction line generalizing remaining with
  | nil => simp [walk]
  | cons maker line ih =>
    by_cases spent : remaining = 0
    · simp [walk,spent]
    · have rest := ih (remaining - min remaining maker.remainingSize)
      simp only [walk,spent,if_false,takenSize_cons]
      omega

theorem walk_makers_sublist (remaining : Nat) (line : List Order) :
    ((walk remaining line).map Take.maker).Sublist line := by
  induction line generalizing remaining with
  | nil => exact .refl _
  | cons maker line ih =>
    by_cases spent : remaining = 0
    · simp [walk,spent]
    · simp only [walk,spent,if_false,List.map_cons]
      exact (ih _).cons_cons _

theorem walk_size_le (remaining : Nat) (line : List Order) :
    ∀ take ∈ walk remaining line, take.size ≤ take.maker.remainingSize := by
  induction line generalizing remaining with
  | nil => simp [walk]
  | cons maker line ih =>
    intro take member
    by_cases spent : remaining = 0
    · simp [walk,spent] at member
    · simp only [walk,spent,if_false,List.mem_cons] at member
      rcases member with rfl | member
      · exact Nat.min_le_right _ _
      · exact ih _ take member

theorem walk_size_pos (remaining : Nat) (line : List Order) :
    ∀ take ∈ walk remaining line, 0 < take.maker.remainingSize → 0 < take.size := by
  induction line generalizing remaining with
  | nil => simp [walk]
  | cons maker line ih =>
    intro take member live
    by_cases spent : remaining = 0
    · simp [walk,spent] at member
    · simp only [walk,spent,if_false,List.mem_cons] at member
      rcases member with rfl | member
      · exact Nat.lt_min.mpr ⟨Nat.pos_of_ne_zero spent,live⟩
      · exact ih _ take member live

namespace Desk
variable {d : Desk}

@[simp] theorem takeAll_nil (d : Desk) : d.takeAll [] = d := rfl

@[simp] theorem takeAll_cons (d : Desk) (take : Take) (takes : List Take) :
    d.takeAll (take :: takes) = (d.take take).takeAll takes := rfl

theorem takeAll_append (d : Desk) (front back : List Take) :
    d.takeAll (front ++ back) = (d.takeAll front).takeAll back := List.foldl_append

@[simp] theorem getOrder_take (d : Desk) (take : Take) (orderId : Nat) :
    (d.take take).state.getOrder orderId =
      if orderId = take.maker.id then some take.taken else d.state.getOrder orderId := by
  by_cases part : take.size < take.maker.remainingSize <;>
    simp [Desk.take,Take.taken,part,Desk.reduce,Desk.remove]

@[simp] theorem orderCounter_take (d : Desk) (take : Take) : (d.take take).state.orderCounter = d.state.orderCounter := by
  by_cases part : take.size < take.maker.remainingSize <;> simp [Desk.take,part,Desk.reduce,Desk.remove]

theorem orderCounter_takeAll (takes : List Take) (d : Desk) : (d.takeAll takes).state.orderCounter = d.state.orderCounter := by
  induction takes generalizing d with
  | nil => rfl
  | cons take takes ih => rw [takeAll_cons,ih,orderCounter_take]

theorem getOrder_takeAll_of_absent {takes : List Take} (absent : orderId ∉ takes.map (·.maker.id)) (d : Desk) :
    (d.takeAll takes).state.getOrder orderId = d.state.getOrder orderId := by
  induction takes generalizing d with
  | nil => rfl
  | cons take takes ih =>
    simp only [List.map_cons,List.mem_cons,not_or] at absent
    rw [takeAll_cons,ih absent.2,getOrder_take,if_neg absent.1]

theorem getOrder_takeAll_of_mem {takes : List Take} (distinct : (takes.map (·.maker.id)).Nodup)
    (member : found ∈ takes) (d : Desk) :
    (d.takeAll takes).state.getOrder found.maker.id = some found.taken := by
  induction takes generalizing d with
  | nil => cases member
  | cons first takes ih =>
    obtain ⟨fresh,distinct⟩ := List.nodup_cons.mp distinct
    rw [takeAll_cons]
    rcases List.mem_cons.mp member with rfl | member
    · rw [getOrder_takeAll_of_absent fresh,getOrder_take,if_pos rfl]
    · exact ih distinct member _

-- What was borrowed before the match makes no difference to it.
theorem takeAll_borrowed (d : Desk) (borrowed : Bool) (takes : List Take) :
    Desk.takeAll {d with borrowed:=borrowed || d.borrowed} takes =
      {d.takeAll takes with borrowed:=borrowed || (d.takeAll takes).borrowed} := by
  induction takes generalizing d with
  | nil => rfl
  | cons take takes ih =>
    rw [takeAll_cons,takeAll_cons,← ih]
    congr 1
    by_cases part : take.size < take.maker.remainingSize <;>
      simp [Desk.take,part,Desk.reduce,Desk.remove,Bool.or_assoc]

end Desk

namespace OrderbookManager

def LevelMatch.desk (levels : Slot → Option PriceLevel) (slot : Slot) (m : LevelMatch) : Desk :=
  ⟨m.state,Function.update levels slot m.level.kept,m.borrowed⟩

theorem matchMaker_desk {order maker : Order} {m : LevelMatch} (levels : Slot → Option PriceLevel)
    (stored : m.state.getOrder maker.id = some maker) (queued : maker.id ∈ m.level.orders)
    (stranger : maker.owner ≠ order.owner) :
    let take : Take := ⟨maker,min m.remaining maker.remainingSize⟩
    let after := matchMaker order maker.price m maker.id
    after.desk levels maker.slot = (m.desk levels maker.slot).take take ∧
      after.remaining = m.remaining - take.size ∧ after.fills = m.fills ++ [take.fill order] ∧
      ∀ orderId, orderId ≠ maker.id → orderId ∈ m.level.orders → orderId ∈ after.level.orders := by
  have whole : borrows maker.remainingSize (min m.remaining maker.remainingSize) = false :=
    borrows_eq_false.mpr (Nat.min_le_right _ _)
  have budget : borrows m.remaining (min m.remaining maker.remainingSize) = false :=
    borrows_eq_false.mpr (Nat.min_le_left _ _)
  unfold matchMaker
  simp only [stored,stranger,if_false,subWrap_of_le (Nat.min_le_right _ _),
    subWrap_of_le (Nat.min_le_left _ _),whole,budget,Bool.or_false]
  by_cases part : min m.remaining maker.remainingSize < maker.remainingSize
  · have left : maker.remainingSize - min m.remaining maker.remainingSize ≠ 0 := by omega
    have standing : ∀ total, PriceLevel.kept ⟨m.level.orders,total⟩ = some ⟨m.level.orders,total⟩ :=
      fun _ => PriceLevel.kept_of_mem queued
    simp only [if_neg left]
    refine ⟨?_,trivial,rfl,fun _ _ inside => inside⟩
    simp only [LevelMatch.desk,Desk.take,part,if_true,Desk.reduce,Function.update_self,standing,
      Option.map_some,Function.update_idem,Option.any_some]
    rfl
  · have all : min m.remaining maker.remainingSize = maker.remainingSize := by omega
    simp only [all,Nat.sub_self,if_true]
    refine ⟨?_,trivial,rfl,fun orderId other inside => ?_⟩
    · simp only [LevelMatch.desk,Desk.take,Nat.lt_irrefl,if_false,Desk.remove,Function.update_self,
        PriceLevel.kept_of_mem queued,Option.bind_some,Function.update_idem]
      rfl
    · simp only [PriceLevel.removeOrder,if_pos queued]
      exact (List.mem_erase_of_ne other).mpr inside

-- Both loops are followed from what they found: each maker is met once, so that what
-- the earlier ones were traded for does not show when its turn comes.
theorem matchLevel_desk (order : Order) {slot : Slot} {makers : List Order} {m : LevelMatch}
    (levels : Slot → Option PriceLevel) (distinct : (makers.map Order.id).Nodup)
    (stored : ∀ maker ∈ makers, m.state.getOrder maker.id = some maker)
    (queued : ∀ maker ∈ makers, maker.id ∈ m.level.orders) (placed : ∀ maker ∈ makers, maker.slot = slot) :
    let takes := walk m.remaining (makers.filter (·.owner ≠ order.owner))
    let after := matchLevel order slot.price m (makers.map Order.id)
    after.desk levels slot = (m.desk levels slot).takeAll takes ∧
      after.remaining = m.remaining - takenSize takes ∧
      after.fills = m.fills ++ takes.map (Take.fill order) := by
  induction makers generalizing m with
  | nil => simp [matchLevel,walk]
  | cons maker makers ih =>
    obtain ⟨fresh,distinct⟩ := List.nodup_cons.mp distinct
    by_cases spent : m.remaining = 0
    · simp [matchLevel,spent,walk_zero]
    have storedRest := fun other inside => stored other (List.mem_cons_of_mem _ inside)
    have queuedRest := fun other inside => queued other (List.mem_cons_of_mem _ inside)
    have placedRest := fun other inside => placed other (List.mem_cons_of_mem _ inside)
    have found := stored maker List.mem_cons_self
    simp only [List.map_cons,matchLevel,spent,if_false]
    by_cases own : maker.owner = order.owner
    · have skipped : matchMaker order slot.price m maker.id = m := by simp [matchMaker,found,own]
      rw [skipped,List.filter_cons_of_neg (by simpa using own)]
      exact ih distinct storedRest queuedRest placedRest
    · obtain rfl := placed maker List.mem_cons_self
      obtain ⟨desk,remaining,fills,keeps⟩ :=
        matchMaker_desk levels found (queued maker List.mem_cons_self) own
      have apart : ∀ other ∈ makers, other.id ≠ maker.id := fun other inside same =>
        fresh (same ▸ List.mem_map_of_mem inside)
      have reads : ∀ other ∈ makers,
          (matchMaker order maker.price m maker.id).state.getOrder other.id = some other := by
        intro other inside
        rw [← storedRest other inside]
        change (LevelMatch.desk levels maker.slot _).state.getOrder _ = _
        rw [desk,Desk.getOrder_take,if_neg (apart other inside)]
        rfl
      obtain ⟨deskRest,remainingRest,fillsRest⟩ := ih distinct reads
        (fun other inside => keeps other.id (apart other inside) (queuedRest other inside)) placedRest
      rw [List.filter_cons_of_pos (by simpa using own)]
      simp only [walk,spent,if_false,Desk.takeAll_cons,takenSize_cons,List.map_cons]
      rw [remaining] at deskRest remainingRest fillsRest
      refine ⟨deskRest.trans (by rw [desk]),?_,?_⟩
      · rw [← Nat.sub_sub]; exact remainingRest
      · rw [fills,List.append_assoc] at fillsRest; exact fillsRest

variable {book : OrderbookManager} {order : Order}

def facing (order : Order) (price : Nat) : Slot := ⟨order.marketId,!order.isBuy,price⟩

def BookMatch.desk (book : OrderbookManager) (order : Order) (m : BookMatch) : Desk :=
  ⟨m.state,(book.setSide (!order.isBuy) order.marketId m.levels).level,m.borrowed⟩

theorem BookMatch.level_facing (m : BookMatch) (price : Nat) :
    (m.desk book order).level (facing order price) = m.levels[price]? := by
  simp [BookMatch.desk,level_setSide,facing]

theorem matchPrice_levels_ne {read price : Nat} (m : BookMatch) (other : read ≠ price) :
    (matchPrice order m price).levels[read]? = m.levels[read]? := by
  have apart : ¬price = read := Ne.symm other
  unfold matchPrice
  split
  · rfl
  · dsimp only
    split <;> simp [Std.TreeMap.getElem?_insert,Std.TreeMap.getElem?_erase,apart]

theorem matchPrice_level {m : BookMatch} {level : PriceLevel} (found : m.levels[price]? = some level) :
    (matchPrice order m price).desk book order =
      (matchLevel order price ⟨m.state,level,m.remaining,m.fills,m.borrowed⟩ level.orders).desk
        (m.desk book order).level (facing order price) := by
  have others : ∀ read, read ≠ price → (matchPrice order m price).levels[read]? = m.levels[read]? :=
    fun _ => matchPrice_levels_ne m
  unfold matchPrice at others ⊢
  simp only [found] at others ⊢
  simp only [BookMatch.desk,LevelMatch.desk,Desk.mk.injEq,true_and,and_true]
  funext slot
  by_cases same : slot = facing order price
  · subst same
    rw [Function.update_self,level_setSide,if_pos ⟨rfl,rfl⟩,PriceLevel.kept]
    split <;> simp [facing]
  · rw [Function.update_of_ne same,level_setSide,level_setSide]
    split
    · rename_i opposing
      refine others slot.price fun equal => same ?_
      rcases slot with ⟨market,side,at_⟩
      simp_all [facing]
    · rfl

theorem matchPrice_desk {makers : List Order} {m : BookMatch} {level : PriceLevel} (book : OrderbookManager)
    (found : m.levels[price]? = some level) (orders : level.orders = makers.map Order.id)
    (peopled : level.orders ≠ []) (distinct : (makers.map Order.id).Nodup)
    (stored : ∀ maker ∈ makers, m.state.getOrder maker.id = some maker)
    (placed : ∀ maker ∈ makers, maker.slot = facing order price) :
    let takes := walk m.remaining (makers.filter (·.owner ≠ order.owner))
    let after := matchPrice order m price
    after.desk book order = (m.desk book order).takeAll takes ∧
      after.remaining = m.remaining - takenSize takes ∧
      after.fills = m.fills ++ takes.map (Take.fill order) := by
  obtain ⟨desk,remaining,fills⟩ := matchLevel_desk order (m.desk book order).level distinct
    (m:=⟨m.state,level,m.remaining,m.fills,m.borrowed⟩) stored
    (fun maker inside => by rw [orders]; exact List.mem_map_of_mem inside) placed
  have start : LevelMatch.desk (m.desk book order).level (facing order price)
      ⟨m.state,level,m.remaining,m.fills,m.borrowed⟩ = m.desk book order := by
    have standing : level.kept = (m.desk book order).level (facing order price) := by
      rw [BookMatch.level_facing,found]
      exact PriceLevel.kept_eq_some.mpr ⟨rfl,peopled⟩
    rw [LevelMatch.desk,standing,Function.update_eq_self]
    rfl
  rw [← orders] at desk remaining fills
  rw [start] at desk
  refine ⟨?_,?_,?_⟩
  · rw [matchPrice_level found]; exact desk
  · simp only [matchPrice,found]; exact remaining
  · simp only [matchPrice,found]; exact fills

def ahead (isBuy : Bool) (price other : Nat) : Prop := if isBuy then other < price else price < other

theorem bestFirst_sorted (isBuy : Bool) (levels : PriceLevels) :
    (bestFirst isBuy levels).Pairwise (ahead isBuy) := by
  have ordered : levels.keys.Pairwise (· < ·) :=
    levels.ordered_keys.imp fun less => Nat.compare_eq_lt.mp less
  cases isBuy with
  | false => exact ordered
  | true => exact List.pairwise_reverse.mpr ordered

theorem mem_bestFirst {isBuy : Bool} {levels : PriceLevels} :
    price ∈ bestFirst isBuy levels ↔ (levels[price]?).isSome := by
  rw [bestFirst]
  split <;> simp

-- A limit price above zero keeps the order from prices worse than it.
def crosses (order : Order) (price : Nat) : Bool :=
  decide (order.price = 0) || (if order.isBuy then decide (price ≤ order.price) else decide (order.price ≤ price))

theorem outOfReach_eq (order : Order) (price : Nat) : outOfReach order price = !crosses order price := by
  rcases Nat.eq_zero_or_pos order.price with free | limit
  · simp [outOfReach,crosses,free]
  · have bound : order.price ≠ 0 := by omega
    cases isBuy : order.isBuy <;> by_cases beyond : price ≤ order.price <;>
      by_cases short : order.price ≤ price <;> simp [outOfReach,crosses,isBuy,limit,bound,beyond,short] <;> omega

theorem crosses_of_ahead (before : ahead (!order.isBuy) price other) (crossing : crosses order other) :
    crosses order price := by
  cases isBuy : order.isBuy <;> simp [crosses,ahead,isBuy] at before crossing ⊢ <;> omega

def eligible (order maker : Order) : Bool := decide (maker.owner ≠ order.owner) && crosses order maker.price

theorem matchPrices_desk (book : OrderbookManager) {makers : Nat → List Order} {prices : List Nat} {m : BookMatch}
    (sorted : prices.Pairwise (ahead (!order.isBuy)))
    (distinct : ((prices.flatMap makers).map Order.id).Nodup)
    (stored : ∀ price ∈ prices, ∀ maker ∈ makers price, m.state.getOrder maker.id = some maker)
    (placed : ∀ price, ∀ maker ∈ makers price, maker.slot = facing order price)
    (levels : ∀ price ∈ prices, ∃ level, m.levels[price]? = some level ∧
      level.orders = (makers price).map Order.id ∧ level.orders ≠ []) :
    let takes := walk m.remaining ((prices.flatMap makers).filter (eligible order))
    let after := matchPrices order m prices
    after.desk book order = (m.desk book order).takeAll takes ∧
      after.fills = m.fills ++ takes.map (Take.fill order) := by
  induction prices generalizing m with
  | nil => simp [matchPrices,walk]
  | cons price prices ih =>
    obtain ⟨first,sorted⟩ := List.pairwise_cons.mp sorted
    rw [List.flatMap_cons,List.map_append,List.nodup_append] at distinct
    obtain ⟨distinctHere,distinctRest,apart⟩ := distinct
    by_cases crossing : crosses order price
    case neg =>
      -- From here on every price is out of reach, so nobody on the line is eligible.
      have nobody : ((price :: prices).flatMap makers).filter (eligible order) = [] := by
        refine List.filter_eq_nil_iff.mpr fun maker inside chosen => crossing ?_
        obtain ⟨at_,among,inside⟩ := List.mem_flatMap.mp inside
        have sits : maker.price = at_ := congrArg Slot.price (placed at_ maker inside)
        have reached : crosses order at_ := by
          rw [← sits]; exact (Bool.and_eq_true_iff.mp chosen).2
        rcases List.mem_cons.mp among with rfl | among
        · exact reached
        · exact crosses_of_ahead (first at_ among) reached
      rw [nobody]
      simp [matchPrices,outOfReach_eq,crossing,walk]
    case pos =>
      obtain ⟨level,found,orders,peopled⟩ := levels price List.mem_cons_self
      have storedHere := stored price List.mem_cons_self
      have here : (makers price).filter (eligible order) = (makers price).filter (·.owner ≠ order.owner) := by
        refine List.filter_congr fun maker inside => ?_
        have sits : maker.price = price := congrArg Slot.price (placed price maker inside)
        simp [eligible,sits,crossing]
      obtain ⟨desk,remaining,fills⟩ := matchPrice_desk book found orders peopled distinctHere storedHere
        (placed price)
      rw [← here] at desk remaining fills
      rw [List.flatMap_cons,List.filter_append,walk_append]
      simp only [Desk.takeAll_append,matchPrices,outOfReach_eq,crossing,Bool.not_true,Bool.false_eq_true,if_false]
      rw [← desk,← remaining]
      split
      · rename_i spent
        simp [spent,walk_zero,fills]
      · have untouched : ∀ at_ ∈ prices, ∀ maker ∈ makers at_,
            (matchPrice order m price).state.getOrder maker.id = some maker := by
          intro at_ among maker inside
          rw [← stored at_ (List.mem_cons_of_mem _ among) maker inside]
          change (BookMatch.desk book order _).state.getOrder _ = _
          rw [desk,Desk.getOrder_takeAll_of_absent]
          · rfl
          intro taken
          obtain ⟨take,among',same⟩ := List.mem_map.mp taken
          have met := (walk_makers_sublist _ _).subset (List.mem_map_of_mem among')
          exact apart _ (List.mem_map_of_mem (List.mem_filter.mp met).1) _
            (List.mem_map_of_mem (List.mem_flatMap.mpr ⟨at_,among,inside⟩)) same
        have standing : ∀ at_ ∈ prices, ∃ level, (matchPrice order m price).levels[at_]? = some level ∧
            level.orders = (makers at_).map Order.id ∧ level.orders ≠ [] := by
          intro at_ among
          have other : at_ ≠ price := fun same => by
            have before := first at_ among
            cases isBuy : order.isBuy <;> simp [ahead,isBuy,same] at before
          rw [matchPrice_levels_ne m other]
          exact levels at_ (List.mem_cons_of_mem _ among)
        obtain ⟨deskRest,fillsRest⟩ := ih sorted distinctRest untouched standing
        refine ⟨deskRest,?_⟩
        rw [fillsRest,fills,List.map_append,List.append_assoc]

def desk (book : OrderbookManager) (state : StateManager) : Desk := ⟨state,book.level,false⟩

def priorityLine (book : OrderbookManager) (state : StateManager) (order : Order) : List Order :=
  (bestFirst (!order.isBuy) (book.side (!order.isBuy) order.marketId)).flatMap fun price =>
    (book.desk state).resting (facing order price)

def passesPostOnly (book : OrderbookManager) (order : Order) : Bool := !(order.postOnly && book.wouldMatch order)

def takesOf (book : OrderbookManager) (state : StateManager) (order : Order) : List Take :=
  walk order.remainingSize ((book.priorityLine state order).filter (eligible order))

section Line
variable {state : StateManager} (queued : Queued (book.desk state))
include queued

theorem mem_priorityLine {maker : Order} :
    maker ∈ book.priorityLine state order ↔
      state.getOrder maker.id = some maker ∧ maker.status = .active ∧ maker.marketId = order.marketId ∧
        maker.isBuy = !order.isBuy := by
  rw [priorityLine,List.mem_flatMap]
  constructor
  · rintro ⟨price,_,inside⟩
    obtain ⟨found,placed,active⟩ := queued.mem_resting.mp inside
    exact ⟨found,active,congrArg Slot.marketId placed,congrArg Slot.isBuy placed⟩
  · rintro ⟨found,active,market,side⟩
    have placed : maker.slot = facing order maker.price := by simp [Order.slot,facing,market,side]
    refine ⟨maker.price,mem_bestFirst.mpr ?_,queued.mem_resting.mpr ⟨found,placed,active⟩⟩
    have inside := (queued.queues (facing order maker.price) maker.id).mpr ⟨maker,found,placed,active⟩
    change (book.level (facing order maker.price)).isSome
    cases level : book.level (facing order maker.price) with
    | none => simp [Desk.queue,OrderbookManager.desk,level] at inside
    | some level => rfl

theorem price_of_mem_resting {maker : Order} (inside : maker ∈ (book.desk state).resting (facing order price)) :
    maker.price = price := congrArg Slot.price (queued.mem_resting.mp inside).2.1

theorem priorityLine_sorted :
    (book.priorityLine state order).Pairwise fun maker later =>
      ahead (!order.isBuy) maker.price later.price ∨ maker.price = later.price := by
  refine List.pairwise_flatMap.mpr ⟨fun price _ => ?_,?_⟩
  · refine List.pairwise_of_forall_mem_list fun maker inside later also => .inr ?_
    rw [price_of_mem_resting queued inside,price_of_mem_resting queued also]
  · refine (bestFirst_sorted _ _).imp fun before maker inside later also => .inl ?_
    rw [price_of_mem_resting queued inside,price_of_mem_resting queued also]
    exact before

theorem priorityLine_ids_nodup : ((book.priorityLine state order).map Order.id).Nodup := by
  rw [priorityLine,List.map_flatMap,List.nodup_flatMap]
  refine ⟨fun price _ => by rw [queued.resting_ids]; exact queued.once _,?_⟩
  refine (bestFirst_sorted _ _).imp fun {price other} before => ?_
  intro orderId first second
  obtain ⟨maker,inside,rfl⟩ := List.mem_map.mp first
  obtain ⟨later,also,same⟩ := List.mem_map.mp second
  have stored := (queued.mem_resting.mp also).1
  rw [same,(queued.mem_resting.mp inside).1] at stored
  cases stored
  rw [← price_of_mem_resting queued inside,← price_of_mem_resting queued also] at before
  cases isBuy : order.isBuy <;> simp [ahead,isBuy] at before

theorem priorityLine_at (price : Nat) :
    ((book.priorityLine state order).filter (·.price = price)).map Order.id =
      (book.desk state).queue (facing order price) := by
  have apart : ∀ at_, ((book.desk state).resting (facing order at_)).filter (·.price = price) =
      if at_ = price then (book.desk state).resting (facing order at_) else [] := by
    intro at_
    split
    · rename_i same
      exact List.filter_eq_self.mpr fun maker inside =>
        decide_eq_true ((price_of_mem_resting queued inside).trans same)
    · rename_i other
      exact List.filter_eq_nil_iff.mpr fun maker inside sits =>
        other ((price_of_mem_resting queued inside).symm.trans (of_decide_eq_true sits))
  have distinct : (bestFirst (!order.isBuy) (book.side (!order.isBuy) order.marketId)).Nodup :=
    (bestFirst_sorted _ _).imp fun before same => by
      cases isBuy : order.isBuy <;> simp [ahead,isBuy,same] at before
  rw [priorityLine,List.filter_flatMap]
  simp only [apart]
  rw [KeyedList.flatMap_single _ distinct]
  split
  · exact queued.resting_ids _
  · rename_i absent
    have nothing : book.level (facing order price) = none := by
      rw [mem_bestFirst,Option.not_isSome_iff_eq_none] at absent
      exact absent
    simp [Desk.queue,OrderbookManager.desk,nothing]

theorem matchOrder_desk (passes : book.passesPostOnly order) :
    ∃ m, book.matchOrder state order = .ok m ∧ m.fills = (book.takesOf state order).map (Take.fill order) ∧
      (⟨m.state,m.book.level,m.borrowed⟩ : Desk) = (book.desk state).takeAll (book.takesOf state order) := by
  have clear : (order.postOnly && book.wouldMatch order) = false := by
    rwa [passesPostOnly,Bool.not_eq_true'] at passes
  have standing : ∀ price ∈ bestFirst (!order.isBuy) (book.side (!order.isBuy) order.marketId),
      ∃ level, (book.side (!order.isBuy) order.marketId)[price]? = some level ∧
        level.orders = ((book.desk state).resting (facing order price)).map Order.id ∧ level.orders ≠ [] := by
    intro price among
    obtain ⟨level,found⟩ := Option.isSome_iff_exists.mp (mem_bestFirst.mp among)
    have sits : (book.desk state).level (facing order price) = some level := found
    refine ⟨level,found,?_,queued.peopled _ level sits⟩
    rw [queued.resting_ids,Desk.queue,sits]
    rfl
  obtain ⟨matched,fills⟩ := matchPrices_desk book
    (m:=⟨state,book.side (!order.isBuy) order.marketId,order.remainingSize,[],false⟩) (bestFirst_sorted _ _)
    (priorityLine_ids_nodup queued) (fun price _ maker inside => (queued.mem_resting.mp inside).1)
    (fun price maker inside => (queued.mem_resting.mp inside).2.1) standing
  refine ⟨_,by rw [matchOrder,clear]; rfl,fills,?_⟩
  have start : BookMatch.desk book order
      ⟨state,book.side (!order.isBuy) order.marketId,order.remainingSize,[],false⟩ = book.desk state := by
    simp only [BookMatch.desk,OrderbookManager.desk,Desk.mk.injEq,true_and,and_true]
    funext slot
    rw [level_setSide]
    split
    · rename_i opposing; rw [level,opposing.1,opposing.2]
    · rfl
  rw [start] at matched
  exact matched

theorem takesOf_makers_nodup : ((book.takesOf state order).map (·.maker.id)).Nodup := by
  have makers : ((book.takesOf state order).map Take.maker).Sublist (book.priorityLine state order) :=
    (walk_makers_sublist _ _).trans List.filter_sublist
  have distinct : (((book.takesOf state order).map Take.maker).map Order.id).Nodup :=
    (priorityLine_ids_nodup queued).sublist (makers.map Order.id)
  rwa [List.map_map] at distinct

end Line

theorem mem_takesOf {state : StateManager} {take : Take} (member : take ∈ book.takesOf state order) :
    take.maker ∈ book.priorityLine state order ∧ eligible order take.maker ∧
      take.size ≤ take.maker.remainingSize :=
  have met := List.mem_filter.mp ((walk_makers_sublist _ _).subset (List.mem_map_of_mem member))
  ⟨met.1,met.2,walk_size_le _ _ take member⟩

theorem Take.taken_eq {take : Take} (covered : take.size ≤ take.maker.remainingSize)
    (active : take.maker.status = .active) :
    take.taken = {take.maker with
      remainingSize:=take.maker.remainingSize - take.size,
      status:=if take.maker.remainingSize - take.size = 0 then .filled else .active} := by
  unfold Take.taken
  by_cases part : take.size < take.maker.remainingSize
  · have left : ¬take.maker.remainingSize - take.size = 0 := by omega
    simp [part,left,Order.reduced,active]
  · have nothing : take.maker.remainingSize - take.size = 0 := by omega
    simp [part,nothing,Order.ended]

end OrderbookManager
end Pranklin
