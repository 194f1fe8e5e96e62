import Pranklin.Storage
import Pranklin.Types

namespace Pranklin
open Words Storage

inductive StateKey where
  | balance (address : Address) (assetId : Nat)
  | nonce (address : Address)
  | position (address : Address) (marketId : Nat)
  | order (orderId : Nat)
  | market (marketId : Nat)
  | fundingRate (marketId : Nat)
  | nextOrderId
  | activeOrder (marketId orderId : Nat)
  | activeOrderList (marketId : Nat)
  | marketList
  | positionIndex (marketId : Nat)
  | bridgeOperator (address : Address)
  | assetInfo (assetId : Nat)
  | assetList
deriving DecidableEq

-- What is serialised under a key. A hash set is written as the array of its
-- elements in iteration order.
abbrev StateKey.Value : StateKey → Type
  | .balance _ _ | .nonce _ | .nextOrderId => Nat
  | .position _ _ => Position
  | .order _ => Order
  | .market _ => Market
  | .fundingRate _ => FundingRate
  | .activeOrder _ _ | .bridgeOperator _ => Bool
  | .activeOrderList _ | .marketList | .assetList => List Nat
  | .positionIndex _ => List Address
  | .assetInfo _ => Asset

abbrev B256 := BitVec 256

abbrev StateStorage := RocksDbStorage StateKey StateKey.Value B256

-- The iteration order of hash sets, drawn anew by each process: what an insertion
-- makes of the order, at each of its moments. Nothing but the elements is fixed.
structure HashOrder where
  arrange : Nat → List Address → List Address
  perm : ∀ moment addresses, (arrange moment addresses).Perm addresses

def HashOrder.keep : HashOrder := ⟨fun _ addresses => addresses,fun _ _ => .refl _⟩

-- `positionIndex` keeps each set of addresses as a list in iteration order.
structure StateManager where
  storage : StateStorage
  version : Nat
  positionIndex : Nat → Option (List Address)
  hashOrder : HashOrder
  moment : Nat

namespace StateManager

def new (storage : StateStorage) (hashOrder : HashOrder) : StateManager :=
  ⟨storage,storage.currentVersion,fun _ => none,hashOrder,0⟩

def beginBlock (s : StateManager) (height : Nat) : StateManager := {s with version:=height}

def commit (hasher : TreeHasher StateKey StateKey.Value B256) (s : StateManager) : B256 × StateManager :=
  let (root,storage) := s.storage.commit hasher s.version
  (root,{s with storage:=storage})

def get (s : StateManager) (key : StateKey) : Option key.Value := s.storage.get key s.version

def set (s : StateManager) (key : StateKey) (value : key.Value) : StateManager :=
  {s with storage:=s.storage.set key value}

def delete (s : StateManager) (key : StateKey) : StateManager := {s with storage:=s.storage.delete key}

def getBalance (s : StateManager) (address : Address) (assetId : Nat) : Nat :=
  (s.get (.balance address assetId)).getD 0

def setBalance (s : StateManager) (address : Address) (assetId amount : Nat) : StateManager :=
  s.set (.balance address assetId) amount

def getNonce (s : StateManager) (address : Address) : Nat := (s.get (.nonce address)).getD 0

def setNonce (s : StateManager) (address : Address) (nonce : Nat) : StateManager := s.set (.nonce address) nonce

def incrementNonce (s : StateManager) (address : Address) : StateManager :=
  s.setNonce address (addWrap 64 (s.getNonce address) 1)

def getPosition (s : StateManager) (address : Address) (marketId : Nat) : Option Position :=
  s.get (.position address marketId)

def updatePositionIndex (s : StateManager) (marketId : Nat) : StateManager :=
  match s.positionIndex marketId with
  | some index => s.set (.positionIndex marketId) index
  | none => s.delete (.positionIndex marketId)

def insertIntoPositionIndex (s : StateManager) (marketId : Nat) (address : Address) : StateManager :=
  let index := (s.positionIndex marketId).getD []
  let inserted := if address ∈ index then index else s.hashOrder.arrange s.moment (address :: index)
  {s with positionIndex:=Function.update s.positionIndex marketId (some inserted),moment:=s.moment + 1}

def removeFromPositionIndex (s : StateManager) (marketId : Nat) (address : Address) : StateManager :=
  match s.positionIndex marketId with
  | none => s
  | some index =>
    let rest := index.erase address
    {s with positionIndex:=Function.update s.positionIndex marketId (if rest.isEmpty then none else some rest)}

def setPosition (s : StateManager) (address : Address) (marketId : Nat) (position : Position) : StateManager :=
  ((s.set (.position address marketId) position).insertIntoPositionIndex marketId address).updatePositionIndex
    marketId

def deletePosition (s : StateManager) (address : Address) (marketId : Nat) : StateManager :=
  ((s.delete (.position address marketId)).removeFromPositionIndex marketId address).updatePositionIndex marketId

def getOrder (s : StateManager) (orderId : Nat) : Option Order := s.get (.order orderId)

def setOrder (s : StateManager) (orderId : Nat) (order : Order) : StateManager := s.set (.order orderId) order

def getMarket (s : StateManager) (marketId : Nat) : Option Market := s.get (.market marketId)

def listAllMarkets (s : StateManager) : List Nat := (s.get .marketList).getD []

def setMarket (s : StateManager) (marketId : Nat) (info : Market) : StateManager :=
  let s := s.set (.market marketId) info
  let list := s.listAllMarkets
  if marketId ∈ list then s else s.set .marketList (list ++ [marketId])

def orderCounter (s : StateManager) : Nat := (s.get .nextOrderId).getD 0

-- The counter is read and advanced; at the top of the word it refuses.
def nextOrderId (s : StateManager) : Except StateError (Nat × StateManager) :=
  match checkedAdd 64 s.orderCounter 1 with
  | none => .error (.other "Order ID counter overflow")
  | some next => .ok (s.orderCounter,s.set .nextOrderId next)

def isBridgeOperator (s : StateManager) (address : Address) : Bool :=
  (s.get (.bridgeOperator address)).getD false

def getAsset (s : StateManager) (assetId : Nat) : Option Asset := s.get (.assetInfo assetId)

def getActiveOrdersByMarket (s : StateManager) (marketId : Nat) : List Nat :=
  (s.get (.activeOrderList marketId)).getD []

def addActiveOrder (s : StateManager) (marketId orderId : Nat) : StateManager :=
  let s := s.set (.activeOrder marketId orderId) true
  let activeOrders := s.getActiveOrdersByMarket marketId
  if orderId ∈ activeOrders then s else s.set (.activeOrderList marketId) (activeOrders ++ [orderId])

def removeActiveOrder (s : StateManager) (marketId orderId : Nat) : StateManager :=
  let s := s.delete (.activeOrder marketId orderId)
  s.set (.activeOrderList marketId) ((s.getActiveOrdersByMarket marketId).filter (· ≠ orderId))

def committed (s : StateManager) (key : StateKey) : Option key.Value := s.storage.db.getValueOption s.version key

variable {s t u : StateManager} {key read : StateKey} {keys : StateKey → Bool}

theorem get_set_self (s : StateManager) (key : StateKey) (value : key.Value) :
    (s.set key value).get key = some value := by
  simp [get,set,RocksDbStorage.get,RocksDbStorage.set]

theorem get_set_ne (s : StateManager) (value : key.Value) (other : read ≠ key) :
    (s.set key value).get read = s.get read := by
  simp [get,set,RocksDbStorage.get,RocksDbStorage.set,AList.lookup_insert_ne other]

theorem get_delete_self (s : StateManager) (key : StateKey) : (s.delete key).get key = s.committed key := by
  simp [get,delete,committed,RocksDbStorage.get,RocksDbStorage.delete]

theorem get_delete_ne (s : StateManager) (other : read ≠ key) : (s.delete key).get read = s.get read := by
  simp [get,delete,RocksDbStorage.get,RocksDbStorage.delete,AList.lookup_erase_ne other]

@[simp] theorem committed_set (s : StateManager) (value : key.Value) : (s.set key value).committed read = s.committed read := rfl

@[simp] theorem committed_delete (s : StateManager) : (s.delete key).committed read = s.committed read := rfl

def Agree (keys : StateKey → Bool) (s t : StateManager) : Prop := ∀ key, keys key → t.get key = s.get key

theorem Agree.refl (keys : StateKey → Bool) (s : StateManager) : Agree keys s s := fun _ _ => rfl

theorem Agree.trans (left : Agree keys s t) (right : Agree keys t u) : Agree keys s u :=
  fun key chosen => (right key chosen).trans (left key chosen)

theorem Agree.set {value : key.Value} (left : Agree keys s t) (spared : keys key = false) : Agree keys s (t.set key value) := by
  intro read chosen
  have other : read ≠ key := by rintro rfl; simp [spared] at chosen
  rw [get_set_ne _ _ other,left read chosen]

theorem Agree.delete (left : Agree keys s t) (spared : keys key = false) : Agree keys s (t.delete key) := by
  intro read chosen
  have other : read ≠ key := by rintro rfl; simp [spared] at chosen
  rw [get_delete_ne _ other,left read chosen]

theorem Agree.setMarket {info : Market} (left : Agree keys s t) (own : keys (.market marketId) = false)
    (listed : keys .marketList = false) : Agree keys s (t.setMarket marketId info) := by
  unfold StateManager.setMarket
  dsimp only
  split
  · exact left.set own
  · exact (left.set own).set listed

theorem Agree.getOrder (agree : Agree keys s t) (chosen : keys (.order orderId)) :
    t.getOrder orderId = s.getOrder orderId := agree _ chosen

theorem Agree.getActiveOrdersByMarket (agree : Agree keys s t) (chosen : keys (.activeOrderList marketId)) :
    t.getActiveOrdersByMarket marketId = s.getActiveOrdersByMarket marketId := by
  rw [StateManager.getActiveOrdersByMarket,agree _ chosen,StateManager.getActiveOrdersByMarket]

theorem Agree.orderCounter (agree : Agree keys s t) (chosen : keys .nextOrderId) :
    t.orderCounter = s.orderCounter := by
  rw [StateManager.orderCounter,agree _ chosen,StateManager.orderCounter]

end StateManager

def StateKey.ofOrders : StateKey → Bool
  | .order _ | .activeOrder _ _ | .activeOrderList _ | .nextOrderId => true
  | _ => false

def StateKey.ofPositions : StateKey → Bool
  | .position _ _ | .positionIndex _ => true
  | _ => false

def StateKey.ofBalances : StateKey → Bool
  | .balance _ _ => true
  | _ => false

namespace StateManager
variable {s t : StateManager}

@[simp] theorem getOrder_setOrder (s : StateManager) (orderId : Nat) (order : Order) (read : Nat) :
    (s.setOrder orderId order).getOrder read = if read = orderId then some order else s.getOrder read := by
  by_cases same : read = orderId
  · subst same; simp [getOrder,setOrder,get_set_self]
  · simp [getOrder,setOrder,same,get_set_ne]

theorem setOrder_agree (s : StateManager) (orderId : Nat) (order : Order) :
    Agree (· ≠ .order orderId) s (s.setOrder orderId order) := (Agree.refl _ s).set (by simp)

@[simp] theorem getActiveOrdersByMarket_setOrder (s : StateManager) (orderId : Nat) (order : Order) (marketId : Nat) :
    (s.setOrder orderId order).getActiveOrdersByMarket marketId = s.getActiveOrdersByMarket marketId :=
  (setOrder_agree s orderId order).getActiveOrdersByMarket (by simp)

@[simp] theorem orderCounter_setOrder (s : StateManager) (orderId : Nat) (order : Order) :
    (s.setOrder orderId order).orderCounter = s.orderCounter := (setOrder_agree s orderId order).orderCounter (by simp)

-- The flag is written and never read.
def activeKeys (marketId orderId : Nat) (key : StateKey) : Bool :=
  key = .activeOrder marketId orderId || key = .activeOrderList marketId

theorem addActiveOrder_agree (s : StateManager) (marketId orderId : Nat) :
    Agree (!activeKeys marketId orderId ·) s (s.addActiveOrder marketId orderId) := by
  unfold addActiveOrder
  dsimp only
  split
  · exact (Agree.refl _ s).set (by simp [activeKeys])
  · exact ((Agree.refl _ s).set (by simp [activeKeys])).set (by simp [activeKeys])

theorem removeActiveOrder_agree (s : StateManager) (marketId orderId : Nat) :
    Agree (!activeKeys marketId orderId ·) s (s.removeActiveOrder marketId orderId) :=
  ((Agree.refl _ s).delete (by simp [activeKeys])).set (by simp [activeKeys])

@[simp] theorem getOrder_addActiveOrder (s : StateManager) (marketId orderId read : Nat) :
    (s.addActiveOrder marketId orderId).getOrder read = s.getOrder read :=
  (addActiveOrder_agree s marketId orderId).getOrder (by simp [activeKeys])

@[simp] theorem getOrder_removeActiveOrder (s : StateManager) (marketId orderId read : Nat) :
    (s.removeActiveOrder marketId orderId).getOrder read = s.getOrder read :=
  (removeActiveOrder_agree s marketId orderId).getOrder (by simp [activeKeys])

@[simp] theorem orderCounter_addActiveOrder (s : StateManager) (marketId orderId : Nat) :
    (s.addActiveOrder marketId orderId).orderCounter = s.orderCounter :=
  (addActiveOrder_agree s marketId orderId).orderCounter (by simp [activeKeys])

@[simp] theorem orderCounter_removeActiveOrder (s : StateManager) (marketId orderId : Nat) :
    (s.removeActiveOrder marketId orderId).orderCounter = s.orderCounter :=
  (removeActiveOrder_agree s marketId orderId).orderCounter (by simp [activeKeys])

theorem getActiveOrdersByMarket_addActiveOrder (fresh : orderId ∉ s.getActiveOrdersByMarket marketId) (read : Nat) :
    (s.addActiveOrder marketId orderId).getActiveOrdersByMarket read =
      if read = marketId then s.getActiveOrdersByMarket marketId ++ [orderId]
      else s.getActiveOrdersByMarket read := by
  have flagged : ∀ read, (s.set (.activeOrder marketId orderId) true).getActiveOrdersByMarket read =
      s.getActiveOrdersByMarket read := by
    intro read
    rw [getActiveOrdersByMarket,get_set_ne _ _ (by simp),getActiveOrdersByMarket]
  unfold addActiveOrder
  dsimp only
  rw [flagged,if_neg fresh]
  by_cases same : read = marketId
  · subst same; simp [getActiveOrdersByMarket,get_set_self]
  · rw [if_neg same,getActiveOrdersByMarket,get_set_ne _ _ (by simpa using same),get_set_ne _ _ (by simp),
      getActiveOrdersByMarket]

@[simp] theorem getActiveOrdersByMarket_removeActiveOrder (s : StateManager) (marketId orderId read : Nat) :
    (s.removeActiveOrder marketId orderId).getActiveOrdersByMarket read =
      if read = marketId then (s.getActiveOrdersByMarket marketId).filter (· ≠ orderId)
      else s.getActiveOrdersByMarket read := by
  have flagged : ∀ read, (s.delete (.activeOrder marketId orderId)).getActiveOrdersByMarket read =
      s.getActiveOrdersByMarket read := by
    intro read
    rw [getActiveOrdersByMarket,get_delete_ne _ (by simp),getActiveOrdersByMarket]
  unfold removeActiveOrder
  dsimp only
  rw [flagged]
  by_cases same : read = marketId
  · subst same; simp [getActiveOrdersByMarket,get_set_self]
  · rw [if_neg same,getActiveOrdersByMarket,get_set_ne _ _ (by simpa using same),get_delete_ne _ (by simp),
      getActiveOrdersByMarket]

theorem nextOrderId_of_lt (counter : s.orderCounter + 1 < 2 ^ 64) :
    s.nextOrderId = .ok (s.orderCounter,s.set .nextOrderId (s.orderCounter + 1)) := by
  rw [nextOrderId,checkedAdd,if_pos counter]

theorem nextOrderId_full (full : ¬s.orderCounter + 1 < 2 ^ 64) :
    s.nextOrderId = .error (.other "Order ID counter overflow") := by
  rw [nextOrderId,checkedAdd,if_neg full]

theorem nextOrderId_cases (taken : s.nextOrderId = .ok (orderId,t)) :
    orderId = s.orderCounter ∧ t = s.set .nextOrderId (s.orderCounter + 1) ∧ s.orderCounter + 1 < 2 ^ 64 := by
  unfold nextOrderId at taken
  split at taken
  · cases taken
  · rename_i next checked
    obtain ⟨fits,rfl⟩ := checkedAdd_eq_some.mp checked
    cases taken
    exact ⟨rfl,rfl,fits⟩

theorem updatePositionIndex_agree (s : StateManager) (marketId : Nat) :
    Agree (!StateKey.ofPositions ·) s (s.updatePositionIndex marketId) := by
  unfold updatePositionIndex
  split
  · exact (Agree.refl _ s).set rfl
  · exact (Agree.refl _ s).delete rfl

-- The index itself is memory of the process; reads do not see it.
theorem insertIntoPositionIndex_agree (keys : StateKey → Bool) (s : StateManager) (marketId : Nat)
    (address : Address) : Agree keys s (s.insertIntoPositionIndex marketId address) := fun _ _ => rfl

theorem removeFromPositionIndex_agree (keys : StateKey → Bool) (s : StateManager) (marketId : Nat)
    (address : Address) : Agree keys s (s.removeFromPositionIndex marketId address) := by
  unfold removeFromPositionIndex
  split
  · exact .refl _ s
  · exact fun _ _ => rfl

theorem setPosition_agree (s : StateManager) (address : Address) (marketId : Nat) (position : Position) :
    Agree (!StateKey.ofPositions ·) s (s.setPosition address marketId position) :=
  (((Agree.refl _ s).set rfl).trans (insertIntoPositionIndex_agree _ _ _ _)).trans
    (updatePositionIndex_agree _ _)

theorem deletePosition_agree (s : StateManager) (address : Address) (marketId : Nat) :
    Agree (!StateKey.ofPositions ·) s (s.deletePosition address marketId) :=
  (((Agree.refl _ s).delete rfl).trans (removeFromPositionIndex_agree _ _ _ _)).trans
    (updatePositionIndex_agree _ _)

-- A write to the index leaves the other position keys, and a deleted position reads as
-- what was last committed for it.
theorem getPosition_updatePositionIndex (s : StateManager) (marketId : Nat) (address : Address) (read : Nat) :
    (s.updatePositionIndex marketId).getPosition address read = s.getPosition address read := by
  unfold updatePositionIndex
  split
  · exact get_set_ne _ _ (by simp)
  · exact get_delete_ne _ (by simp)

theorem getPosition_setPosition (s : StateManager) (address : Address) (marketId : Nat) (position : Position)
    (reader : Address) (read : Nat) :
    (s.setPosition address marketId position).getPosition reader read =
      if reader = address ∧ read = marketId then some position else s.getPosition reader read := by
  rw [setPosition,getPosition_updatePositionIndex]
  change (s.set (.position address marketId) position).getPosition reader read = _
  split
  · rename_i same
    obtain ⟨rfl,rfl⟩ := same
    exact get_set_self _ _ _
  · rename_i other
    exact get_set_ne _ _ (by simpa using other)

theorem getPosition_deletePosition (s : StateManager) (address : Address) (marketId : Nat) (reader : Address)
    (read : Nat) :
    (s.deletePosition address marketId).getPosition reader read =
      if reader = address ∧ read = marketId then s.committed (.position address marketId)
      else s.getPosition reader read := by
  rw [deletePosition,getPosition_updatePositionIndex]
  have index := removeFromPositionIndex_agree (fun _ => true) (s.delete (.position address marketId)) marketId address
    (.position reader read) rfl
  rw [getPosition,index]
  split
  · rename_i same
    obtain ⟨rfl,rfl⟩ := same
    exact get_delete_self _ _
  · rename_i other
    exact get_delete_ne _ (by simpa using other)

@[simp] theorem getPosition_setOrder (s : StateManager) (orderId : Nat) (order : Order) (address : Address)
    (marketId : Nat) : (s.setOrder orderId order).getPosition address marketId = s.getPosition address marketId :=
  setOrder_agree s orderId order _ (by simp)

@[simp] theorem getPosition_addActiveOrder (s : StateManager) (market orderId : Nat) (address : Address)
    (marketId : Nat) : (s.addActiveOrder market orderId).getPosition address marketId = s.getPosition address marketId :=
  addActiveOrder_agree s market orderId _ (by simp [activeKeys])

@[simp] theorem getPosition_removeActiveOrder (s : StateManager) (market orderId : Nat) (address : Address)
    (marketId : Nat) :
    (s.removeActiveOrder market orderId).getPosition address marketId = s.getPosition address marketId :=
  removeActiveOrder_agree s market orderId _ (by simp [activeKeys])

@[simp] theorem committed_setOrder (s : StateManager) (orderId : Nat) (order : Order) (key : StateKey) :
    (s.setOrder orderId order).committed key = s.committed key := rfl

@[simp] theorem committed_addActiveOrder (s : StateManager) (marketId orderId : Nat) (key : StateKey) :
    (s.addActiveOrder marketId orderId).committed key = s.committed key := by
  unfold addActiveOrder
  dsimp only
  split <;> rfl

@[simp] theorem committed_removeActiveOrder (s : StateManager) (marketId orderId : Nat) (key : StateKey) :
    (s.removeActiveOrder marketId orderId).committed key = s.committed key := rfl

theorem committed_updatePositionIndex (s : StateManager) (marketId : Nat) (key : StateKey) :
    (s.updatePositionIndex marketId).committed key = s.committed key := by
  unfold updatePositionIndex
  split <;> rfl

@[simp] theorem committed_setPosition (s : StateManager) (address : Address) (marketId : Nat) (position : Position)
    (key : StateKey) : (s.setPosition address marketId position).committed key = s.committed key :=
  committed_updatePositionIndex _ _ _

@[simp] theorem committed_deletePosition (s : StateManager) (address : Address) (marketId : Nat) (key : StateKey) :
    (s.deletePosition address marketId).committed key = s.committed key := by
  rw [deletePosition,committed_updatePositionIndex]
  unfold removeFromPositionIndex
  split <;> rfl

theorem committed_of_get_none (absent : s.get key = none) : s.committed key = none := by
  unfold get RocksDbStorage.get at absent
  split at absent
  · cases absent
  · exact absent

end StateManager
end Pranklin
