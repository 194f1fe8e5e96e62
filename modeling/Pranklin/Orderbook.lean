import Mathlib.Data.Finset.Insert
import Pranklin.State

namespace Pranklin
open Words

structure PriceLevel where
  orders : List Nat
  totalSize : Nat
deriving DecidableEq

namespace PriceLevel

def new : PriceLevel := ⟨[],0⟩

def addOrder (level : PriceLevel) (orderId size : Nat) : PriceLevel :=
  ⟨level.orders ++ [orderId],addWrap 64 level.totalSize size⟩

-- The first occurrence leaves the queue; the total is a `saturating_sub`.
def removeOrder (level : PriceLevel) (orderId size : Nat) : PriceLevel :=
  if orderId ∈ level.orders then ⟨level.orders.erase orderId,level.totalSize - size⟩ else level

def isEmpty (level : PriceLevel) : Bool := level.orders.isEmpty

end PriceLevel

abbrev PriceLevels := Std.TreeMap Nat PriceLevel

-- A market without an entry in `bids` or `asks` reads as one with no levels.
structure OrderbookManager where
  orders : Nat → Option Order
  ordersByMarket : Nat → Finset Nat
  bids : Nat → PriceLevels
  asks : Nat → PriceLevels

namespace OrderbookManager

def new : OrderbookManager := ⟨fun _ => none,fun _ => ∅,fun _ => ∅,fun _ => ∅⟩

def side (book : OrderbookManager) (isBuy : Bool) : Nat → PriceLevels := if isBuy then book.bids else book.asks

def setSide (book : OrderbookManager) (isBuy : Bool) (marketId : Nat) (levels : PriceLevels) : OrderbookManager :=
  if isBuy then {book with bids:=Function.update book.bids marketId levels}
  else {book with asks:=Function.update book.asks marketId levels}

def addOrder (book : OrderbookManager) (orderId : Nat) (order : Order) : OrderbookManager :=
  let book := {book with
    orders:=Function.update book.orders orderId (some order),
    ordersByMarket:=Function.update book.ordersByMarket order.marketId
      (insert orderId (book.ordersByMarket order.marketId))}
  let levels := book.side order.isBuy order.marketId
  let level := (levels[order.price]?).getD .new
  book.setSide order.isBuy order.marketId (levels.insert order.price (level.addOrder orderId order.remainingSize))

def removeOrder (book : OrderbookManager) (orderId : Nat) (order : Order) : OrderbookManager :=
  let book := {book with
    orders:=Function.update book.orders orderId none,
    ordersByMarket:=Function.update book.ordersByMarket order.marketId
      ((book.ordersByMarket order.marketId).erase orderId)}
  let levels := book.side order.isBuy order.marketId
  match levels[order.price]? with
  | none => book
  | some level =>
    let level := level.removeOrder orderId order.remainingSize
    book.setSide order.isBuy order.marketId
      (if level.isEmpty then levels.erase order.price else levels.insert order.price level)

def bestFirst (isBuy : Bool) (levels : PriceLevels) : List Nat :=
  if isBuy then levels.keys.reverse else levels.keys

def wouldMatch (book : OrderbookManager) (order : Order) : Bool :=
  match bestFirst (!order.isBuy) (book.side (!order.isBuy) order.marketId) with
  | [] => false
  | bestPrice :: _ =>
    if order.price = 0 then true
    else if order.isBuy then decide (bestPrice ≤ order.price)
    else decide (order.price ≤ bestPrice)

-- What the inner loop of `match_order` carries. `borrowed` records whether one of
-- the unchecked subtractions went below zero; nothing reads it.
structure LevelMatch where
  state : StateManager
  level : PriceLevel
  remaining : Nat
  fills : List Fill
  borrowed : Bool

def makeFill (order maker : Order) (price size makerOrderId : Nat) : Fill where
  maker := maker.owner
  taker := order.owner
  marketId := order.marketId
  price := price
  size := size
  takerIsBuy := order.isBuy
  makerOrderId := makerOrderId
  takerOrderId := order.id

def matchMaker (order : Order) (price : Nat) (m : LevelMatch) (makerOrderId : Nat) : LevelMatch :=
  match m.state.getOrder makerOrderId with
  | none => m
  | some maker =>
    if maker.owner = order.owner then m
    else
      let fillSize := min m.remaining maker.remainingSize
      let fills := m.fills ++ [makeFill order maker price fillSize makerOrderId]
      let remaining := subWrap 64 m.remaining fillSize
      let updated := {maker with remainingSize:=subWrap 64 maker.remainingSize fillSize}
      let borrowed := m.borrowed || borrows m.remaining fillSize || borrows maker.remainingSize fillSize
      if updated.remainingSize = 0 then
        let updated := {updated with status:=.filled}
        ⟨(m.state.setOrder makerOrderId updated).removeActiveOrder updated.marketId makerOrderId,
          m.level.removeOrder makerOrderId fillSize,remaining,fills,borrowed⟩
      else
        ⟨m.state.setOrder makerOrderId updated,
          {m.level with totalSize:=subWrap 64 m.level.totalSize fillSize},remaining,fills,
          borrowed || borrows m.level.totalSize fillSize⟩

-- The queue is walked as it stood when the level was reached.
def matchLevel (order : Order) (price : Nat) (m : LevelMatch) : List Nat → LevelMatch
  | [] => m
  | makerOrderId :: rest =>
    if m.remaining = 0 then m else matchLevel order price (matchMaker order price m makerOrderId) rest

structure BookMatch where
  state : StateManager
  levels : PriceLevels
  remaining : Nat
  fills : List Fill
  borrowed : Bool

def outOfReach (order : Order) (price : Nat) : Bool :=
  (order.isBuy && decide (0 < order.price) && decide (order.price < price)) ||
    (!order.isBuy && decide (0 < order.price) && decide (price < order.price))

def matchPrice (order : Order) (m : BookMatch) (price : Nat) : BookMatch :=
  match m.levels[price]? with
  | none => m
  | some level =>
    let matched := matchLevel order price ⟨m.state,level,m.remaining,m.fills,m.borrowed⟩ level.orders
    ⟨matched.state,
      if matched.level.isEmpty then m.levels.erase price else m.levels.insert price matched.level,
      matched.remaining,matched.fills,matched.borrowed⟩

def matchPrices (order : Order) (m : BookMatch) : List Nat → BookMatch
  | [] => m
  | price :: rest =>
    if outOfReach order price then m
    else
      let m := matchPrice order m price
      if m.remaining = 0 then m else matchPrices order m rest

structure MatchResult where
  state : StateManager
  book : OrderbookManager
  fills : List Fill
  borrowed : Bool

def matchOrder (book : OrderbookManager) (state : StateManager) (order : Order) :
    Except EngineError MatchResult :=
  if order.postOnly && book.wouldMatch order then .error .postOnlyWouldTake
  else
    let levels := book.side (!order.isBuy) order.marketId
    let matched := matchPrices order ⟨state,levels,order.remainingSize,[],false⟩
      (bestFirst (!order.isBuy) levels)
    .ok ⟨matched.state,book.setSide (!order.isBuy) order.marketId matched.levels,matched.fills,matched.borrowed⟩

def depthOf (levels : List (Nat × PriceLevel)) (count : Nat) : List (Nat × Nat) :=
  (levels.take count).map fun entry => (entry.1,entry.2.totalSize)

def getDepth (book : OrderbookManager) (marketId count : Nat) : List (Nat × Nat) × List (Nat × Nat) :=
  (depthOf (book.bids marketId).toList.reverse count,depthOf (book.asks marketId).toList count)

end OrderbookManager
end Pranklin
