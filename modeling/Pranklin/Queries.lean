import Pranklin.Funding

namespace Pranklin

namespace StateManager

def listAllAssets (s : StateManager) : List Nat := (s.get .assetList).getD []

end StateManager

structure PositionInfo where
  marketId : Nat
  size : Nat
  entryPrice : Nat
  isLong : Bool
  margin : Nat
  unrealizedPnl : Nat
  isProfit : Bool
deriving DecidableEq

def PositionInfo.fromPosition (position : Position) (marketId : Nat) : PositionInfo where
  marketId := marketId
  size := position.size
  entryPrice := position.entryPrice
  isLong := position.isLong
  margin := position.margin
  unrealizedPnl := 0
  isProfit := true

structure OrderInfo where
  id : Nat
  marketId : Nat
  owner : Address
  isBuy : Bool
  price : Nat
  originalSize : Nat
  remainingSize : Nat
  createdAt : Nat
deriving DecidableEq

def Order.info (order : Order) : OrderInfo :=
  ⟨order.id,order.marketId,order.owner,order.isBuy,order.price,order.originalSize,order.remainingSize,order.createdAt⟩

structure MarketInfo where
  id : Nat
  symbol : String
  baseAssetId : Nat
  quoteAssetId : Nat
  priceDecimals : Nat
  sizeDecimals : Nat
  minOrderSize : Nat
  maxLeverage : Nat
deriving DecidableEq

def Market.info (market : Market) : MarketInfo :=
  ⟨market.id,market.symbol,market.baseAssetId,market.quoteAssetId,market.priceDecimals,market.sizeDecimals,
    market.minOrderSize,market.maxLeverage⟩

-- The records of funding rates and assets are answered field by field.
inductive Answer where
  | balance (balance : Nat)
  | nonce (nonce : Nat)
  | position (position : Option PositionInfo)
  | positions (positions : List PositionInfo)
  | order (order : Option OrderInfo)
  | orders (orders : List OrderInfo)
  | market (market : Option MarketInfo)
  | fundingRate (funding : FundingRate)
  | agents (agents : List (Address × Nat))
  | asset (asset : Option Asset)
  | assets (assets : List Asset)
  | isOperator (isOperator : Bool)
deriving DecidableEq

inductive Query where
  | getBalance (address : Address) (assetId : Nat)
  | getNonce (address : Address)
  | getPosition (address : Address) (marketId : Nat)
  | getPositions (address : Address)
  | getOrder (orderId : Nat)
  | listOrders (address : Address) (marketId : Option Nat)
  | getMarketInfo (marketId : Nat)
  | getFundingRate (marketId : Nat)
  | listAgents (address : Address)
  | getAssetInfo (assetId : Nat)
  | listAssets
  | checkBridgeOperator (address : Address)

namespace Query

-- Positions, orders and agents of an account are not looked up.
def answer (state : StateManager) : Query → Answer
  | .getBalance address assetId => .balance (state.getBalance address assetId)
  | .getNonce address => .nonce (state.getNonce address)
  | .getPosition address marketId => .position ((state.getPosition address marketId).map (PositionInfo.fromPosition · marketId))
  | .getPositions _ => .positions []
  | .getOrder orderId => .order ((state.getOrder orderId).map Order.info)
  | .listOrders _ _ => .orders []
  | .getMarketInfo marketId => .market ((state.getMarket marketId).map Market.info)
  | .getFundingRate marketId => .fundingRate (state.getFundingRate marketId)
  | .listAgents _ => .agents []
  | .getAssetInfo assetId => .asset (state.getAsset assetId)
  | .listAssets => .assets (state.listAllAssets.filterMap state.getAsset)
  | .checkBridgeOperator address => .isOperator (state.isBridgeOperator address)

end Query
end Pranklin
