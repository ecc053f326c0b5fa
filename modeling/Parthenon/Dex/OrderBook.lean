import Parthenon.Crypto.Sha256
import Parthenon.Library.OrderedMap
import Parthenon.Primitives.Asset

namespace Parthenon.Dex

open Library Crypto Primitives Std

/-! # Order book

Limit orders rest in the level of their price, in the order they came, and are
traded from the best prices.  A table by identifier keeps a copy of each order.
-/

inductive OrderType
  | limitBuy | limitSell | marketBuy | marketSell
deriving DecidableEq, Repr

inductive OrderStatus
  | pending | partiallyFilled | filled | cancelled
deriving DecidableEq, Repr

structure Order where
  orderId : Bytes
  traderPubkey : Bytes
  baseAsset : AssetID
  quoteAsset : AssetID
  orderType : OrderType
  status : OrderStatus
  price : UInt64
  amount : UInt64
  filledAmount : UInt64
  timestamp : UInt64
  signature : Bytes
deriving DecidableEq, Repr

structure Trade where
  tradeId : Bytes
  buyOrderId : Bytes
  sellOrderId : Bytes
  baseAsset : AssetID
  quoteAsset : AssetID
  price : UInt64
  amount : UInt64
  timestamp : UInt64
  buyerPubkey : Bytes
  sellerPubkey : Bytes
deriving DecidableEq, Repr

/-- The orders at one price.  A level is opened by its first order and removed with
its last. -/
structure Level where
  front : Order
  rest : List Order
deriving DecidableEq, Repr

abbrev Levels := ExtTreeMap UInt64 Level compare

structure OrderBook where
  baseAsset : AssetID
  quoteAsset : AssetID
  buyOrders : Levels
  sellOrders : Levels
  ordersById : ExtTreeMap Bytes Order compare

def Order.unfilled (order : Order) : UInt64 := order.amount - order.filledAmount

namespace Level

def orders (level : Level) : List Order := level.front :: level.rest

/-- What a level adds to the depth, capped at the largest value. -/
def totalFrom : UInt64 → List Order → UInt64
  | total, [] => total
  | total, order :: rest =>
      if total > 0xFFFFFFFFFFFFFFFF - order.unfilled then 0xFFFFFFFFFFFFFFFF
      else totalFrom (total + order.unfilled) rest

end Level

namespace Levels

def push (levels : Levels) (order : Order) : Levels :=
  match levels[order.price]? with
  | none => levels.insert order.price { front := order, rest := [] }
  | some level => levels.insert order.price { level with rest := level.rest ++ [order] }

/-- The front order of a level after a trade leaves it when it is filled, and a level
that is left empty is removed. -/
def settle (levels : Levels) (price : UInt64) (front : Order) (rest : List Order) : Levels :=
  if front.filledAmount = front.amount then
    match rest with
    | [] => levels.erase price
    | next :: others => levels.insert price { front := next, rest := others }
  else levels.insert price { front, rest }

def ordersAt (levels : Levels) (price : UInt64) : List Order :=
  (levels[price]?.map Level.orders).getD []

end Levels

structure MarketDepth where
  bids : List (UInt64 × UInt64)
  asks : List (UInt64 × UInt64)
deriving DecidableEq, Repr

namespace OrderBook

def new (base quote : AssetID) : OrderBook where
  baseAsset := base
  quoteAsset := quote
  buyOrders := ∅
  sellOrders := ∅
  ordersById := ∅

/-- The identifier of an order covers the time that the caller gives. -/
def identify (order : Order) : Bytes :=
  (SHA256.hash256 (littleEndian 8 order.amount.toNat ++ littleEndian 8 order.price.toNat ++
    littleEndian 8 order.timestamp.toNat ++ order.traderPubkey)).bytes

variable (book : OrderBook)

/-- Every order type is accepted. -/
def validateOrder (order : Order) : Bool :=
  if order.amount = 0 ∨ order.price = 0 then false
  else if order.baseAsset ≠ book.baseAsset ∨ order.quoteAsset ≠ book.quoteAsset then false
  else true

def accepted (order : Order) (now : UInt64) : Order :=
  { order with
    orderId := identify order
    status := .pending
    filledAmount := 0
    timestamp := now }

/-- A market order is in the table alone.  The clock is an input. -/
def placeOrder (order : Order) (now : UInt64) : Bytes × OrderBook :=
  if !book.validateOrder order then ([], book)
  else
    let newOrder := accepted order now
    let listed := { book with ordersById := book.ordersById.insert newOrder.orderId newOrder }
    (newOrder.orderId,
      match newOrder.orderType with
      | .limitBuy => { listed with buyOrders := book.buyOrders.push newOrder }
      | .limitSell => { listed with sellOrders := book.sellOrders.push newOrder }
      | .marketBuy | .marketSell => listed)

/-- The copy in the level stays. -/
def cancelOrder (orderId traderPubkey : Bytes) : Bool × OrderBook :=
  match book.ordersById[orderId]? with
  | none => (false, book)
  | some order =>
      if order.traderPubkey ≠ traderPubkey then (false, book)
      else (true, { book with ordersById := book.ordersById.erase orderId })

/-! ## Matching -/

def tradeBetween (buy sell : Order) (now : UInt64) : Trade :=
  let amount := min buy.unfilled sell.unfilled
  { tradeId := (SHA256.hash256 (littleEndian 8 amount.toNat ++ littleEndian 8 sell.price.toNat)).bytes
    buyOrderId := buy.orderId
    sellOrderId := sell.orderId
    baseAsset := book.baseAsset
    quoteAsset := book.quoteAsset
    price := sell.price
    amount
    timestamp := now
    buyerPubkey := buy.traderPubkey
    sellerPubkey := sell.traderPubkey }

def fill (order : Order) (amount : UInt64) : Order :=
  { order with filledAmount := order.filledAmount + amount }

/-- One turn of the loop, if the best prices overlap. -/
def matchStep (now : UInt64) : Option (Trade × OrderBook) :=
  match book.buyOrders.toList.getLast?, book.sellOrders.toList.head? with
  | some (bidPrice, bids), some (askPrice, asks) =>
      if bidPrice < askPrice then none
      else
        let trade := book.tradeBetween bids.front asks.front now
        some (trade,
          { book with
            buyOrders := book.buyOrders.settle bidPrice (fill bids.front trade.amount) bids.rest
            sellOrders := book.sellOrders.settle askPrice (fill asks.front trade.amount) asks.rest })
  | _, _ => none

/-- Run the loop for at most `fuel` turns.  The clock is read in each of them. -/
def matchLoop : Nat → OrderBook → (Nat → UInt64) → Option (List Trade × OrderBook)
  | 0, _, _ => none
  | fuel + 1, book, clock =>
      match book.matchStep (clock 0) with
      | none => some ([], book)
      | some (trade, next) =>
          (matchLoop fuel next fun turn => clock (turn + 1)).map fun later =>
            (trade :: later.1, later.2)

def restingCount : Nat :=
  total (fun _ level => level.orders.length) book.buyOrders +
    total (fun _ level => level.orders.length) book.sellOrders

def matchOrders (clock : Nat → UInt64) : Option (List Trade × OrderBook) :=
  matchLoop (book.restingCount + 1) book clock

/-! ## Views -/

def getBestBid : Option Order := (book.buyOrders.toList.getLast?).map fun entry => entry.2.front

def getBestAsk : Option Order := (book.sellOrders.toList.head?).map fun entry => entry.2.front

def getDepth (levels : Nat) : MarketDepth where
  bids := (book.buyOrders.toList.reverse.take levels).map fun entry =>
    (entry.1, Level.totalFrom 0 entry.2.orders)
  asks := (book.sellOrders.toList.take levels).map fun entry =>
    (entry.1, Level.totalFrom 0 entry.2.orders)

def getOrder (orderId : Bytes) : Option Order := book.ordersById[orderId]?

end OrderBook

end Parthenon.Dex
