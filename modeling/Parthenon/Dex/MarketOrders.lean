import Parthenon.Dex.Cancellation

namespace Parthenon.Dex

open Library Primitives Std

/-! # Market orders

A market order is placed like any other order and then the book is matched.
-/

@[ext] structure TradingPair where
  base : AssetID
  quote : AssetID
deriving DecidableEq, Repr

namespace TradingPair

instance : Ord TradingPair where
  compare := compareLex (compareOn (·.base)) (compareOn (·.quote))

instance : TransOrd TradingPair :=
  inferInstanceAs (TransCmp (compareLex (compareOn TradingPair.base) (compareOn TradingPair.quote)))

instance : LawfulEqOrd TradingPair where
  compare_self {_} := ReflCmp.compare_self
  eq_of_compare {left right} same := by
    obtain ⟨base, quote⟩ := compareLex_eq_eq.mp same
    exact TradingPair.ext (LawfulEqOrd.eq_of_compare base) (LawfulEqOrd.eq_of_compare quote)

end TradingPair

structure DEXManager where
  orderBooks : ExtTreeMap TradingPair OrderBook compare

namespace DEXManager

variable (manager : DEXManager) (base quote : AssetID)

/-- The book of a pair, opened when it is first asked for. -/
def getOrderBook : OrderBook × DEXManager :=
  match manager.orderBooks[TradingPair.mk base quote]? with
  | some book => (book, manager)
  | none =>
      (.new base quote,
        { orderBooks := manager.orderBooks.insert ⟨base, quote⟩ (.new base quote) })

def marketOrder (orderType : OrderType) (amount : UInt64) (traderPubkey : Bytes) : Order where
  orderId := []
  traderPubkey
  baseAsset := base
  quoteAsset := quote
  orderType
  status := .pending
  price := if orderType = .marketBuy then 0xFFFFFFFFFFFFFFFF else 0
  amount
  filledAmount := 0
  timestamp := 0
  signature := []

/-- The result of the placement is not looked at. -/
def executeMarketOrder (orderType : OrderType) (amount : UInt64) (traderPubkey : Bytes)
    (now : UInt64) (clock : Nat → UInt64) : Option (List Trade × DEXManager) :=
  let (book, opened) := manager.getOrderBook base quote
  let placed := (book.placeOrder (marketOrder base quote orderType amount traderPubkey) now).2
  (placed.matchOrders clock).map fun outcome =>
    (outcome.1, { orderBooks := opened.orderBooks.insert ⟨base, quote⟩ outcome.2 })

end DEXManager

/-! ## What a market order is to take -/

namespace OrderBook

/-- The side that buys, or the one that sells. -/
def ownSide (book : OrderBook) : OrderType → Levels
  | .limitBuy | .marketBuy => book.buyOrders
  | .limitSell | .marketSell => book.sellOrders

/-- The orders that an order is traded against, the best price first. -/
def opposing (book : OrderBook) : OrderType → List Order
  | .limitBuy | .marketBuy => book.sellOrders.toList.flatMap fun entry => entry.2.orders
  | .limitSell | .marketSell => book.buyOrders.toList.reverse.flatMap fun entry => entry.2.orders

end OrderBook

def unfilledTotal (orders : List Order) : Nat :=
  (orders.map fun order => order.unfilled.toNat).sum

/-- What an amount takes from each order when it goes through them in turn. -/
def sweep : Nat → List Order → List (Bytes × Nat)
  | _, [] => []
  | wanted, order :: rest =>
      match min wanted order.unfilled.toNat with
      | 0 => sweep wanted rest
      | taken + 1 => (order.orderId, taken + 1) :: sweep (wanted - (taken + 1)) rest

/-- The order that came, and its trader. -/
def Trade.taker (trade : Trade) : OrderType → Bytes × Bytes
  | .limitBuy | .marketBuy => (trade.buyOrderId, trade.buyerPubkey)
  | .limitSell | .marketSell => (trade.sellOrderId, trade.sellerPubkey)

/-- The order that was there. -/
def Trade.makerId (trade : Trade) : OrderType → Bytes
  | .limitBuy | .marketBuy => trade.sellOrderId
  | .limitSell | .marketSell => trade.buyOrderId

/-- An order is filled from the other side as far as that side goes, and none of it rests. -/
structure FillsAgainst (before after : OrderBook) (order : Order) (trades : List Trade) : Prop where
  amount : (trades.map fun trade => trade.amount.toNat).sum =
    min order.amount.toNat (unfilledTotal (before.opposing order.orderType))
  bestFirst : (trades.map fun trade => (trade.makerId order.orderType, trade.amount.toNat)) =
    sweep order.amount.toNat (before.opposing order.orderType)
  named : ∀ trade ∈ trades,
    trade.taker order.orderType = (OrderBook.identify order, order.traderPubkey)
  notResting : after.ownSide order.orderType = before.ownSide order.orderType

theorem sweep_of_none_unfilled {orders : List Order} (none : unfilledTotal orders = 0)
    (wanted : Nat) : sweep wanted orders = [] := by
  induction orders with
  | nil => rfl
  | cons order rest ih =>
      rw [unfilledTotal, List.map_cons, List.sum_cons, Nat.add_eq_zero_iff] at none
      rw [sweep, none.1, Nat.min_zero]
      exact ih none.2

theorem sum_sweep (orders : List Order) (wanted : Nat) :
    ((sweep wanted orders).map Prod.snd).sum = min wanted (unfilledTotal orders) := by
  induction orders generalizing wanted with
  | nil => simp [sweep, unfilledTotal]
  | cons order rest ih =>
      have whole : unfilledTotal (order :: rest) = order.unfilled.toNat + unfilledTotal rest := rfl
      rw [sweep, whole]
      cases size : min wanted order.unfilled.toNat with
      | zero =>
          have here := ih wanted
          dsimp only
          omega
      | succ taken =>
          have later := ih (wanted - (taken + 1))
          rw [List.map_cons, List.sum_cons, later]
          omega

theorem FillsAgainst.of_sweep {before after : OrderBook} {order : Order} {trades : List Trade}
    (bestFirst : (trades.map fun trade => (trade.makerId order.orderType, trade.amount.toNat)) =
      sweep order.amount.toNat (before.opposing order.orderType))
    (named : ∀ trade ∈ trades,
      trade.taker order.orderType = (OrderBook.identify order, order.traderPubkey))
    (notResting : after.ownSide order.orderType = before.ownSide order.orderType) :
    FillsAgainst before after order trades where
  amount := by
    have swept := sum_sweep (before.opposing order.orderType) order.amount.toNat
    rw [← bestFirst, List.map_map] at swept
    exact swept
  bestFirst
  named
  notResting

/-! ## What it takes -/

namespace OrderBook

variable {book : OrderBook}

theorem placeOrder_market_levels {order : Order} (isMarket : ¬ order.IsLimit) (now : UInt64) :
    (book.placeOrder order now).2.buyOrders = book.buyOrders ∧
      (book.placeOrder order now).2.sellOrders = book.sellOrders := by
  have isType : (accepted order now).orderType = order.orderType := rfl
  unfold placeOrder
  split
  · exact ⟨rfl, rfl⟩
  · dsimp only
    rw [isType]
    cases kind : order.orderType with
    | limitBuy => exact absurd (.inl kind) isMarket
    | limitSell => exact absurd (.inr kind) isMarket
    | marketBuy => exact ⟨rfl, rfl⟩
    | marketSell => exact ⟨rfl, rfl⟩

end OrderBook

namespace DEXManager

variable {manager : DEXManager} {base quote : AssetID} {orderType : OrderType}

/-- On a book where nothing crosses a market order makes no trade, whatever rests there. -/
theorem executeMarketOrder_uncrossed
    (isMarket : orderType = .marketBuy ∨ orderType = .marketSell)
    (uncrossed : (manager.getOrderBook base quote).1.Uncrossed) (amount : UInt64)
    (traderPubkey : Bytes) (now : UInt64) (clock : Nat → UInt64) :
    ∃ next, manager.executeMarketOrder base quote orderType amount traderPubkey now clock =
        some ([], next) ∧
      (next.getOrderBook base quote).1.buyOrders =
        (manager.getOrderBook base quote).1.buyOrders ∧
      (next.getOrderBook base quote).1.sellOrders =
        (manager.getOrderBook base quote).1.sellOrders := by
  have noLimit : ¬ (marketOrder base quote orderType amount traderPubkey).IsLimit := by
    rcases isMarket with rfl | rfl <;> simp [Order.IsLimit, marketOrder]
  have levels : ((manager.getOrderBook base quote).1.placeOrder
        (marketOrder base quote orderType amount traderPubkey) now).2.buyOrders =
          (manager.getOrderBook base quote).1.buyOrders ∧
      ((manager.getOrderBook base quote).1.placeOrder
        (marketOrder base quote orderType amount traderPubkey) now).2.sellOrders =
          (manager.getOrderBook base quote).1.sellOrders :=
    OrderBook.placeOrder_market_levels noLimit now
  obtain ⟨bids, asks⟩ := levels
  have still : ((manager.getOrderBook base quote).1.placeOrder
      (marketOrder base quote orderType amount traderPubkey) now).2.Uncrossed := by
    intro bid bids_ ask asks_ isBid isAsk
    rw [bids] at isBid
    rw [asks] at isAsk
    exact uncrossed bid bids_ ask asks_ isBid isAsk
  have done : manager.executeMarketOrder base quote orderType amount traderPubkey now clock =
      some ([],
        { orderBooks := (manager.getOrderBook base quote).2.orderBooks.insert ⟨base, quote⟩
            ((manager.getOrderBook base quote).1.placeOrder
              (marketOrder base quote orderType amount traderPubkey) now).2 }) := by
    rw [executeMarketOrder]
    dsimp only
    rw [still.matchOrders]
    rfl
  refine ⟨_, done, ?_⟩
  rw [getOrderBook, ExtTreeMap.getElem?_insert_self]
  exact ⟨bids, asks⟩

/-- A market order is filled as it should be exactly where there is nothing to fill it from. -/
theorem executeMarketOrder_fills_iff (manager : DEXManager) (base quote : AssetID)
    (isMarket : orderType = .marketBuy ∨ orderType = .marketSell)
    (uncrossed : (manager.getOrderBook base quote).1.Uncrossed) {amount : UInt64}
    (positive : 0 < amount) (traderPubkey : Bytes) (now : UInt64) (clock : Nat → UInt64) :
    (∃ trades next,
      manager.executeMarketOrder base quote orderType amount traderPubkey now clock =
        some (trades, next) ∧
      FillsAgainst (manager.getOrderBook base quote).1 (next.getOrderBook base quote).1
        (marketOrder base quote orderType amount traderPubkey) trades) ↔
      unfilledTotal ((manager.getOrderBook base quote).1.opposing orderType) = 0 := by
  obtain ⟨last, done, bids, asks⟩ :=
    executeMarketOrder_uncrossed isMarket uncrossed amount traderPubkey now clock
  constructor
  · rintro ⟨trades, next, isDone, fills⟩
    rw [done] at isDone
    cases isDone
    have taken : 0 = min amount.toNat
        (unfilledTotal ((manager.getOrderBook base quote).1.opposing orderType)) := fills.amount
    have some_ : 0 < amount.toNat := UInt64.lt_iff_toNat_lt.mp positive
    omega
  · intro none
    refine ⟨[], last, done, .of_sweep ?_ (fun trade member => nomatch member) ?_⟩
    · exact (sweep_of_none_unfilled none amount.toNat).symm
    · rcases isMarket with rfl | rfl
      · exact bids
      · exact asks

theorem executeMarketOrder_fills_iff_empty :
    (∃ trades next,
      (DEXManager.mk ∅).executeMarketOrder .talanton .drachma .marketBuy 5 [1] 0 (fun _ => 0) =
        some (trades, next) ∧
      FillsAgainst ((DEXManager.mk ∅).getOrderBook .talanton .drachma).1
        (next.getOrderBook .talanton .drachma).1
        (marketOrder .talanton .drachma .marketBuy 5 [1]) trades) ↔
      unfilledTotal (((DEXManager.mk ∅).getOrderBook .talanton .drachma).1.opposing .marketBuy) =
        0 := by
  have opened : ((DEXManager.mk ∅).getOrderBook .talanton .drachma).1 =
      .new .talanton .drachma := by
    rw [getOrderBook, ExtTreeMap.getElem?_empty]
  apply executeMarketOrder_fills_iff _ _ _ (.inl rfl)
  · rw [opened]
    intro bid bids ask asks isBid
    exact absurd isBid not_found_empty
  · decide

/-- A manager whose only book holds one ask. -/
def withAsk : DEXManager where
  orderBooks := (∅ : ExtTreeMap TradingPair OrderBook compare).insert ⟨.talanton, .drachma⟩
    ((OrderBook.new .talanton .drachma).placeOrder Desk.ask 0).2

theorem withAsk_book : (withAsk.getOrderBook .talanton .drachma).1 =
    ((OrderBook.new .talanton .drachma).placeOrder Desk.ask 0).2 := by
  rw [getOrderBook, withAsk, ExtTreeMap.getElem?_insert_self]

/-- A buyer of one unit gets nothing where five are on offer. -/
theorem executeMarketOrder_not_fills :
    ¬ ∀ (manager : DEXManager) (base quote : AssetID) (orderType : OrderType) (amount : UInt64)
        (traderPubkey : Bytes) (now : UInt64) (clock : Nat → UInt64),
      (orderType = .marketBuy ∨ orderType = .marketSell) →
      (manager.getOrderBook base quote).1.Uncrossed → 0 < amount →
      ∃ trades next,
        manager.executeMarketOrder base quote orderType amount traderPubkey now clock =
          some (trades, next) ∧
        FillsAgainst (manager.getOrderBook base quote).1 (next.getOrderBook base quote).1
          (marketOrder base quote orderType amount traderPubkey) trades := by
  intro law
  have noBids : (withAsk.getOrderBook .talanton .drachma).1.buyOrders = ∅ := by
    rw [withAsk_book]
    rfl
  have offered : unfilledTotal
      ((withAsk.getOrderBook .talanton .drachma).1.opposing .marketBuy) = 5 := by
    rw [withAsk_book]
    rfl
  have uncrossed : (withAsk.getOrderBook .talanton .drachma).1.Uncrossed := by
    intro bid bids ask asks isBid
    rw [noBids] at isBid
    exact absurd isBid not_found_empty
  obtain ⟨trades, next, done, fills⟩ :=
    law withAsk .talanton .drachma .marketBuy 1 [1] 0 (fun _ => 0) (.inl rfl) uncrossed (by decide)
  obtain ⟨last, none, -⟩ :=
    executeMarketOrder_uncrossed (.inl rfl) uncrossed 1 [1] 0 fun _ => 0
  rw [none] at done
  cases done
  have taken := fills.amount
  rw [show (marketOrder .talanton .drachma .marketBuy 1 [1]).orderType = .marketBuy from rfl,
    offered] at taken
  cases taken

end DEXManager

end Parthenon.Dex
