import Parthenon.Dex.OrderBook

namespace Parthenon.Dex

open Library Primitives Std

/-! # Price and time priority

The levels of a book are the unfilled limit orders among all that were placed, in
the order they were placed.  Each turn of the matching loop is a trade between the
first orders of that list by price and time.
-/

/-! ## Levels -/

namespace Levels

theorem ordersAt_of_found {levels : Levels} {price : UInt64} {level : Level}
    (found : levels[price]? = some level) : levels.ordersAt price = level.orders := by
  rw [ordersAt, found]
  rfl

theorem found_of_ordersAt {levels : Levels} {price : UInt64} {front : Order} {rest : List Order}
    (there : levels.ordersAt price = front :: rest) : levels[price]? = some { front, rest } := by
  rw [ordersAt] at there
  cases found : levels[price]? with
  | none => simp [found] at there
  | some level =>
      rw [found] at there
      cases there
      rfl

theorem ordersAt_push (levels : Levels) (order : Order) (price : UInt64) :
    (levels.push order).ordersAt price =
      levels.ordersAt price ++ (if order.price = price then [order] else []) := by
  unfold push ordersAt
  cases found : levels[order.price]? with
  | none =>
      dsimp only
      rw [getElem?_insert_eq]
      by_cases same : order.price = price
      · rw [if_pos same, if_pos same, ← same, found]
        rfl
      · rw [if_neg same, if_neg same, List.append_nil]
  | some level =>
      dsimp only
      rw [getElem?_insert_eq]
      by_cases same : order.price = price
      · rw [if_pos same, if_pos same, ← same, found]
        rfl
      · rw [if_neg same, if_neg same, List.append_nil]

theorem ordersAt_settle (levels : Levels) (price : UInt64) (front : Order) (rest : List Order)
    (other : UInt64) :
    (levels.settle price front rest).ordersAt other =
      if price = other then
        if front.filledAmount = front.amount then rest else front :: rest
      else levels.ordersAt other := by
  unfold settle ordersAt
  by_cases filled : front.filledAmount = front.amount
  · rw [if_pos filled, if_pos filled]
    cases rest with
    | nil =>
        dsimp only
        rw [getElem?_erase_eq]
        split <;> rfl
    | cons next others =>
        dsimp only
        rw [getElem?_insert_eq]
        split <;> rfl
  · rw [if_neg filled, if_neg filled, getElem?_insert_eq]
    split <;> rfl

/-- Where a trade fills the front order there is one order less. -/
theorem total_settle {levels : Levels} {price : UInt64} {level : Level}
    (found : levels[price]? = some level) (front : Order) :
    total (fun _ level => level.orders.length) (levels.settle price front level.rest) +
        (if front.filledAmount = front.amount then 1 else 0) =
      total (fun _ level => level.orders.length) levels := by
  have whole := total_of_found (fun _ (level : Level) => level.orders.length) found
  have isLevel : level.orders.length = level.rest.length + 1 := rfl
  unfold settle
  by_cases filled : front.filledAmount = front.amount
  · rw [if_pos filled, if_pos filled, whole, isLevel]
    cases level.rest with
    | nil =>
        dsimp only
        rw [List.length_nil]
        omega
    | cons next others =>
        dsimp only
        rw [total_insert]
        simp only [Level.orders, List.length_cons]
        omega
  · rw [if_neg filled, if_neg filled, whole, total_insert, isLevel]
    simp only [Level.orders, List.length_cons]
    omega

end Levels

/-! ## Levels and placements -/

/-- An order that rests on a side at a price. -/
def rests (side : OrderType) (price : UInt64) (order : Order) : Bool :=
  order.orderType = side && order.price = price && order.filledAmount < order.amount

theorem rests_iff {side : OrderType} {price : UInt64} {order : Order} :
    rests side price order = true ↔
      order.orderType = side ∧ order.price = price ∧ order.filledAmount < order.amount := by
  simp only [rests, Bool.and_eq_true, decide_eq_true_eq, and_assoc]

/-- The levels of a side are the resting orders of a list, each at its price. -/
def SideOf (side : OrderType) (levels : Levels) (orders : List Order) : Prop :=
  ∀ price, levels.ordersAt price = orders.filter (rests side price)

namespace SideOf

variable {side : OrderType} {levels : Levels} {orders : List Order}

theorem push (sideOf : SideOf side levels orders) {order : Order} (isSide : order.orderType = side)
    (unfilled : order.filledAmount < order.amount) :
    SideOf side (levels.push order) (orders ++ [order]) := by
  intro price
  rw [Levels.ordersAt_push, List.filter_append, sideOf price]
  by_cases same : order.price = price
  · have resting : rests side price order = true := rests_iff.mpr ⟨isSide, same, unfilled⟩
    rw [if_pos same, List.filter_cons_of_pos resting, List.filter_nil]
  · have elsewhere : ¬ rests side price order = true := fun resting =>
      same (rests_iff.mp resting).2.1
    rw [if_neg same, List.filter_cons_of_neg elsewhere, List.filter_nil]

theorem append_other (sideOf : SideOf side levels orders) {order : Order}
    (other : order.orderType ≠ side) : SideOf side levels (orders ++ [order]) := by
  intro price
  have elsewhere : ¬ rests side price order = true := fun resting =>
    other (rests_iff.mp resting).1
  rw [List.filter_append, List.filter_cons_of_neg elsewhere, List.filter_nil, List.append_nil]
  exact sideOf price

theorem modify_middle {α : Type} (before : List α) (middle : α) (after : List α) (change : α → α) :
    (before ++ middle :: after).modify before.length change = before ++ change middle :: after := by
  induction before with
  | nil => rfl
  | cons first rest ih =>
      rw [List.cons_append, List.length_cons, List.modify_succ_cons, ih, List.cons_append]

/-- The order in front of a level is the first of its price in the list. -/
theorem front (sideOf : SideOf side levels orders) {price : UInt64} {level : Level}
    (found : levels[price]? = some level) :
    ∃ before after, orders = before ++ level.front :: after ∧
      rests side price level.front = true ∧
      (∀ order ∈ before, ¬ rests side price order = true) ∧
      after.filter (rests side price) = level.rest := by
  have listed := sideOf price
  rw [Levels.ordersAt_of_found found, Level.orders] at listed
  obtain ⟨before, after, isList, none, resting, rest⟩ := List.filter_eq_cons_iff.mp listed.symm
  exact ⟨before, after, isList, resting, none, rest⟩

theorem settle (sideOf : SideOf side levels orders) {price : UInt64} {level : Level}
    {before after : List Order}
    (isList : orders = before ++ level.front :: after)
    (resting : rests side price level.front = true)
    (none : ∀ order ∈ before, ¬ rests side price order = true)
    (rest : after.filter (rests side price) = level.rest) {amount : UInt64}
    (fits : level.front.filledAmount + amount ≤ level.front.amount) :
    SideOf side (levels.settle price (OrderBook.fill level.front amount) level.rest)
      (orders.modify before.length fun order => OrderBook.fill order amount) := by
  obtain ⟨isSide, atPrice, -⟩ := rests_iff.mp resting
  rw [isList, modify_middle]
  intro other
  rw [Levels.ordersAt_settle, List.filter_append]
  by_cases same : price = other
  · subst same
    have noneBefore : before.filter (rests side price) = [] :=
      List.filter_eq_nil_iff.mpr none
    rw [if_pos rfl, noneBefore, List.nil_append]
    by_cases filled : (OrderBook.fill level.front amount).filledAmount =
        (OrderBook.fill level.front amount).amount
    · have gone : ¬ rests side price (OrderBook.fill level.front amount) = true := by
        intro again
        have unfilled := (rests_iff.mp again).2.2
        rw [filled] at unfilled
        exact absurd unfilled (UInt64.lt_irrefl _)
      rw [if_pos filled, List.filter_cons_of_neg gone, rest]
    · have stays : rests side price (OrderBook.fill level.front amount) = true :=
        rests_iff.mpr ⟨isSide, atPrice, UInt64.lt_of_le_of_ne fits filled⟩
      rw [if_neg filled, List.filter_cons_of_pos stays, rest]
  · have elsewhere : ∀ order : Order, order.price = price → ¬ rests side other order = true :=
      fun order isPrice again => same (isPrice.symm.trans (rests_iff.mp again).2.1)
    have sameOthers := sideOf other
    rw [isList, List.filter_append, List.filter_cons_of_neg (elsewhere _ atPrice)] at sameOthers
    rw [if_neg same, sameOthers,
      List.filter_cons_of_neg (elsewhere (OrderBook.fill level.front amount) atPrice)]

/-- An order of the other side changes nothing. -/
theorem fill_other (sideOf : SideOf side levels orders) {number : Nat} (order : Order)
    (isOrder : orders[number]? = some order) (other : order.orderType ≠ side) (amount : UInt64) :
    SideOf side levels (orders.modify number fun order => OrderBook.fill order amount) := by
  obtain ⟨inside, there⟩ := List.getElem?_eq_some_iff.mp isOrder
  have isList : orders = orders.take number ++ order :: orders.drop (number + 1) := by
    rw [← there, List.getElem_cons_drop, List.take_append_drop]
  have changed := modify_middle (orders.take number) order (orders.drop (number + 1))
    fun order => OrderBook.fill order amount
  rw [List.length_take_of_le (Nat.le_of_lt inside), ← isList] at changed
  rw [changed]
  intro price
  have listed := sideOf price
  have elsewhere : ∀ filled : Order, filled.orderType = order.orderType →
      ¬ rests side price filled = true := fun filled isType resting =>
    other (isType.symm.trans (rests_iff.mp resting).1)
  rw [isList, List.filter_append, List.filter_cons_of_neg (elsewhere order rfl)] at listed
  rw [List.filter_append,
    List.filter_cons_of_neg (elsewhere (OrderBook.fill order amount) rfl), listed]

/-- An order that rests has a level. -/
theorem has_level (sideOf : SideOf side levels orders) {number : Nat} {order : Order}
    (isOrder : orders[number]? = some order) {price : UInt64}
    (resting : rests side price order = true) : ∃ level, levels[price]? = some level := by
  have member : order ∈ levels.ordersAt price := by
    rw [sideOf price]
    exact List.mem_filter.mpr ⟨List.mem_of_getElem? isOrder, resting⟩
  rw [Levels.ordersAt] at member
  cases found : levels[price]? with
  | none => simp [found] at member
  | some level => exact ⟨level, rfl⟩

end SideOf

/-! ## One turn -/

namespace OrderBook

/-- Every bid price is below every ask price. -/
def Uncrossed (book : OrderBook) : Prop :=
  ∀ (bid : UInt64) bids (ask : UInt64) asks, book.buyOrders[bid]? = some bids →
    book.sellOrders[ask]? = some asks → bid < ask

variable {book : OrderBook}

theorem matchStep_none {now : UInt64} (ends : book.matchStep now = none) : book.Uncrossed := by
  intro bid bids ask asks isBid isAsk
  unfold matchStep at ends
  cases isLast : book.buyOrders.toList.getLast? with
  | none =>
      rw [getLast?_toList_eq_none_iff.mp isLast bid] at isBid
      cases isBid
  | some best =>
      cases isFirst : book.sellOrders.toList.head? with
      | none =>
          rw [head?_toList_eq_none_iff.mp isFirst ask] at isAsk
          cases isAsk
      | some least =>
          have highest := Std.isLE_compare.mp ((found_of_getLast isLast).2 bid bids isBid)
          have lowest := Std.isLE_compare.mp ((found_of_head isFirst).2 ask asks isAsk)
          simp only [isLast, isFirst] at ends
          split at ends
          · rename_i apart
            exact UInt64.lt_of_le_of_lt highest (UInt64.lt_of_lt_of_le apart lowest)
          · cases ends

/-- What one turn of the loop found and did. -/
structure Turn (book : OrderBook) (now : UInt64) (trade : Trade) (next : OrderBook)
    (bids asks : Level) (bid ask : UInt64) : Prop where
  isBid : book.buyOrders[bid]? = some bids
  isAsk : book.sellOrders[ask]? = some asks
  highest : ∀ other found, book.buyOrders[other]? = some found → other ≤ bid
  lowest : ∀ other found, book.sellOrders[other]? = some found → ask ≤ other
  overlap : ask ≤ bid
  isTrade : trade = book.tradeBetween bids.front asks.front now
  isNext : next =
    { book with
      buyOrders := book.buyOrders.settle bid (fill bids.front trade.amount) bids.rest
      sellOrders := book.sellOrders.settle ask (fill asks.front trade.amount) asks.rest }

theorem matchStep_some {now : UInt64} {trade : Trade} {next : OrderBook}
    (turn : book.matchStep now = some (trade, next)) :
    ∃ bids asks bid ask, book.Turn now trade next bids asks bid ask := by
  unfold matchStep at turn
  cases isLast : book.buyOrders.toList.getLast? with
  | none => simp [isLast] at turn
  | some best =>
      cases isFirst : book.sellOrders.toList.head? with
      | none => simp [isFirst] at turn
      | some least =>
          simp only [isLast, isFirst] at turn
          split at turn
          · cases turn
          · rename_i overlap
            cases turn
            exact ⟨best.2, least.2, best.1, least.1,
              { isBid := (found_of_getLast isLast).1
                isAsk := (found_of_head isFirst).1
                highest := fun other found there =>
                  Std.isLE_compare.mp ((found_of_getLast isLast).2 other found there)
                lowest := fun other found there =>
                  Std.isLE_compare.mp ((found_of_head isFirst).2 other found there)
                overlap := UInt64.not_lt.mp overlap
                isTrade := rfl
                isNext := rfl }⟩

/-- Filling up an order by what it lacks fills it, whatever it holds. -/
theorem fill_unfilled (order : Order) :
    (fill order order.unfilled).filledAmount = (fill order order.unfilled).amount := by
  simp only [fill, Order.unfilled]
  rw [UInt64.add_comm, UInt64.sub_add_cancel]

/-- Each turn fills one of the two orders. -/
theorem fill_bid_or_ask (buy sell : Order) {amount : UInt64}
    (smaller : amount = min buy.unfilled sell.unfilled) :
    (fill buy amount).filledAmount = (fill buy amount).amount ∨
      (fill sell amount).filledAmount = (fill sell amount).amount := by
  rcases Std.min_eq_or (a := buy.unfilled) (b := sell.unfilled) with isBid | isAsk
  · left
    rw [smaller, isBid]
    exact fill_unfilled buy
  · right
    rw [smaller, isAsk]
    exact fill_unfilled sell

/-- Each turn takes at least one order off the book. -/
theorem Turn.restingCount {now : UInt64} {trade : Trade} {next : OrderBook} {bids asks : Level}
    {bid ask : UInt64} (turn : book.Turn now trade next bids asks bid ask) :
    next.restingCount < book.restingCount := by
  have bought := Levels.total_settle turn.isBid (fill bids.front trade.amount)
  have sold := Levels.total_settle turn.isAsk (fill asks.front trade.amount)
  have smaller : trade.amount = min bids.front.unfilled asks.front.unfilled := by
    rw [turn.isTrade]
    rfl
  have fills := fill_bid_or_ask bids.front asks.front smaller
  rw [turn.isNext]
  unfold OrderBook.restingCount
  dsimp only
  rcases fills with filled | filled
  · rw [if_pos filled] at bought
    omega
  · rw [if_pos filled] at sold
    omega

/-- The loop ends within one turn more than there are orders. -/
theorem matchLoop_ends (book : OrderBook) (clock : Nat → UInt64) :
    ∃ outcome, ∀ fuel, book.restingCount < fuel → matchLoop fuel book clock = some outcome := by
  induction size : book.restingCount using Nat.strong_induction_on generalizing book clock with
  | _ size_ ih =>
      cases turn : book.matchStep (clock 0) with
      | none =>
          refine ⟨([], book), fun fuel enough => ?_⟩
          obtain ⟨fuel, rfl⟩ : ∃ before, fuel = before + 1 := ⟨fuel - 1, by omega⟩
          rw [matchLoop, turn]
      | some result =>
          obtain ⟨trade, next⟩ := result
          obtain ⟨bids, asks, bid, ask, isTurn⟩ := matchStep_some turn
          have fewer : next.restingCount < size_ := size ▸ isTurn.restingCount
          obtain ⟨later, ends⟩ := ih _ fewer next (fun turn => clock (turn + 1)) rfl
          refine ⟨(trade :: later.1, later.2), fun fuel enough => ?_⟩
          obtain ⟨fuel, rfl⟩ : ∃ before, fuel = before + 1 := ⟨fuel - 1, by omega⟩
          simp only [matchLoop, turn, ends fuel (by omega), Option.map_some]

theorem matchOrders_ends (book : OrderBook) (clock : Nat → UInt64) :
    ∃ outcome, book.matchOrders clock = some outcome := by
  obtain ⟨outcome, ends⟩ := matchLoop_ends book clock
  exact ⟨outcome, ends _ (Nat.lt_succ_self _)⟩

theorem Uncrossed.matchStep (uncrossed : book.Uncrossed) (now : UInt64) :
    book.matchStep now = none := by
  cases turn : book.matchStep now with
  | none => rfl
  | some result =>
      obtain ⟨trade, next⟩ := result
      obtain ⟨bids, asks, bid, ask, isTurn⟩ := matchStep_some turn
      exact absurd (uncrossed bid bids ask asks isTurn.isBid isTurn.isAsk)
        (UInt64.not_lt.mpr isTurn.overlap)

theorem Uncrossed.matchOrders (uncrossed : book.Uncrossed) (clock : Nat → UInt64) :
    book.matchOrders clock = some ([], book) := by
  rw [OrderBook.matchOrders, matchLoop, uncrossed.matchStep]

theorem matchLoop_uncrossed {fuel : Nat} {book last : OrderBook} {clock : Nat → UInt64}
    {trades : List Trade} (done : matchLoop fuel book clock = some (trades, last)) :
    last.Uncrossed := by
  induction fuel generalizing book clock trades with
  | zero => cases done
  | succ fuel ih =>
      rw [matchLoop] at done
      cases turn : book.matchStep (clock 0) with
      | none =>
          simp only [turn] at done
          cases done
          exact matchStep_none turn
      | some result =>
          simp only [turn] at done
          obtain ⟨later, isLater, isDone⟩ := Option.map_eq_some_iff.mp done
          cases isDone
          exact ih isLater

end OrderBook

end Parthenon.Dex
