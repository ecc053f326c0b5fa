import Parthenon.Dex.Priority

namespace Parthenon.Dex

open Library Primitives Std

/-! # Cancelled orders

A cancelled order is to be out of the market until it is placed again.  The copies
that rest in the levels decide whether it is.
-/

namespace OrderBook

/-- A level holds the order. -/
def Resting (book : OrderBook) (order : Order) : Prop :=
  ∃ price, order ∈ book.buyOrders.ordersAt price ∨ order ∈ book.sellOrders.ordersAt price

/-- Some level holds an order with the identifier. -/
def Rests (book : OrderBook) (orderId : Bytes) : Prop :=
  ∃ price order, (order ∈ book.buyOrders.ordersAt price ∨ order ∈ book.sellOrders.ordersAt price) ∧
    order.orderId = orderId

variable {book : OrderBook} {orderId : Bytes}

theorem mem_push {levels : Levels} {order other : Order} {price : UInt64}
    (member : other ∈ (levels.push order).ordersAt price) :
    other ∈ levels.ordersAt price ∨ other = order := by
  rw [Levels.ordersAt_push] at member
  rcases List.mem_append.mp member with before | new
  · exact .inl before
  · split at new
    · exact .inr (List.mem_singleton.mp new)
    · cases new

theorem mem_settle {levels : Levels} {price other : UInt64} {level : Level} {order : Order}
    (found : levels[price]? = some level) {amount : UInt64}
    (member : order ∈ (levels.settle price (fill level.front amount) level.rest).ordersAt other) :
    ∃ kept ∈ levels.ordersAt other, kept.orderId = order.orderId := by
  rw [Levels.ordersAt_settle] at member
  by_cases same : price = other
  · subst same
    rw [if_pos rfl] at member
    rw [Levels.ordersAt_of_found found]
    split at member
    · exact ⟨order, List.mem_cons_of_mem _ member, rfl⟩
    · rcases List.mem_cons.mp member with rfl | rest
      · exact ⟨level.front, List.mem_cons_self, rfl⟩
      · exact ⟨order, List.mem_cons_of_mem _ rest, rfl⟩
  · rw [if_neg same] at member
    exact ⟨order, member, rfl⟩

/-- A trade is between orders that rest. -/
theorem Turn.trade_rests {now : UInt64} {trade : Trade} {next : OrderBook} {bids asks : Level}
    {bid ask : UInt64} (turn : book.Turn now trade next bids asks bid ask) :
    book.Rests trade.buyOrderId ∧ book.Rests trade.sellOrderId := by
  have isBid : bids.front ∈ book.buyOrders.ordersAt bid := by
    rw [Levels.ordersAt_of_found turn.isBid]
    exact List.mem_cons_self
  have isAsk : asks.front ∈ book.sellOrders.ordersAt ask := by
    rw [Levels.ordersAt_of_found turn.isAsk]
    exact List.mem_cons_self
  rw [turn.isTrade]
  exact ⟨⟨bid, bids.front, .inl isBid, rfl⟩, ⟨ask, asks.front, .inr isAsk, rfl⟩⟩

theorem Turn.rests {now : UInt64} {trade : Trade} {next : OrderBook} {bids asks : Level}
    {bid ask : UInt64} (turn : book.Turn now trade next bids asks bid ask)
    (resting : next.Rests orderId) : book.Rests orderId := by
  obtain ⟨price, order, member, isId⟩ := resting
  rw [turn.isNext] at member
  rcases member with isBid | isAsk
  · obtain ⟨kept, isKept, sameId⟩ := mem_settle turn.isBid isBid
    exact ⟨price, kept, .inl isKept, sameId.trans isId⟩
  · obtain ⟨kept, isKept, sameId⟩ := mem_settle turn.isAsk isAsk
    exact ⟨price, kept, .inr isKept, sameId.trans isId⟩

theorem matchLoop_rests {fuel : Nat} {book last : OrderBook} {clock : Nat → UInt64}
    {trades : List Trade} (done : matchLoop fuel book clock = some (trades, last)) :
    (∀ trade ∈ trades, book.Rests trade.buyOrderId ∧ book.Rests trade.sellOrderId) ∧
      ∀ orderId, last.Rests orderId → book.Rests orderId := by
  induction fuel generalizing book clock trades with
  | zero => cases done
  | succ fuel ih =>
      rw [matchLoop] at done
      cases turn : book.matchStep (clock 0) with
      | none =>
          simp only [turn] at done
          cases done
          exact ⟨fun trade member => absurd member List.not_mem_nil, fun orderId resting => resting⟩
      | some result =>
          obtain ⟨trade, next⟩ := result
          obtain ⟨bids, asks, bid, ask, isTurn⟩ := matchStep_some turn
          simp only [turn] at done
          obtain ⟨later, isLater, isDone⟩ := Option.map_eq_some_iff.mp done
          cases isDone
          obtain ⟨traded, rested⟩ := ih isLater
          constructor
          · intro other member
            rcases List.mem_cons.mp member with rfl | laterMember
            · exact isTurn.trade_rests
            · have named := traded other laterMember
              exact ⟨isTurn.rests named.1, isTurn.rests named.2⟩
          · exact fun orderId resting => isTurn.rests (rested orderId resting)

theorem placeOrder_table {order : Order} (now : UInt64) (valid : book.validateOrder order = true) :
    (book.placeOrder order now).2.ordersById =
      book.ordersById.insert (identify order) (accepted order now) := by
  simp only [placeOrder, valid, Bool.not_true, Bool.false_eq_true, if_false]
  cases (accepted order now).orderType <;> rfl

/-- What rests after a placement rested before it, or is the order that was placed. -/
theorem placeOrder_resting {order other : Order} {now : UInt64}
    (resting : (book.placeOrder order now).2.Resting other) :
    book.Resting other ∨ other = accepted order now := by
  unfold placeOrder at resting
  split at resting
  · exact .inl resting
  · obtain ⟨price, member⟩ := resting
    have joined : (other ∈ book.buyOrders.ordersAt price ∨ other ∈ book.sellOrders.ordersAt price) ∨
        other = accepted order now := by
      dsimp only at member
      split at member
      · rcases member with isBid | isAsk
        · exact (mem_push isBid).imp_left .inl
        · exact .inl (.inr isAsk)
      · rcases member with isBid | isAsk
        · exact .inl (.inl isBid)
        · exact (mem_push isAsk).imp_left .inr
      · exact .inl member
      · exact .inl member
    exact joined.imp_left fun before => ⟨price, before⟩

theorem rests_iff_resting :
    book.Rests orderId ↔ ∃ order, book.Resting order ∧ order.orderId = orderId := by
  constructor
  · rintro ⟨price, order, member, isId⟩
    exact ⟨order, ⟨price, member⟩, isId⟩
  · rintro ⟨order, ⟨price, member⟩, isId⟩
    exact ⟨price, order, member, isId⟩

theorem placeOrder_rests {order : Order} {now : UInt64}
    (resting : (book.placeOrder order now).2.Rests orderId) :
    book.Rests orderId ∨ orderId = identify order := by
  obtain ⟨other, isResting, isId⟩ := rests_iff_resting.mp resting
  rcases placeOrder_resting isResting with before | rfl
  · exact .inl (rests_iff_resting.mpr ⟨other, before, isId⟩)
  · exact .inr isId.symm

theorem cancelOrder_rests {owner other : Bytes} (resting : (book.cancelOrder orderId owner).2.Rests other) :
    book.Rests other := by
  unfold cancelOrder at resting
  split at resting
  · exact resting
  · split at resting
    · exact resting
    · exact resting

/-! ## Views -/

end OrderBook

/-- The levels with the orders of an identifier taken out. -/
def Levels.without (levels : Levels) (orderId : Bytes) : Levels :=
  levels.filterMap fun _ level =>
    match level.orders.filter fun order => order.orderId != orderId with
    | [] => none
    | front :: rest => some { front, rest }

namespace OrderBook

def without (book : OrderBook) (orderId : Bytes) : OrderBook :=
  { book with
    buyOrders := book.buyOrders.without orderId
    sellOrders := book.sellOrders.without orderId }

/-- No view shows or counts an order with the identifier. -/
structure Ignores (book : OrderBook) (orderId : Bytes) : Prop where
  bestBid : ∀ order, book.getBestBid = some order → order.orderId ≠ orderId
  bestAsk : ∀ order, book.getBestAsk = some order → order.orderId ≠ orderId
  depth : ∀ levels, book.getDepth levels = (book.without orderId).getDepth levels

theorem without_of_absent {levels : Levels} {orderId : Bytes}
    (absent : ∀ price, ∀ order ∈ levels.ordersAt price, order.orderId ≠ orderId) :
    levels.without orderId = levels := by
  apply ExtTreeMap.ext_getElem?
  intro price
  rw [Levels.without, ExtTreeMap.getElem?_filterMap']
  cases found : levels[price]? with
  | none => rfl
  | some level =>
      have all : level.orders.filter (fun order => order.orderId != orderId) = level.orders := by
        apply List.filter_eq_self.mpr
        intro order member
        rw [← Levels.ordersAt_of_found found] at member
        exact bne_iff_ne.mpr (absent price order member)
      simp only [Option.bind_some, all]
      rfl

theorem ignores_of_not_rests {book : OrderBook} {orderId : Bytes} (gone : ¬ book.Rests orderId) :
    book.Ignores orderId := by
  have bids : ∀ price, ∀ order ∈ book.buyOrders.ordersAt price, order.orderId ≠ orderId :=
    fun price order member isId => gone ⟨price, order, .inl member, isId⟩
  have asks : ∀ price, ∀ order ∈ book.sellOrders.ordersAt price, order.orderId ≠ orderId :=
    fun price order member isId => gone ⟨price, order, .inr member, isId⟩
  refine ⟨fun order best => ?_, fun order best => ?_, fun levels => ?_⟩
  · obtain ⟨entry, isLast, rfl⟩ := Option.map_eq_some_iff.mp best
    apply bids entry.1
    rw [Levels.ordersAt_of_found (found_of_getLast isLast).1]
    exact List.mem_cons_self
  · obtain ⟨entry, isFirst, rfl⟩ := Option.map_eq_some_iff.mp best
    apply asks entry.1
    rw [Levels.ordersAt_of_found (found_of_head isFirst).1]
    exact List.mem_cons_self
  · rw [without, without_of_absent bids, without_of_absent asks]

end OrderBook

/-! ## Runs -/

inductive DeskCall
  | book (call : BookCall)
  | cancel (orderId owner : Bytes)

inductive DeskEntry
  | placed (orderId : Bytes)
  | cancelled (orderId : Bytes)
  | traded (trade : Trade)
deriving DecidableEq, Repr

/-- A book with what happened, the newest first. -/
structure Desk where
  book : OrderBook
  log : List DeskEntry

namespace Desk

def opened (base quote : AssetID) : Desk where
  book := .new base quote
  log := []

/-- An order that was cancelled and not placed again. -/
def Cancelled (orderId : Bytes) : List DeskEntry → Prop
  | [] => False
  | .placed other :: earlier => other ≠ orderId ∧ Cancelled orderId earlier
  | .cancelled other :: earlier => other = orderId ∨ Cancelled orderId earlier
  | .traded _ :: earlier => Cancelled orderId earlier

/-- No trade names an order that was cancelled before it. -/
def Honoured : List DeskEntry → Prop
  | [] => True
  | .traded trade :: earlier =>
      (¬ Cancelled trade.buyOrderId earlier ∧ ¬ Cancelled trade.sellOrderId earlier) ∧
        Honoured earlier
  | .placed _ :: earlier => Honoured earlier
  | .cancelled _ :: earlier => Honoured earlier

variable (desk : Desk)

def after : DeskCall → Option Desk
  | .book (.place order now) =>
      some
        { book := (desk.book.placeOrder order now).2
          log := if desk.book.validateOrder order then
              .placed (OrderBook.identify order) :: desk.log
            else desk.log }
  | .book (.matchOrders clock) =>
      (desk.book.matchOrders clock).map fun outcome =>
        { book := outcome.2
          log := outcome.1.reverse.map .traded ++ desk.log }
  | .cancel orderId owner =>
      some
        { book := (desk.book.cancelOrder orderId owner).2
          log := if (desk.book.cancelOrder orderId owner).1 then .cancelled orderId :: desk.log
            else desk.log }

/-- A cancelled order does not trade, and no view counts it. -/
structure CancelsHold : Prop where
  honoured : Honoured desk.log
  ignored : ∀ orderId, Cancelled orderId desk.log → desk.book.Ignores orderId

/-- An order is cancelled only where no level holds a copy of it. -/
def Orderly : DeskCall → Prop
  | .book _ => True
  | .cancel orderId owner =>
      (desk.book.cancelOrder orderId owner).1 = true → ¬ desk.book.Rests orderId

/-- What was cancelled is gone from the levels. -/
structure Sound : Prop where
  honoured : Honoured desk.log
  gone : ∀ orderId, Cancelled orderId desk.log → ¬ desk.book.Rests orderId

variable {desk : Desk}

theorem opened_sound (base quote : AssetID) : (opened base quote).Sound where
  honoured := trivial
  gone _ cancelled := cancelled.elim

theorem Sound.holds (sound : desk.Sound) : desk.CancelsHold where
  honoured := sound.honoured
  ignored orderId cancelled := OrderBook.ignores_of_not_rests (sound.gone orderId cancelled)

theorem cancelled_traded {trades : List Trade} {log : List DeskEntry} {orderId : Bytes} :
    Cancelled orderId (trades.map .traded ++ log) ↔ Cancelled orderId log := by
  induction trades with
  | nil => exact Iff.rfl
  | cons trade rest ih => exact ih

theorem honoured_traded {trades : List Trade} {log : List DeskEntry} (honoured : Honoured log)
    (open_ : ∀ trade ∈ trades,
      ¬ Cancelled trade.buyOrderId log ∧ ¬ Cancelled trade.sellOrderId log) :
    Honoured (trades.map .traded ++ log) := by
  induction trades with
  | nil => exact honoured
  | cons trade rest ih =>
      have here := open_ trade List.mem_cons_self
      exact ⟨⟨fun cancelled => here.1 (cancelled_traded.mp cancelled),
          fun cancelled => here.2 (cancelled_traded.mp cancelled)⟩,
        ih fun other member => open_ other (List.mem_cons_of_mem trade member)⟩

theorem honoured_before {trades : List Trade} {log : List DeskEntry}
    (honoured : Honoured (trades.map .traded ++ log)) : Honoured log := by
  induction trades with
  | nil => exact honoured
  | cons trade rest ih => exact ih honoured.2

theorem Sound.after (sound : desk.Sound) {call : DeskCall} (orderly : desk.Orderly call)
    {next : Desk} (taken : desk.after call = some next) : next.Sound := by
  cases call with
  | book call =>
      cases call with
      | place order now =>
          cases taken
          cases valid : desk.book.validateOrder order with
          | true =>
              refine ⟨sound.honoured, fun orderId cancelled resting => ?_⟩
              obtain ⟨other, cancelled⟩ := cancelled
              rcases OrderBook.placeOrder_rests resting with before | isNew
              · exact sound.gone orderId cancelled before
              · exact other isNew.symm
          | false =>
              have same : (desk.book.placeOrder order now).2 = desk.book := by
                simp [OrderBook.placeOrder, valid]
              rw [same, if_neg (by simp)]
              exact sound
      | matchOrders clock =>
          obtain ⟨outcome, done, rfl⟩ := Option.map_eq_some_iff.mp taken
          obtain ⟨traded, rested⟩ := OrderBook.matchLoop_rests done
          refine ⟨honoured_traded sound.honoured fun trade member => ?_,
            fun orderId cancelled resting => ?_⟩
          · obtain ⟨buyRests, sellRests⟩ := traded trade (List.mem_reverse.mp member)
            exact ⟨fun cancelled => sound.gone _ cancelled buyRests,
              fun cancelled => sound.gone _ cancelled sellRests⟩
          · exact sound.gone orderId (cancelled_traded.mp cancelled) (rested orderId resting)
  | cancel orderId owner =>
      cases taken
      cases made : (desk.book.cancelOrder orderId owner).1 with
      | true =>
          refine ⟨sound.honoured, fun other cancelled resting => ?_⟩
          rcases cancelled with rfl | before
          · exact orderly made (OrderBook.cancelOrder_rests resting)
          · exact sound.gone other before (OrderBook.cancelOrder_rests resting)
      | false =>
          refine ⟨sound.honoured, fun other cancelled resting => ?_⟩
          exact sound.gone other cancelled (OrderBook.cancelOrder_rests resting)

/-- In every run whose cancelled orders rest nowhere, they stay out of the market. -/
theorem orderly_run_cancelsHold (base quote : AssetID) {calls : List DeskCall}
    (run : Run (fun desk call next => desk.Orderly call ∧ desk.after call = some next)
      (opened base quote) calls desk) : desk.CancelsHold := by
  have sound : desk.Sound :=
    run.invariant (opened_sound base quote) fun desk call next sound step =>
      sound.after step.1 step.2
  exact sound.holds

/-! ## A cancelled order that trades -/

theorem after_exists (desk : Desk) (call : DeskCall) : ∃ next, desk.after call = some next := by
  cases call with
  | cancel orderId owner => exact ⟨_, rfl⟩
  | book call =>
      cases call with
      | place order now => exact ⟨_, rfl⟩
      | matchOrders clock =>
          obtain ⟨outcome, done⟩ := desk.book.matchOrders_ends clock
          rw [Desk.after, done]
          exact ⟨_, rfl⟩

theorem cancelOrder_placed {book : OrderBook} {order : Order} (now : UInt64)
    (valid : book.validateOrder order = true) :
    ((book.placeOrder order now).2.cancelOrder (OrderBook.identify order)
      order.traderPubkey).1 = true := by
  have trader : (OrderBook.accepted order now).traderPubkey = order.traderPubkey := rfl
  unfold OrderBook.cancelOrder
  rw [OrderBook.placeOrder_table now valid, ExtTreeMap.getElem?_insert_self]
  simp [trader]

def bid : Order := Market.orderOf [2] .limitBuy 90 5

def ask : Order := Market.orderOf [3] .limitSell 80 5

def marketBid : Order := Market.orderOf [1] .marketBuy 100 5

/-- A market order rests nowhere and can be cancelled. -/
def marketCalls : List DeskCall :=
  [.book (.place marketBid 0), .cancel (OrderBook.identify marketBid) [1], .book (.place ask 0),
    .book (.matchOrders fun _ => 0)]

theorem orderly_run_cancelsHold_marketCalls :
    ∃ desk, marketCalls.foldlM Desk.after (opened .talanton .drachma) = some desk ∧
      desk.CancelsHold := by
  have orderly : EachInTurn Desk.after (fun desk call => desk.Orderly call)
      (opened .talanton .drachma) marketCalls := by
    refine ⟨trivial, fun placed taken => ⟨fun _ resting => ?_, fun _ _ =>
      ⟨trivial, fun _ _ => ⟨trivial, fun _ _ => trivial⟩⟩⟩⟩
    cases taken
    obtain ⟨price, order, member, -⟩ := resting
    have noBids : (∅ : Levels).ordersAt price = [] := by
      rw [Levels.ordersAt, ExtTreeMap.getElem?_empty]
      rfl
    have levels : ((opened .talanton .drachma).book.placeOrder marketBid 0).2.buyOrders = ∅ ∧
        ((opened .talanton .drachma).book.placeOrder marketBid 0).2.sellOrders = ∅ := ⟨rfl, rfl⟩
    rw [levels.1, levels.2, noBids] at member
    simp at member
  obtain ⟨desk, done⟩ := foldlM_exists after_exists (opened .talanton .drachma) marketCalls
  exact ⟨desk, done, orderly_run_cancelsHold .talanton .drachma (orderly.extend .start done)⟩

theorem found_in_single {order : Order} {price : UInt64} {level : Level}
    (found : ((∅ : Levels).push order)[price]? = some level) : level.front = order := by
  have there := Levels.ordersAt_of_found found
  rw [Levels.ordersAt_push, Levels.ordersAt, ExtTreeMap.getElem?_empty] at there
  by_cases same : order.price = price
  · rw [if_pos same] at there
    exact (List.cons.inj there).1.symm
  · rw [if_neg same] at there
    cases there

theorem single_found (order : Order) :
    ((∅ : Levels).push order)[order.price]? = some { front := order, rest := [] } := by
  apply Levels.found_of_ordersAt
  rw [Levels.ordersAt_push, Levels.ordersAt, ExtTreeMap.getElem?_empty, if_pos rfl]
  rfl

theorem lone_orders_trade {book : OrderBook} {buy sell : Order} {clock : Nat → UInt64}
    {outcome : List Trade × OrderBook} (bids : book.buyOrders = (∅ : Levels).push buy)
    (asks : book.sellOrders = (∅ : Levels).push sell) (crossed : ¬ buy.price < sell.price)
    (done : book.matchOrders clock = some outcome) :
    ∃ trade later, outcome.1 = trade :: later ∧ trade.sellOrderId = sell.orderId := by
  rw [OrderBook.matchOrders, OrderBook.matchLoop] at done
  cases turn : book.matchStep (clock 0) with
  | none =>
      have isBid := single_found buy
      have isAsk := single_found sell
      rw [← bids] at isBid
      rw [← asks] at isAsk
      exact absurd (OrderBook.matchStep_none turn _ _ _ _ isBid isAsk) crossed
  | some result =>
      obtain ⟨trade, next⟩ := result
      obtain ⟨_, least, _, _, isTurn⟩ := OrderBook.matchStep_some turn
      have isAsk := isTurn.isAsk
      rw [asks] at isAsk
      have isSell : trade.sellOrderId = sell.orderId := by
        rw [isTurn.isTrade, ← found_in_single isAsk]
        rfl
      simp only [turn] at done
      obtain ⟨later, -, rfl⟩ := Option.map_eq_some_iff.mp done
      exact ⟨trade, later.1, rfl, isSell⟩

/-- Two orders that cross, one of them cancelled. -/
def placedBoth : OrderBook :=
  (((OrderBook.new .talanton .drachma).placeOrder bid 0).2.placeOrder ask 0).2

def cancelledAsk : OrderBook := (placedBoth.cancelOrder (OrderBook.identify ask) [3]).2

def cancelledLog : List DeskEntry :=
  [.cancelled (OrderBook.identify ask), .placed (OrderBook.identify ask),
    .placed (OrderBook.identify bid)]

def cancelCalls : List DeskCall :=
  [.book (.place bid 0), .book (.place ask 0), .cancel (OrderBook.identify ask) [3]]

theorem cancelCalls_reach : cancelCalls.foldlM Desk.after (opened .talanton .drachma) =
    some { book := cancelledAsk, log := cancelledLog } := by
  have cancelled : (placedBoth.cancelOrder (OrderBook.identify ask) [3]).1 = true :=
    cancelOrder_placed 0 rfl
  have placed : [DeskCall.book (.place bid 0), .book (.place ask 0)].foldlM Desk.after
      (opened .talanton .drachma) =
        some
          { book := placedBoth
            log := [.placed (OrderBook.identify ask), .placed (OrderBook.identify bid)] } := rfl
  change ([DeskCall.book (.place bid 0), .book (.place ask 0)] ++
    [DeskCall.cancel (OrderBook.identify ask) [3]]).foldlM Desk.after (opened .talanton .drachma) = _
  rw [List.foldlM_append, placed]
  simp only [Option.bind_eq_bind, Option.bind_some, List.foldlM_cons, List.foldlM_nil, Desk.after,
    cancelled, if_true]
  rfl

theorem cancelledAsk_levels :
    cancelledAsk.buyOrders = (∅ : Levels).push (OrderBook.accepted bid 0) ∧
      cancelledAsk.sellOrders = (∅ : Levels).push (OrderBook.accepted ask 0) := by
  unfold cancelledAsk OrderBook.cancelOrder
  split
  · exact ⟨rfl, rfl⟩
  · split
    · exact ⟨rfl, rfl⟩
    · exact ⟨rfl, rfl⟩

theorem run_not_cancelsHold : ¬ ∀ (base quote : AssetID) (calls : List DeskCall) (desk : Desk),
    calls.foldlM Desk.after (opened base quote) = some desk → desk.CancelsHold := by
  intro law
  obtain ⟨outcome, matched⟩ := cancelledAsk.matchOrders_ends fun _ => 0
  have done : (cancelCalls ++ [DeskCall.book (.matchOrders fun _ => 0)]).foldlM Desk.after
      (opened .talanton .drachma) =
        some
          { book := outcome.2
            log := outcome.1.reverse.map DeskEntry.traded ++ cancelledLog } := by
    rw [List.foldlM_append, cancelCalls_reach]
    simp only [Option.bind_eq_bind, Option.bind_some, List.foldlM_cons, List.foldlM_nil, Desk.after,
      matched, Option.map_some]
    rfl
  have honoured := (law _ _ _ _ done).honoured
  obtain ⟨trade, later, isOutcome, isAsk⟩ := lone_orders_trade cancelledAsk_levels.1
    cancelledAsk_levels.2 (by decide) matched
  dsimp only at honoured
  rw [isOutcome, List.reverse_cons, List.map_append, List.append_assoc] at honoured
  have before : Honoured (DeskEntry.traded trade :: cancelledLog) := honoured_before honoured
  have here := before.1.2
  rw [isAsk] at here
  exact here (.inl rfl)

end Desk

end Parthenon.Dex
