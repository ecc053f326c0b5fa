import Parthenon.Dex.Cancellation

namespace Parthenon.Dex

open Library Primitives Std

/-! # Order lookup

The table by identifier and the levels hold copies of their own.  A book is followed
with the orders that it accepted and the orders that its trades filled up.
-/

namespace OrderBook

variable {book : OrderBook}

/-- The identifier covers neither the side nor the assets. -/
theorem identify_orderType (order : Order) (orderType : OrderType) :
    identify { order with orderType } = identify order := rfl

/-- What the two orders of a trade are after it, where it fills them up. -/
def filledBy (book : OrderBook) (trade : Trade) : List Order :=
  ((book.getBestBid.toList ++ book.getBestAsk.toList).map fun order =>
    fill order trade.amount).filter fun order => order.filledAmount = order.amount

def filledLoop : Nat → OrderBook → (Nat → UInt64) → List Order
  | 0, _, _ => []
  | fuel + 1, book, clock =>
      match book.matchStep (clock 0) with
      | none => []
      | some (trade, next) =>
          book.filledBy trade ++ filledLoop fuel next fun turn => clock (turn + 1)

/-- The orders that the trades of a matching fill up. -/
def filledOrders (book : OrderBook) (clock : Nat → UInt64) : List Order :=
  filledLoop (book.restingCount + 1) book clock

theorem matchStep_fronts {now : UInt64} {trade : Trade} {next : OrderBook}
    (turn : book.matchStep now = some (trade, next)) :
    ∃ buy sell, book.getBestBid = some buy ∧ book.getBestAsk = some sell ∧
      trade.amount = min buy.unfilled sell.unfilled := by
  unfold matchStep at turn
  cases isLast : book.buyOrders.toList.getLast? with
  | none => simp [isLast] at turn
  | some best =>
      cases isFirst : book.sellOrders.toList.head? with
      | none => simp [isFirst] at turn
      | some least =>
          simp only [isLast, isFirst] at turn
          split at turn
          · cases turn
          · cases turn
            exact ⟨best.2.front, least.2.front, by simp [getBestBid, isLast],
              by simp [getBestAsk, isFirst], rfl⟩

theorem filledBy_ne_nil {now : UInt64} {trade : Trade} {next : OrderBook}
    (turn : book.matchStep now = some (trade, next)) : book.filledBy trade ≠ [] := by
  obtain ⟨buy, sell, isBid, isAsk, smaller⟩ := matchStep_fronts turn
  rcases fill_bid_or_ask buy sell smaller with filled | filled
  · have member : fill buy trade.amount ∈ book.filledBy trade := by
      simp [filledBy, isBid, isAsk, List.mem_filter, filled]
    exact List.ne_nil_of_mem member
  · have member : fill sell trade.amount ∈ book.filledBy trade := by
      simp [filledBy, isBid, isAsk, List.mem_filter, filled]
    exact List.ne_nil_of_mem member

/-- Nothing is filled up exactly where nothing crosses. -/
theorem filledOrders_eq_nil {clock : Nat → UInt64} :
    book.filledOrders clock = [] ↔ book.Uncrossed := by
  rw [filledOrders, filledLoop]
  constructor
  · intro none
    cases turn : book.matchStep (clock 0) with
    | none => exact matchStep_none turn
    | some result =>
        simp only [turn] at none
        exact absurd (List.append_eq_nil_iff.mp none).1 (filledBy_ne_nil turn)
  · intro uncrossed
    rw [uncrossed.matchStep]

theorem matchLoop_table {fuel : Nat} {book last : OrderBook} {clock : Nat → UInt64}
    {trades : List Trade} (done : matchLoop fuel book clock = some (trades, last)) :
    last.ordersById = book.ordersById := by
  induction fuel generalizing book clock trades with
  | zero => cases done
  | succ fuel ih =>
      rw [matchLoop] at done
      cases turn : book.matchStep (clock 0) with
      | none =>
          simp only [turn] at done
          cases done
          rfl
      | some result =>
          obtain ⟨trade, next⟩ := result
          obtain ⟨_, _, _, _, isTurn⟩ := matchStep_some turn
          simp only [turn] at done
          obtain ⟨later, isLater, isDone⟩ := Option.map_eq_some_iff.mp done
          cases isDone
          rw [ih isLater, isTurn.isNext]

theorem getOrder_placed {order : Order} (now : UInt64) (valid : book.validateOrder order = true)
    (orderId : Bytes) :
    (book.placeOrder order now).2.getOrder orderId =
      if identify order = orderId then some (accepted order now) else book.getOrder orderId := by
  rw [getOrder, placeOrder_table now valid, getElem?_insert_eq]
  rfl

theorem placeOrder_refused {order : Order} (now : UInt64)
    (refused : book.validateOrder order = false) : (book.placeOrder order now).2 = book := by
  simp [placeOrder, refused]

theorem cancelOrder_listed {orderId owner : Bytes} {order : Order}
    (listed : book.getOrder orderId = some order) (isOwner : order.traderPubkey = owner) :
    (book.cancelOrder orderId owner).2 =
      { book with ordersById := book.ordersById.erase orderId } := by
  rw [getOrder] at listed
  simp [cancelOrder, listed, isOwner]

theorem getOrder_cancelled {orderId owner : Bytes} {order : Order}
    (listed : book.getOrder orderId = some order) (isOwner : order.traderPubkey = owner)
    (other : Bytes) :
    (book.cancelOrder orderId owner).2.getOrder other =
      if orderId = other then none else book.getOrder other := by
  rw [cancelOrder_listed listed isOwner, getOrder, getElem?_erase_eq]
  rfl

/-- A cancellation takes the order of its owner out of the table, or does nothing. -/
theorem cancelOrder_cases (book : OrderBook) (orderId owner : Bytes) :
    (∃ order, book.getOrder orderId = some order ∧ order.traderPubkey = owner) ∨
      (∀ order, book.getOrder orderId = some order → order.traderPubkey ≠ owner) ∧
        (book.cancelOrder orderId owner).2 = book := by
  cases listed : book.getOrder orderId with
  | none =>
      right
      rw [getOrder] at listed
      refine ⟨fun _ found => ?_, by simp [cancelOrder, listed]⟩
      cases found
  | some order =>
      by_cases isOwner : order.traderPubkey = owner
      · exact .inl ⟨order, rfl, isOwner⟩
      · right
        rw [getOrder] at listed
        refine ⟨fun _ found => ?_, by simp [cancelOrder, listed, isOwner]⟩
        cases found
        exact isOwner

theorem cancelOrder_resting {orderId owner : Bytes} {order : Order} :
    (book.cancelOrder orderId owner).2.Resting order ↔ book.Resting order := by
  unfold cancelOrder
  split
  · rfl
  · split <;> rfl

theorem accepted_resting {order : Order} (now : UInt64) (valid : book.validateOrder order = true)
    (isLimit : order.IsLimit) :
    (book.placeOrder order now).2.Resting (accepted order now) := by
  refine ⟨order.price, ?_⟩
  have isPushed : ∀ levels : Levels,
      accepted order now ∈ (levels.push (accepted order now)).ordersAt order.price := by
    intro levels
    rw [Levels.ordersAt_push]
    simp [accepted]
  have isType : (accepted order now).orderType = order.orderType := rfl
  simp only [placeOrder, valid, Bool.not_true, Bool.false_eq_true, if_false, isType]
  rcases isLimit with isBuy | isSell
  · rw [isBuy]
    exact .inl (isPushed book.buyOrders)
  · rw [isSell]
    exact .inr (isPushed book.sellOrders)

end OrderBook

/-! ## Histories -/

/-- A book with the orders it accepted and those that were filled up, the newest first. -/
structure OrderHistory where
  book : OrderBook
  placed : List Order
  filled : List Order

namespace OrderHistory

def opened (base quote : AssetID) : OrderHistory where
  book := .new base quote
  placed := []
  filled := []

variable (history : OrderHistory)

def after : DeskCall → OrderHistory
  | .book (.place order now) =>
      { history with
        book := (history.book.placeOrder order now).2
        placed := if history.book.validateOrder order then order :: history.placed
          else history.placed }
  | .book (.matchOrders clock) =>
      { history with
        book := ((history.book.matchOrders clock).map Prod.snd).getD history.book
        filled := history.book.filledOrders clock ++ history.filled }
  | .cancel orderId owner =>
      { history with book := (history.book.cancelOrder orderId owner).2 }

/-- The lookup shows what the book holds and what was filled up. -/
structure Reflects : Prop where
  apart : (history.placed.map OrderBook.identify).Nodup
  resting : ∀ order, history.book.Resting order →
    ∃ copy, history.book.getOrder order.orderId = some copy ∧ copy.amount = order.amount ∧
      copy.filledAmount = order.filledAmount ∧ copy.status = order.status
  filled : ∀ order ∈ history.filled,
    ∃ copy, history.book.getOrder order.orderId = some copy ∧ copy.status = .filled

/-- An order comes with a hash of its own, nothing crosses when the book is matched, and a
cancelled order rests nowhere. -/
def Agreeing : DeskCall → Prop
  | .book (.place order _) =>
      history.book.validateOrder order = true →
        OrderBook.identify order ∉ history.placed.map OrderBook.identify
  | .book (.matchOrders _) => history.book.Uncrossed
  | .cancel orderId owner =>
      ∀ order, history.book.getOrder orderId = some order → order.traderPubkey = owner →
        ¬ history.book.Rests orderId

/-- What every run keeps: the table shows each order as it was when it was placed. -/
structure Kept : Prop where
  listed : ∀ orderId copy, history.book.getOrder orderId = some copy →
    copy.status = .pending ∧ orderId ∈ history.placed.map OrderBook.identify
  levels : ∀ orderId, history.book.Rests orderId →
    orderId ∈ history.placed.map OrderBook.identify

variable {history : OrderHistory}

theorem after_place_valid {order : Order} (now : UInt64)
    (valid : history.book.validateOrder order = true) :
    history.after (.book (.place order now)) =
      { history with
        book := (history.book.placeOrder order now).2
        placed := order :: history.placed } := by
  simp [after, valid]

theorem after_place_refused {order : Order} (now : UInt64)
    (refused : history.book.validateOrder order = false) :
    history.after (.book (.place order now)) = history := by
  simp [after, refused, OrderBook.placeOrder_refused now refused]

theorem after_matchOrders (history : OrderHistory) (clock : Nat → UInt64) :
    ∃ trades last, history.book.matchOrders clock = some (trades, last) ∧
      history.after (.book (.matchOrders clock)) =
        { history with
          book := last
          filled := history.book.filledOrders clock ++ history.filled } := by
  obtain ⟨outcome, done⟩ := history.book.matchOrders_ends clock
  exact ⟨outcome.1, outcome.2, done, by simp [after, done]⟩

theorem after_matchOrders_uncrossed (uncrossed : history.book.Uncrossed) (clock : Nat → UInt64) :
    history.after (.book (.matchOrders clock)) = history := by
  simp [after, uncrossed.matchOrders, OrderBook.filledOrders_eq_nil.mpr uncrossed]

/-! ## What every run keeps -/

theorem opened_levels (base quote : AssetID) (price : UInt64) :
    (OrderBook.new base quote).buyOrders.ordersAt price = [] ∧
      (OrderBook.new base quote).sellOrders.ordersAt price = [] := by
  have none : (∅ : Levels).ordersAt price = [] := by
    rw [Levels.ordersAt, ExtTreeMap.getElem?_empty]
    rfl
  exact ⟨none, none⟩

theorem opened_not_resting (base quote : AssetID) (order : Order) :
    ¬ (OrderBook.new base quote).Resting order := by
  rintro ⟨price, member⟩
  rw [(opened_levels base quote price).1, (opened_levels base quote price).2] at member
  simp at member

theorem opened_kept (base quote : AssetID) : (opened base quote).Kept where
  listed orderId copy found := by
    rw [OrderBook.getOrder, opened, OrderBook.new, ExtTreeMap.getElem?_empty] at found
    cases found
  levels orderId resting := by
    obtain ⟨_, isResting, -⟩ := OrderBook.rests_iff_resting.mp resting
    exact absurd isResting (opened_not_resting base quote _)

theorem opened_reflects (base quote : AssetID) : (opened base quote).Reflects where
  apart := List.nodup_nil
  resting _ isResting := absurd isResting (opened_not_resting base quote _)
  filled _ member := absurd member List.not_mem_nil

theorem Kept.after (kept : history.Kept) (call : DeskCall) : (history.after call).Kept := by
  cases call with
  | book call =>
      cases call with
      | place order now =>
          cases valid : history.book.validateOrder order with
          | false => rwa [after_place_refused now valid]
          | true =>
              rw [after_place_valid now valid]
              constructor
              · intro orderId copy found
                rw [OrderBook.getOrder_placed now valid] at found
                split at found
                · rename_i isNew
                  cases found
                  exact ⟨rfl, isNew ▸ List.mem_cons_self⟩
                · obtain ⟨pending, named⟩ := kept.listed orderId copy found
                  exact ⟨pending, List.mem_cons_of_mem _ named⟩
              · intro orderId resting
                rcases OrderBook.placeOrder_rests resting with before | rfl
                · exact List.mem_cons_of_mem _ (kept.levels orderId before)
                · exact List.mem_cons_self
      | matchOrders clock =>
          obtain ⟨trades, last, done, isAfter⟩ := after_matchOrders history clock
          rw [isAfter]
          constructor
          · intro orderId copy found
            rw [OrderBook.getOrder, OrderBook.matchLoop_table done] at found
            exact kept.listed orderId copy found
          · intro orderId resting
            exact kept.levels orderId ((OrderBook.matchLoop_rests done).2 orderId resting)
  | cancel orderId owner =>
      rcases history.book.cancelOrder_cases orderId owner with ⟨order, listed, isOwner⟩ | ⟨-, same⟩
      · constructor
        · intro other copy found
          rw [OrderHistory.after, OrderBook.getOrder_cancelled listed isOwner] at found
          split at found
          · cases found
          · exact kept.listed other copy found
        · intro other resting
          exact kept.levels other (OrderBook.cancelOrder_rests resting)
      · rw [OrderHistory.after, same]
        exact kept

theorem Kept.none_filled (kept : history.Kept) (reflects : history.Reflects) :
    history.filled = [] := by
  apply List.eq_nil_iff_forall_not_mem.mpr
  intro order member
  obtain ⟨copy, found, isFilled⟩ := reflects.filled order member
  have pending := (kept.listed _ _ found).1
  rw [isFilled] at pending
  cases pending

/-! ## Steps -/

theorem reflects_place {order : Order} {now : UInt64} (kept : history.Kept)
    (reflects : history.Reflects) :
    (history.after (.book (.place order now))).Reflects ↔
      history.Agreeing (.book (.place order now)) := by
  cases valid : history.book.validateOrder order with
  | false =>
      rw [after_place_refused now valid]
      exact iff_of_true reflects fun isValid => by rw [valid] at isValid; cases isValid
  | true =>
      rw [after_place_valid now valid]
      constructor
      · intro next _
        exact (List.nodup_cons.mp next.apart).1
      · intro agreeing
        have isNew := agreeing valid
        refine ⟨List.nodup_cons.mpr ⟨isNew, reflects.apart⟩, ?_, ?_⟩
        · intro other resting
          rcases OrderBook.placeOrder_resting resting with before | rfl
          · have named := kept.levels _ (OrderBook.rests_iff_resting.mpr ⟨other, before, rfl⟩)
            have apart : OrderBook.identify order ≠ other.orderId := fun same =>
              isNew (same ▸ named)
            rw [OrderBook.getOrder_placed now valid, if_neg apart]
            exact reflects.resting other before
          · rw [OrderBook.getOrder_placed now valid]
            exact ⟨_, if_pos rfl, rfl, rfl, rfl⟩
        · intro other member
          dsimp only at member
          rw [kept.none_filled reflects] at member
          cases member

theorem reflects_matchOrders {clock : Nat → UInt64} (kept : history.Kept)
    (reflects : history.Reflects) :
    (history.after (.book (.matchOrders clock))).Reflects ↔
      history.Agreeing (.book (.matchOrders clock)) := by
  constructor
  · intro next
    have none := (kept.after (.book (.matchOrders clock))).none_filled next
    exact OrderBook.filledOrders_eq_nil.mp (List.append_eq_nil_iff.mp none).1
  · intro uncrossed
    rwa [after_matchOrders_uncrossed uncrossed]

theorem reflects_cancel {orderId owner : Bytes} (kept : history.Kept)
    (reflects : history.Reflects) :
    (history.after (.cancel orderId owner)).Reflects ↔
      history.Agreeing (.cancel orderId owner) := by
  rcases history.book.cancelOrder_cases orderId owner with ⟨order, listed, isOwner⟩ | ⟨foreign, same⟩
  · have table := OrderBook.getOrder_cancelled listed isOwner
    constructor
    · intro next other _ _ resting
      obtain ⟨stays, isResting, isId⟩ := OrderBook.rests_iff_resting.mp resting
      obtain ⟨copy, found, -⟩ := next.resting stays (OrderBook.cancelOrder_resting.mpr isResting)
      rw [OrderHistory.after, table, if_pos isId.symm] at found
      cases found
    · intro agreeing
      refine ⟨reflects.apart, ?_, ?_⟩
      · intro other resting
        have before := OrderBook.cancelOrder_resting.mp resting
        have apart : orderId ≠ other.orderId := fun same =>
          agreeing order listed isOwner (OrderBook.rests_iff_resting.mpr ⟨other, before, same.symm⟩)
        rw [OrderHistory.after, table, if_neg apart]
        exact reflects.resting other before
      · intro other member
        have none := kept.none_filled reflects
        rw [OrderHistory.after, none] at member
        cases member
  · have unchanged : history.after (.cancel orderId owner) = history := by
      rw [OrderHistory.after, same]
    rw [unchanged]
    exact iff_of_true reflects fun order listed isOwner =>
      absurd isOwner (foreign order listed)

theorem reflects_after (kept : history.Kept) (reflects : history.Reflects) (call : DeskCall) :
    (history.after call).Reflects ↔ history.Agreeing call := by
  cases call with
  | book call =>
      cases call with
      | place order now => exact reflects_place kept reflects
      | matchOrders clock => exact reflects_matchOrders kept reflects
  | cancel orderId owner => exact reflects_cancel kept reflects

/-- The lookup is right all through a run exactly when each call is of the kind that keeps
it right. -/
theorem run_reflects_iff (base quote : AssetID) (calls : List DeskCall) :
    Obeys Agreeing after (opened base quote) calls ↔
      ∀ count, ((calls.take count).foldl after (opened base quote)).Reflects :=
  obeys_iff_prefixes Kept (fun _ call kept => kept.after call)
    (fun _ call kept reflects => reflects_after kept reflects call)
    (opened_kept base quote) (opened_reflects base quote) calls

/-! ## Three ways apart -/

def crossing : OrderHistory :=
  ((opened .talanton .drachma).after (.book (.place Desk.bid 0))).after (.book (.place Desk.ask 0))

theorem crossing_kept : crossing.Kept := ((opened_kept .talanton .drachma).after _).after _

theorem crossing_not_uncrossed : ¬ crossing.book.Uncrossed := by
  have bids : crossing.book.buyOrders = (∅ : Levels).push (OrderBook.accepted Desk.bid 0) := rfl
  have asks : crossing.book.sellOrders = (∅ : Levels).push (OrderBook.accepted Desk.ask 0) := rfl
  intro uncrossed
  have isBid := Desk.single_found (OrderBook.accepted Desk.bid 0)
  have isAsk := Desk.single_found (OrderBook.accepted Desk.ask 0)
  rw [← bids] at isBid
  rw [← asks] at isAsk
  exact absurd (uncrossed _ _ _ _ isBid isAsk) (by decide)

def reached (calls : List DeskCall) : OrderHistory :=
  calls.foldl after (opened .talanton .drachma)

def sameHashCalls : List DeskCall :=
  [.book (.place Desk.bid 0), .book (.place { Desk.bid with orderType := .limitSell } 0)]

def cancelCalls : List DeskCall :=
  [.book (.place Desk.ask 0), .cancel (OrderBook.identify Desk.ask) [3]]

def crossingCalls : List DeskCall :=
  [.book (.place Desk.bid 0), .book (.place Desk.ask 0), .book (.matchOrders fun _ => 0)]

/-- A bid and an ask with the same numbers share an identifier, a resting order is gone from
the table when it is cancelled, and what was filled up is pending there. -/
theorem run_not_reflects :
    ¬ ((reached sameHashCalls).placed.map OrderBook.identify).Nodup ∧
    ((reached cancelCalls).book.Resting (OrderBook.accepted Desk.ask 0) ∧
      (reached cancelCalls).book.getOrder (OrderBook.accepted Desk.ask 0).orderId = none) ∧
    (∃ order ∈ (reached crossingCalls).filled, ∀ copy,
      (reached crossingCalls).book.getOrder order.orderId = some copy → copy.status = .pending) := by
  have valid : (OrderBook.new .talanton .drachma).validateOrder Desk.ask = true := rfl
  refine ⟨?_, ⟨?_, ?_⟩, ?_⟩
  · intro apart
    apply (List.nodup_cons.mp apart).1
    rw [OrderBook.identify_orderType Desk.bid .limitSell]
    exact List.mem_cons_self
  · exact OrderBook.cancelOrder_resting.mpr (OrderBook.accepted_resting 0 valid (.inr rfl))
  · have listed := OrderBook.getOrder_placed 0 valid (OrderBook.identify Desk.ask)
    rw [if_pos rfl] at listed
    have isOwner : (OrderBook.accepted Desk.ask 0).traderPubkey = [3] := rfl
    exact (OrderBook.getOrder_cancelled listed isOwner _).trans (if_pos rfl)
  · have someFilled : (crossing.after (.book (.matchOrders fun _ => 0))).filled ≠ [] := fun none =>
      crossing_not_uncrossed (OrderBook.filledOrders_eq_nil.mp (List.append_eq_nil_iff.mp none).1)
    obtain ⟨order, member⟩ := List.exists_mem_of_ne_nil _ someFilled
    have kept := crossing_kept.after (.book (.matchOrders fun _ => 0))
    exact ⟨order, member, fun copy found => (kept.listed _ copy found).1⟩

end OrderHistory

end Parthenon.Dex
