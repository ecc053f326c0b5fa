import Parthenon.Dex.Matching
import Parthenon.Library.Runs

namespace Parthenon.Dex

open Library Primitives Std

/-! ## Tapes -/

/-- What a book made known. -/
inductive Record
  | placed (order : Order)
  | traded (trade : Trade)
deriving DecidableEq, Repr

/-- A record with the numbers of the two orders that traded, counted from the first
order placed. -/
inductive Event
  | placed (order : Order)
  | traded (buy sell : Nat) (trade : Trade)
deriving DecidableEq, Repr

def Event.record : Event → Record
  | placed order => .placed order
  | traded _ _ trade => .traded trade

def Order.Buys (order : Order) : Prop := order.orderType = .limitBuy ∨ order.orderType = .marketBuy

def Order.Sells (order : Order) : Prop :=
  order.orderType = .limitSell ∨ order.orderType = .marketSell

def Order.IsLimit (order : Order) : Prop :=
  order.orderType = .limitBuy ∨ order.orderType = .limitSell

instance : DecidablePred Order.IsLimit := fun order =>
  inferInstanceAs (Decidable (order.orderType = .limitBuy ∨ order.orderType = .limitSell))

theorem Order.IsLimit.buys {order : Order} (isLimit : order.IsLimit) (isBuy : order.Buys) :
    order.orderType = .limitBuy := by
  rcases isLimit with isType | isType
  · exact isType
  · rcases isBuy with isOther | isOther <;> simp [isType] at isOther

theorem Order.IsLimit.sells {order : Order} (isLimit : order.IsLimit) (isSell : order.Sells) :
    order.orderType = .limitSell := by
  rcases isLimit with isType | isType
  · rcases isSell with isOther | isOther <;> simp [isType] at isOther
  · exact isType

/-- What happened, the newest first. -/
abbrev Tape := List Event

namespace Tape

/-- The orders in the order they were placed. -/
def placements : Tape → List Order
  | [] => []
  | .placed order :: earlier => placements earlier ++ [order]
  | .traded _ _ _ :: earlier => placements earlier

/-- The total traded for an order. -/
def tradedOf (number : Nat) : Tape → Nat
  | [] => 0
  | .placed _ :: earlier => tradedOf number earlier
  | .traded buy sell trade :: earlier =>
      (if number = buy then trade.amount.toNat else 0) +
        (if number = sell then trade.amount.toNat else 0) + tradedOf number earlier

/-- A trade that the orders so far allow, with priority among some of them. -/
structure Allows (among : Order → Prop) (tape : Tape) (buy sell : Nat) (trade : Trade)
    (buyer seller : Order) : Prop where
  isBuyer : (placements tape)[buy]? = some buyer
  isSeller : (placements tape)[sell]? = some seller
  buys : buyer.Buys
  sells : seller.Sells
  names : trade.buyOrderId = buyer.orderId ∧ trade.sellOrderId = seller.orderId
  traders : trade.buyerPubkey = buyer.traderPubkey ∧ trade.sellerPubkey = seller.traderPubkey
  positive : 0 < trade.amount
  limits : seller.price ≤ trade.price ∧ trade.price ≤ buyer.price
  buyerWants : tradedOf buy tape + trade.amount.toNat ≤ buyer.amount.toNat
  sellerHas : tradedOf sell tape + trade.amount.toNat ≤ seller.amount.toNat
  buyerFirst : ∀ number other, (placements tape)[number]? = some other → among other →
    other.Buys → tradedOf number tape < other.amount.toNat → seller.price ≤ other.price →
      ¬ (buyer.price < other.price ∨ other.price = buyer.price ∧ number < buy)
  sellerFirst : ∀ number other, (placements tape)[number]? = some other → among other →
    other.Sells → tradedOf number tape < other.amount.toNat → other.price ≤ buyer.price →
      ¬ (other.price < seller.price ∨ other.price = seller.price ∧ number < sell)

/-- Every trade is allowed by what happened before it. -/
def Lawful (among : Order → Prop) : Tape → Prop
  | [] => True
  | .placed _ :: earlier => Lawful among earlier
  | .traded buy sell trade :: earlier =>
      (∃ buyer seller, Allows among earlier buy sell trade buyer seller) ∧ Lawful among earlier

/-- The orders as far as they are filled. -/
def standing (tape : Tape) : List Order :=
  (placements tape).mapIdx fun number order =>
    { order with filledAmount := UInt64.ofNat (tradedOf number tape) }

variable {among : Order → Prop} {tape : Tape}

theorem tradedOf_beyond (lawful : Lawful among tape) {number : Nat}
    (beyond : (placements tape).length ≤ number) : tradedOf number tape = 0 := by
  induction tape with
  | nil => rfl
  | cons event earlier ih =>
      cases event with
      | placed order =>
          rw [placements, List.length_append] at beyond
          exact ih lawful (by omega)
      | traded buy sell trade =>
          obtain ⟨⟨buyer, seller, allows⟩, lawful⟩ := lawful
          rw [placements] at beyond
          have buyInside := (List.getElem?_eq_some_iff.mp allows.isBuyer).1
          have sellInside := (List.getElem?_eq_some_iff.mp allows.isSeller).1
          rw [tradedOf, ih lawful beyond, if_neg (by omega), if_neg (by omega)]

/-- Nothing is traded for an order beyond its amount. -/
theorem tradedOf_le (lawful : Lawful among tape) {number : Nat} {order : Order}
    (placed : (placements tape)[number]? = some order) :
    tradedOf number tape ≤ order.amount.toNat := by
  induction tape with
  | nil => cases placed
  | cons event earlier ih =>
      cases event with
      | placed new =>
          rw [tradedOf]
          rw [placements] at placed
          by_cases inside : number < (placements earlier).length
          · rw [List.getElem?_append_left inside] at placed
            exact ih lawful placed
          · have lawfulBefore : Lawful among earlier := lawful
            rw [tradedOf_beyond lawfulBefore (by omega)]
            exact Nat.zero_le _
      | traded buy sell trade =>
          obtain ⟨⟨buyer, seller, allows⟩, lawful⟩ := lawful
          rw [placements] at placed
          have before := ih lawful placed
          have apart : buy ≠ sell := by
            intro same
            have isSeller := allows.isSeller
            rw [← same, allows.isBuyer] at isSeller
            cases isSeller
            rcases allows.buys with isType | isType <;>
              rcases allows.sells with isOther | isOther <;>
                simp [isType] at isOther
          rw [tradedOf]
          by_cases isBuy : number = buy
          · subst isBuy
            rw [allows.isBuyer] at placed
            cases placed
            have within := allows.buyerWants
            rw [if_pos rfl, if_neg apart]
            omega
          · by_cases isSell : number = sell
            · subst isSell
              rw [allows.isSeller] at placed
              cases placed
              have within := allows.sellerHas
              rw [if_neg isBuy, if_pos rfl]
              omega
            · rw [if_neg isBuy, if_neg isSell]
              omega

theorem getElem?_standing (tape : Tape) (number : Nat) :
    (standing tape)[number]? = (placements tape)[number]?.map fun order =>
      { order with filledAmount := UInt64.ofNat (tradedOf number tape) } := by
  rw [standing, List.getElem?_mapIdx]

theorem standing_placed (lawful : Lawful among tape) (order : Order)
    (fresh : order.filledAmount = 0) :
    standing (.placed order :: tape) = standing tape ++ [order] := by
  unfold standing
  rw [placements, List.mapIdx_concat]
  congr 1
  rw [tradedOf, tradedOf_beyond lawful (Nat.le_refl _)]
  simp [← fresh]

theorem standing_traded (tape : Tape) {buy sell : Nat} (apart : buy ≠ sell) (trade : Trade) :
    standing (.traded buy sell trade :: tape) =
      ((standing tape).modify buy fun order => OrderBook.fill order trade.amount).modify sell
        fun order => OrderBook.fill order trade.amount := by
  apply List.ext_getElem?
  intro number
  rw [getElem?_standing, List.getElem?_modify, List.getElem?_modify, getElem?_standing, placements]
  cases (placements tape)[number]? with
  | none => rfl
  | some order =>
      simp only [Option.map_some, Option.map_eq_map, tradedOf, OrderBook.fill]
      by_cases isBuy : number = buy
      · subst isBuy
        simp [apart, Ne.symm apart, UInt64.ofNat_add, UInt64.add_comm]
      · by_cases isSell : number = sell
        · subst isSell
          simp [isBuy, Ne.symm isBuy, UInt64.ofNat_add, UInt64.add_comm]
        · simp [isBuy, isSell, Ne.symm isBuy, Ne.symm isSell]

end Tape

/-! ## A book and its tape -/

/-- The levels hold the unfilled limit orders of the tape. -/
structure Follows (book : OrderBook) (tape : Tape) : Prop where
  lawful : tape.Lawful Order.IsLimit
  bids : SideOf .limitBuy book.buyOrders tape.standing
  asks : SideOf .limitSell book.sellOrders tape.standing

namespace Follows

variable {book : OrderBook} {tape : Tape}

theorem opened (base quote : AssetID) : Follows (OrderBook.new base quote) [] where
  lawful := trivial
  bids price := by
    rw [Levels.ordersAt, OrderBook.new, ExtTreeMap.getElem?_empty]
    rfl
  asks price := by
    rw [Levels.ordersAt, OrderBook.new, ExtTreeMap.getElem?_empty]
    rfl

theorem place (follows : Follows book tape) (order : Order) (now : UInt64)
    (valid : book.validateOrder order = true) :
    Follows (book.placeOrder order now).2 (.placed (OrderBook.accepted order now) :: tape) := by
  have stands := Tape.standing_placed follows.lawful (OrderBook.accepted order now) rfl
  have unfilled : (OrderBook.accepted order now).filledAmount <
      (OrderBook.accepted order now).amount := by
    have some_ : order.amount ≠ 0 := by
      intro none
      simp [OrderBook.validateOrder, none] at valid
    exact UInt64.pos_iff_ne_zero.mpr some_
  simp only [OrderBook.placeOrder, valid, Bool.not_true, Bool.false_eq_true, if_false]
  cases isType : (OrderBook.accepted order now).orderType with
  | limitBuy =>
      refine ⟨follows.lawful, ?_, ?_⟩
      · rw [stands]
        exact follows.bids.push isType unfilled
      · rw [stands]
        exact follows.asks.append_other (by simp [isType])
  | limitSell =>
      refine ⟨follows.lawful, ?_, ?_⟩
      · rw [stands]
        exact follows.bids.append_other (by simp [isType])
      · rw [stands]
        exact follows.asks.push isType unfilled
  | marketBuy =>
      refine ⟨follows.lawful, ?_, ?_⟩
      · rw [stands]
        exact follows.bids.append_other (by simp [isType])
      · rw [stands]
        exact follows.asks.append_other (by simp [isType])
  | marketSell =>
      refine ⟨follows.lawful, ?_, ?_⟩
      · rw [stands]
        exact follows.bids.append_other (by simp [isType])
      · rw [stands]
        exact follows.asks.append_other (by simp [isType])

/-- An order that stands is one that was placed, filled by what was traded for it. -/
theorem standing_order (follows : Follows book tape) {number : Nat} {stands : Order}
    (isStanding : tape.standing[number]? = some stands) :
    ∃ order, tape.placements[number]? = some order ∧
      stands = { order with filledAmount := UInt64.ofNat (tape.tradedOf number) } ∧
      stands.filledAmount.toNat = tape.tradedOf number := by
  rw [Tape.getElem?_standing] at isStanding
  obtain ⟨order, placed, rfl⟩ := Option.map_eq_some_iff.mp isStanding
  refine ⟨order, placed, rfl, ?_⟩
  have within := Tape.tradedOf_le follows.lawful placed
  exact UInt64.toNat_ofNat_of_lt' (Nat.lt_of_le_of_lt within order.amount.toNat_lt)

/-- An order of the tape that is not filled yet rests. -/
theorem resting (follows : Follows book tape) {number : Nat} {order : Order}
    (placed : tape.placements[number]? = some order)
    (unfilled : tape.tradedOf number < order.amount.toNat) :
    ∃ stands, tape.standing[number]? = some stands ∧
      rests order.orderType order.price stands = true := by
  have isStanding := Tape.getElem?_standing tape number
  rw [placed, Option.map_some] at isStanding
  refine ⟨_, isStanding, rests_iff.mpr ⟨rfl, rfl, ?_⟩⟩
  obtain ⟨_, _, _, exact_⟩ := follows.standing_order isStanding
  rw [UInt64.lt_iff_toNat_lt, exact_]
  exact unfilled

theorem trade_fits {first second : Order} (firstUnfilled : first.filledAmount < first.amount)
    (secondUnfilled : second.filledAmount < second.amount) :
    0 < min first.unfilled second.unfilled ∧
      first.filledAmount + min first.unfilled second.unfilled ≤ first.amount ∧
      second.filledAmount + min first.unfilled second.unfilled ≤ second.amount ∧
      first.filledAmount.toNat + (min first.unfilled second.unfilled).toNat ≤
        first.amount.toNat ∧
      second.filledAmount.toNat + (min first.unfilled second.unfilled).toNat ≤
        second.amount.toNat := by
  have firstLess := UInt64.lt_iff_toNat_lt.mp firstUnfilled
  have secondLess := UInt64.lt_iff_toNat_lt.mp secondUnfilled
  have firstRest : first.unfilled.toNat = first.amount.toNat - first.filledAmount.toNat :=
    UInt64.toNat_sub_of_le _ _ (UInt64.le_of_lt firstUnfilled)
  have secondRest : second.unfilled.toNat = second.amount.toNat - second.filledAmount.toNat :=
    UInt64.toNat_sub_of_le _ _ (UInt64.le_of_lt secondUnfilled)
  have least : (min first.unfilled second.unfilled).toNat =
      min first.unfilled.toNat second.unfilled.toNat := by
    change (if first.unfilled ≤ second.unfilled then first.unfilled else second.unfilled).toNat = _
    by_cases less : first.unfilled ≤ second.unfilled
    · rw [if_pos less, Nat.min_eq_left (UInt64.le_iff_toNat_le.mp less)]
    · rw [if_neg less, Nat.min_eq_right (by
        rw [UInt64.le_iff_toNat_le] at less
        omega)]
  have firstBound := first.amount.toNat_lt
  have secondBound := second.amount.toNat_lt
  refine ⟨?_, ?_, ?_, ?_, ?_⟩
  · rw [UInt64.lt_iff_toNat_lt, least]
    simp only [UInt64.toNat_zero]
    omega
  · rw [UInt64.le_iff_toNat_le, UInt64.toNat_add, least, Nat.mod_eq_of_lt (by omega)]
    omega
  · rw [UInt64.le_iff_toNat_le, UInt64.toNat_add, least, Nat.mod_eq_of_lt (by omega)]
    omega
  · omega
  · omega

/-- The order in front of a level: it is the first placed of those that wait at its
price, and the side stays the side of the tape when it is filled. -/
structure Heads (tape : Tape) (side : OrderType) (levels : Levels) (price : UInt64) (level : Level)
    (number : Nat) (order : Order) : Prop where
  placed : tape.placements[number]? = some order
  isFront : tape.standing[number]? = some level.front
  stands : level.front = { order with filledAmount := UInt64.ofNat (tape.tradedOf number) }
  traded : level.front.filledAmount.toNat = tape.tradedOf number
  ofSide : order.orderType = side
  atPrice : order.price = price
  unfilled : level.front.filledAmount < level.front.amount
  first : ∀ otherNumber other, tape.placements[otherNumber]? = some other → other.orderType = side →
    tape.tradedOf otherNumber < other.amount.toNat → other.price = price → number ≤ otherNumber
  settles : ∀ amount, level.front.filledAmount + amount ≤ level.front.amount →
    SideOf side (levels.settle price (OrderBook.fill level.front amount) level.rest)
      (tape.standing.modify number fun order => OrderBook.fill order amount)

theorem heads (follows : Follows book tape) {side : OrderType} {levels : Levels}
    (sideOf : SideOf side levels tape.standing) {price : UInt64} {level : Level}
    (found : levels[price]? = some level) :
    ∃ number order, Heads tape side levels price level number order := by
  obtain ⟨before, after, isList, resting, none, rest⟩ := sideOf.front found
  obtain ⟨ofSide, atPrice, unfilled⟩ := rests_iff.mp resting
  have isFront : tape.standing[before.length]? = some level.front := by
    rw [isList]
    simp
  obtain ⟨order, placed, stands, traded⟩ := follows.standing_order isFront
  rw [stands] at ofSide atPrice
  refine ⟨before.length, order, placed, isFront, stands, traded, ofSide, atPrice, unfilled, ?_,
    fun amount fits => sideOf.settle isList resting none rest fits⟩
  intro otherNumber other otherPlaced otherSide otherUnfilled samePrice
  obtain ⟨otherStands, isStanding, otherRests⟩ := follows.resting otherPlaced otherUnfilled
  by_contra ahead
  rw [isList, List.getElem?_append_left (Nat.not_le.mp ahead)] at isStanding
  rw [otherSide, samePrice] at otherRests
  exact none otherStands (List.mem_of_getElem? isStanding) otherRests

/-- An order of a side that is not filled yet has a level. -/
theorem waits (follows : Follows book tape) {side : OrderType} {levels : Levels}
    (sideOf : SideOf side levels tape.standing) {number : Nat} {order : Order}
    (placed : tape.placements[number]? = some order) (ofSide : order.orderType = side)
    (unfilled : tape.tradedOf number < order.amount.toNat) :
    ∃ level, levels[order.price]? = some level := by
  obtain ⟨stands, isStanding, resting⟩ := follows.resting placed unfilled
  rw [ofSide] at resting
  exact sideOf.has_level isStanding resting

/-- One turn of the loop is a trade that the tape allows. -/
theorem turn (follows : Follows book tape) {now : UInt64} {trade : Trade} {next : OrderBook}
    {bids asks : Level} {bid ask : UInt64} (turn : book.Turn now trade next bids asks bid ask) :
    ∃ buy sell, Follows next (.traded buy sell trade :: tape) := by
  obtain ⟨buy, buyer, bidHeads⟩ := follows.heads follows.bids turn.isBid
  obtain ⟨sell, seller, askHeads⟩ := follows.heads follows.asks turn.isAsk
  have isAmount : trade.amount = min bids.front.unfilled asks.front.unfilled := by
    rw [turn.isTrade]
    rfl
  obtain ⟨positive, bidFits, askFits, buyerWants, sellerHas⟩ :=
    trade_fits bidHeads.unfilled askHeads.unfilled
  rw [← isAmount] at positive bidFits askFits buyerWants sellerHas
  have bidType : bids.front.orderType = .limitBuy := by rw [bidHeads.stands, bidHeads.ofSide]
  have askType : asks.front.orderType = .limitSell := by rw [askHeads.stands, askHeads.ofSide]
  have apart : buy ≠ sell := by
    rintro rfl
    have sameFront := Option.some.inj (bidHeads.isFront.symm.trans askHeads.isFront)
    rw [sameFront, askType] at bidType
    cases bidType
  have allows : tape.Allows Order.IsLimit buy sell trade buyer seller :=
    { isBuyer := bidHeads.placed
      isSeller := askHeads.placed
      buys := .inl bidHeads.ofSide
      sells := .inl askHeads.ofSide
      names := by
        rw [turn.isTrade, OrderBook.tradeBetween, bidHeads.stands, askHeads.stands]
        exact ⟨rfl, rfl⟩
      traders := by
        rw [turn.isTrade, OrderBook.tradeBetween, bidHeads.stands, askHeads.stands]
        exact ⟨rfl, rfl⟩
      positive
      limits := by
        have isPrice : trade.price = seller.price := by
          rw [turn.isTrade, OrderBook.tradeBetween, askHeads.stands]
        rw [isPrice, askHeads.atPrice, bidHeads.atPrice]
        exact ⟨UInt64.le_refl ask, turn.overlap⟩
      buyerWants := by
        rw [← bidHeads.traded]
        have sameAmount : bids.front.amount = buyer.amount := by rw [bidHeads.stands]
        rw [← sameAmount]
        exact buyerWants
      sellerHas := by
        rw [← askHeads.traded]
        have sameAmount : asks.front.amount = seller.amount := by rw [askHeads.stands]
        rw [← sameAmount]
        exact sellerHas
      buyerFirst := by
        intro number other placed isLimit isBuy unfilled _ before
        have ofSide := isLimit.buys isBuy
        rw [bidHeads.atPrice] at before
        rcases before with better | ⟨samePrice, earlier⟩
        · obtain ⟨level, found⟩ := follows.waits follows.bids placed ofSide unfilled
          exact UInt64.not_le.mpr better (turn.highest other.price level found)
        · exact Nat.not_le.mpr earlier (bidHeads.first number other placed ofSide unfilled samePrice)
      sellerFirst := by
        intro number other placed isLimit isSell unfilled _ before
        have ofSide := isLimit.sells isSell
        rw [askHeads.atPrice] at before
        rcases before with better | ⟨samePrice, earlier⟩
        · obtain ⟨level, found⟩ := follows.waits follows.asks placed ofSide unfilled
          exact UInt64.not_le.mpr better (turn.lowest other.price level found)
        · exact Nat.not_le.mpr earlier
            (askHeads.first number other placed ofSide unfilled samePrice) }
  refine ⟨buy, sell, ⟨⟨buyer, seller, allows⟩, follows.lawful⟩, ?_, ?_⟩
  · rw [Tape.standing_traded tape apart, turn.isNext]
    refine (bidHeads.settles trade.amount bidFits).fill_other asks.front ?_ ?_ trade.amount
    · rw [List.getElem?_modify_ne _ _ apart]
      exact askHeads.isFront
    · rw [askType]
      decide
  · rw [Tape.standing_traded tape apart, turn.isNext, List.modify_modify_ne _ _ _ apart]
    refine (askHeads.settles trade.amount askFits).fill_other bids.front ?_ ?_ trade.amount
    · rw [List.getElem?_modify_ne _ _ apart.symm]
      exact bidHeads.isFront
    · rw [bidType]
      decide

end Follows

/-! ## Runs -/

/-- A call of the book.  The loop reads the clock in each of its turns. -/
inductive BookCall
  | place (order : Order) (now : UInt64)
  | matchOrders (clock : Nat → UInt64)

/-- A book with what it made known, the newest first. -/
structure Market where
  book : OrderBook
  record : List Record

namespace Market

def opened (base quote : AssetID) : Market where
  book := .new base quote
  record := []

variable (market : Market)

def after : BookCall → Option Market
  | .place order now =>
      some
        { book := (market.book.placeOrder order now).2
          record := if market.book.validateOrder order then
              .placed (OrderBook.accepted order now) :: market.record
            else market.record }
  | .matchOrders clock =>
      (market.book.matchOrders clock).map fun outcome =>
        { book := outcome.2
          record := outcome.1.reverse.map .traded ++ market.record }

/-- What matching promises of a run: its trades are those of orders that were placed,
each allowed by what happened before with priority among some orders, and the loop
ends with nothing left to trade. -/
structure MatchesCorrectly (among : Order → Prop) : Prop where
  told : ∃ tape : Tape, tape.map Event.record = market.record ∧ tape.Lawful among ∧
    ∀ number order, tape.placements[number]? = some order →
      tape.tradedOf number ≤ order.amount.toNat
  ends : ∀ clock, ∃ outcome, ∀ fuel, market.book.restingCount < fuel →
    OrderBook.matchLoop fuel market.book clock = some outcome
  uncrossed : ∀ clock outcome, market.book.matchOrders clock = some outcome → outcome.2.Uncrossed

/-- No market order was accepted. -/
def OnlyLimits : Prop := ∀ order, Record.placed order ∈ market.record → order.IsLimit

variable {market : Market}

/-- A tape of the market that its book follows. -/
structure Kept (market : Market) (tape : Tape) : Prop where
  record : tape.map Event.record = market.record
  follows : Follows market.book tape

theorem matchLoop_follows {fuel : Nat} {book last : OrderBook} {clock : Nat → UInt64}
    {trades : List Trade} {tape : Tape} (follows : Follows book tape)
    (done : OrderBook.matchLoop fuel book clock = some (trades, last)) :
    ∃ later : Tape, later.map Event.record = trades.reverse.map Record.traded ∧
      Follows last (later ++ tape) := by
  induction fuel generalizing book clock trades tape with
  | zero => cases done
  | succ fuel ih =>
      rw [OrderBook.matchLoop] at done
      cases turn : book.matchStep (clock 0) with
      | none =>
          simp only [turn] at done
          cases done
          exact ⟨[], rfl, follows⟩
      | some result =>
          obtain ⟨trade, next⟩ := result
          obtain ⟨bids, asks, bid, ask, isTurn⟩ := OrderBook.matchStep_some turn
          obtain ⟨buy, sell, followsNext⟩ := follows.turn isTurn
          simp only [turn] at done
          obtain ⟨rest, isRest, isDone⟩ := Option.map_eq_some_iff.mp done
          cases isDone
          obtain ⟨later, told, followsLast⟩ := ih followsNext isRest
          refine ⟨later ++ [.traded buy sell trade], ?_, ?_⟩
          · rw [List.map_append, told, List.reverse_cons, List.map_append]
            rfl
          · rw [List.append_assoc]
            exact followsLast

theorem kept_opened (base quote : AssetID) : (opened base quote).Kept [] where
  record := rfl
  follows := .opened base quote

theorem Kept.after {tape : Tape} (kept : market.Kept tape) {call : BookCall} {next : Market}
    (taken : market.after call = some next) : ∃ later, next.Kept later := by
  cases call with
  | place order now =>
      cases taken
      cases valid : market.book.validateOrder order with
      | true =>
          refine ⟨.placed (OrderBook.accepted order now) :: tape, ⟨?_, ?_⟩⟩
          · rw [List.map_cons, kept.record, if_pos rfl]
            rfl
          · exact kept.follows.place order now valid
      | false =>
          refine ⟨tape, ⟨?_, ?_⟩⟩
          · rw [kept.record, if_neg (by simp)]
          · simp only [OrderBook.placeOrder, valid, Bool.not_false, if_true]
            exact kept.follows
  | matchOrders clock =>
      obtain ⟨outcome, done, rfl⟩ := Option.map_eq_some_iff.mp taken
      obtain ⟨later, told, follows⟩ := matchLoop_follows kept.follows done
      refine ⟨later ++ tape, ⟨?_, follows⟩⟩
      rw [List.map_append, told, kept.record]

theorem placed_of_mem {tape : Tape} {order : Order} (member : order ∈ tape.placements) :
    Event.placed order ∈ tape := by
  induction tape with
  | nil => cases member
  | cons event earlier ih =>
      cases event with
      | placed new =>
          rcases List.mem_append.mp member with before | isNew
          · exact List.mem_cons_of_mem _ (ih before)
          · rw [List.mem_singleton.mp isNew]
            exact List.mem_cons_self
      | traded buy sell trade => exact List.mem_cons_of_mem _ (ih member)

/-- Where all orders have a limit, the priority is among all of them. -/
theorem lawful_of_limits {tape : Tape} (lawful : tape.Lawful Order.IsLimit)
    (limits : ∀ order ∈ tape.placements, order.IsLimit) : tape.Lawful fun _ => True := by
  induction tape with
  | nil => trivial
  | cons event earlier ih =>
      cases event with
      | placed order =>
          exact ih lawful fun other member => limits other (List.mem_append_left _ member)
      | traded buy sell trade =>
          obtain ⟨⟨buyer, seller, allows⟩, lawful⟩ := lawful
          refine ⟨⟨buyer, seller, { allows with buyerFirst := ?_, sellerFirst := ?_ }⟩,
            ih lawful limits⟩
          · intro number other placed _
            exact allows.buyerFirst number other placed (limits other (List.mem_of_getElem? placed))
          · intro number other placed _
            exact allows.sellerFirst number other placed (limits other (List.mem_of_getElem? placed))

/-- In every run matching keeps its promises among the limit orders, and among all
orders where no market order was accepted. -/
theorem run_matches (base quote : AssetID) {calls : List BookCall}
    (run : Run (fun market call next => market.after call = some next) (opened base quote) calls
      market) :
    market.MatchesCorrectly Order.IsLimit ∧
      (market.OnlyLimits → market.MatchesCorrectly fun _ => True) := by
  have kept : ∃ tape, market.Kept tape :=
    run.invariant (motive := fun market : Market => ∃ tape, market.Kept tape) ⟨[], kept_opened base quote⟩
      fun market call next kept taken => by
        obtain ⟨tape, kept⟩ := kept
        exact kept.after taken
  obtain ⟨tape, kept⟩ := kept
  have within : ∀ number order, tape.placements[number]? = some order →
      tape.tradedOf number ≤ order.amount.toNat := fun number order placed =>
    Tape.tradedOf_le kept.follows.lawful placed
  have ends := OrderBook.matchLoop_ends market.book
  have uncrossed : ∀ clock outcome, market.book.matchOrders clock = some outcome →
      outcome.2.Uncrossed := fun clock outcome done => OrderBook.matchLoop_uncrossed done
  constructor
  · exact ⟨⟨tape, kept.record, kept.follows.lawful, within⟩, ends, uncrossed⟩
  · intro limits
    have all : tape.Lawful fun _ => True :=
      lawful_of_limits kept.follows.lawful fun order member => limits order (by
        rw [← kept.record]
        exact List.mem_map_of_mem (placed_of_mem member))
    exact ⟨⟨tape, kept.record, all, within⟩, ends, uncrossed⟩

/-! ## A market order that is left aside -/

def orderOf (trader : Bytes) (orderType : OrderType) (price amount : UInt64) : Order where
  orderId := []
  traderPubkey := trader
  baseAsset := .talanton
  quoteAsset := .drachma
  orderType
  status := .pending
  price
  amount
  filledAmount := 0
  timestamp := 0
  signature := []

def limitCalls : List BookCall :=
  [.place (orderOf [2] .limitBuy 90 5) 0, .place (orderOf [3] .limitSell 80 5) 0,
    .matchOrders fun _ => 0]

def marketCalls : List BookCall := .place (orderOf [1] .marketBuy 100 5) 0 :: limitCalls

theorem after_exists (market : Market) (call : BookCall) :
    ∃ next, market.after call = some next := by
  cases call with
  | place order now => exact ⟨_, rfl⟩
  | matchOrders clock =>
      obtain ⟨outcome, done⟩ := market.book.matchOrders_ends clock
      rw [after, done]
      exact ⟨_, rfl⟩

theorem run_of_calls {start last : Market} {calls : List BookCall}
    (done : calls.foldlM Market.after start = some last) :
    Run (fun market call next => market.after call = some next) start calls last := by
  have each : EachInTurn Market.after (fun _ _ => True) start calls :=
    EachInTurn.of_invariant (motive := fun _ => True) (fun _ _ _ => trivial)
      (fun _ _ _ _ _ => trivial) trivial calls
  exact (each.extend .start done).mono fun market call next step => step.2

/-- A record without what is hashed. -/
inductive Outline
  | placed (trader : Bytes) (orderType : OrderType) (price amount : UInt64)
  | traded (buyer seller : Bytes)
deriving DecidableEq

def outline : Record → Outline
  | .placed order => .placed order.traderPubkey order.orderType order.price order.amount
  | .traded trade => .traded trade.buyerPubkey trade.sellerPubkey

theorem orders_outlined :
    (marketCalls.foldlM Market.after (opened .talanton .drachma)).map
        (fun market => market.record.map outline) =
      some [.traded [2] [3], .placed [3] .limitSell 80 5, .placed [2] .limitBuy 90 5,
        .placed [1] .marketBuy 100 5] ∧
    (limitCalls.foldlM Market.after (opened .talanton .drachma)).map
        (fun market => market.record.map outline) =
      some [.traded [2] [3], .placed [3] .limitSell 80 5, .placed [2] .limitBuy 90 5] := by
  decide +kernel

theorem placed_of_outline {event : Event} {trader : Bytes} {orderType : OrderType}
    {price amount : UInt64}
    (outlined : outline event.record = .placed trader orderType price amount) :
    ∃ order, event = .placed order ∧ order.traderPubkey = trader ∧ order.orderType = orderType ∧
      order.price = price ∧ order.amount = amount := by
  cases event with
  | placed order =>
      simp only [Event.record, outline, Outline.placed.injEq] at outlined
      exact ⟨order, rfl, outlined⟩
  | traded buy sell trade => cases outlined

theorem traded_of_outline {event : Event} {buyer seller : Bytes}
    (outlined : outline event.record = .traded buyer seller) :
    ∃ buy sell trade, event = .traded buy sell trade ∧ trade.buyerPubkey = buyer ∧
      trade.sellerPubkey = seller := by
  cases event with
  | placed order => cases outlined
  | traded buy sell trade =>
      simp only [Event.record, outline, Outline.traded.injEq] at outlined
      exact ⟨buy, sell, trade, rfl, outlined⟩

theorem limitCalls_onlyLimits {market : Market}
    (done : limitCalls.foldlM Market.after (opened .talanton .drachma) = some market) :
    market.OnlyLimits := by
  have outlined := orders_outlined.2
  rw [done, Option.map_some, Option.some.injEq] at outlined
  intro order placed
  have listed := List.mem_map_of_mem (f := outline) placed
  rw [outlined] at listed
  simp only [outline, List.mem_cons, List.not_mem_nil, or_false, reduceCtorEq, false_or,
    Outline.placed.injEq] at listed
  rcases listed with ⟨-, isType, -⟩ | ⟨-, isType, -⟩
  · exact .inr isType
  · exact .inl isType

theorem run_matches_limitCalls :
    ∃ market, limitCalls.foldlM Market.after (opened .talanton .drachma) = some market ∧
      market.MatchesCorrectly fun _ => True := by
  obtain ⟨market, done⟩ := foldlM_exists after_exists (opened .talanton .drachma) limitCalls
  exact ⟨market, done,
    (run_matches .talanton .drachma (run_of_calls done)).2 (limitCalls_onlyLimits done)⟩

/-- The limit order at 90 buys, and the market order at 100 waits. -/
theorem run_not_matching : ¬ ∀ (base quote : AssetID) (calls : List BookCall) (market : Market),
    calls.foldlM Market.after (opened base quote) = some market →
      market.MatchesCorrectly fun _ => True := by
  intro law
  obtain ⟨market, done⟩ := foldlM_exists after_exists (opened .talanton .drachma) marketCalls
  obtain ⟨tape, told, lawful, -⟩ := (law .talanton .drachma marketCalls market done).told
  have outlined := orders_outlined.1
  rw [done, Option.map_some, Option.some.injEq, ← told, List.map_map] at outlined
  obtain ⟨_, _, rfl, first, outlined⟩ := List.map_eq_cons_iff.mp outlined
  obtain ⟨_, _, rfl, second, outlined⟩ := List.map_eq_cons_iff.mp outlined
  obtain ⟨_, _, rfl, third, outlined⟩ := List.map_eq_cons_iff.mp outlined
  obtain ⟨_, _, rfl, fourth, outlined⟩ := List.map_eq_cons_iff.mp outlined
  obtain rfl := List.map_eq_nil_iff.mp outlined
  obtain ⟨buy, sell, trade, rfl, boughtBy, soldBy⟩ := traded_of_outline first
  obtain ⟨ask, rfl, askTrader, -, askPrice, -⟩ := placed_of_outline second
  obtain ⟨bid, rfl, bidTrader, -, bidPrice, -⟩ := placed_of_outline third
  obtain ⟨waiting, rfl, waitingTrader, waitingType, waitingPrice, waitingAmount⟩ :=
    placed_of_outline fourth
  obtain ⟨⟨buyer, seller, allows⟩, -⟩ := lawful
  have placed : Tape.placements [.placed ask, .placed bid, .placed waiting] =
      [waiting, bid, ask] := rfl
  have buyerTrader := allows.traders.1.symm.trans boughtBy
  have sellerTrader := allows.traders.2.symm.trans soldBy
  have isBuyer := List.mem_of_getElem? allows.isBuyer
  have isSeller := List.mem_of_getElem? allows.isSeller
  rw [placed] at isBuyer isSeller
  simp only [List.mem_cons, List.not_mem_nil, or_false] at isBuyer isSeller
  have buyerPrice : buyer.price = 90 := by
    rcases isBuyer with rfl | rfl | rfl
    · simp [buyerTrader] at waitingTrader
    · exact bidPrice
    · simp [buyerTrader] at askTrader
  have sellerPrice : seller.price = 80 := by
    rcases isSeller with rfl | rfl | rfl
    · simp [sellerTrader] at waitingTrader
    · simp [sellerTrader] at bidTrader
    · exact askPrice
  refine allows.buyerFirst 0 waiting rfl trivial (.inr waitingType) ?_ ?_ (.inl ?_)
  · rw [waitingAmount]
    exact Nat.zero_lt_succ 4
  · rw [sellerPrice, waitingPrice]
    decide
  · rw [buyerPrice, waitingPrice]
    decide

end Market

end Parthenon.Dex
