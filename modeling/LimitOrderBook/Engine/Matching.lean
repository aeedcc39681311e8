import LimitOrderBook.Engine.OrderBook

/-!
# `Engine.Matching` — the price-time priority loops (`src/engine/matching.rs`)

Matching an order takes the best price of the opposite side (`matchLoop`), trades against the head of the queue at
that price until the order is filled or the queue is empty (`LevelCursor.drain`), and goes on with the next price. The
level is borrowed from its map for the inner loop and written back afterwards, or dropped when it is empty
(`matchAtLevel`). What is left of the order is rested (`matchIncoming`).

The two loops carry a bound on their iterations. `Refinement.Termination` proves that the bounds given here are never
the reason a loop stops, in any state of the book: an iteration of the inner loop frees an arena slot or is the last
one, an iteration of the outer loop drops a price or is the last one.
-/

namespace LimitOrderBook

/-- What the inner loop of `matchAtLevel` reads and writes: the level it borrows, the arena, the index,
    the incoming order and the trades made so far. -/
structure LevelCursor where
  level : PriceLevel
  arena : OrderArena
  orderSlots : Std.ExtTreeMap OrderId Slot
  incoming : Order
  trades : List Trade

namespace LevelCursor

/-- One iteration: trade the incoming order against the order in `slot`, the head of the queue. -/
def tradeHead (c : LevelCursor) (price : Price) (slot : Slot) : Except Fault LevelCursor := do
  let node ← c.arena.get slot
  let resting := node.order
  let tradedQty := min c.incoming.remainingQty resting.remainingQty
  let incoming := { c.incoming with remainingQty := c.incoming.remainingQty - tradedQty }
  let trades := c.trades ++ [⟨resting.id, c.incoming.id, price, tradedQty⟩]
  if tradedQty = resting.remainingQty then
    -- fully filled: `unlink` subtracts its quantity from the level
    let (level, arena) ← c.level.unlink c.arena slot
    let (arena, _) ← arena.remove slot
    pure { level := level, arena := arena, orderSlots := c.orderSlots.erase resting.id,
           incoming := incoming, trades := trades }
  else
    -- partially filled: it stays at the head and keeps its priority
    let arena ← c.arena.getMut slot fun n =>
      { n with order := { n.order with remainingQty := n.order.remainingQty - tradedQty } }
    pure { c with
      level := { c.level with totalQuantity := c.level.totalQuantity - tradedQty }
      arena := arena, incoming := incoming, trades := trades }

/-- The inner loop: trade against the head until the incoming order is filled or the queue is empty. -/
def drain (price : Price) : Nat → LevelCursor → Except Fault LevelCursor
  | fuel, c =>
      if c.incoming.isFilled then pure c
      else match c.level.head, fuel with
        | none, _ => pure c
        | some _, 0 => .error .outOfFuel
        | some slot, fuel + 1 => do
            let c ← c.tradeHead price slot
            drain price fuel c

/-! ## One round of the inner loop -/

variable {c c' : LevelCursor} {price : Price} {slot : Slot} {fuel : Nat}

theorem drain_of_filled (h : c.incoming.isFilled = true) : drain price fuel c = .ok c := by
  unfold drain
  simp [h]

theorem drain_of_empty (h : c.level.head = none) : drain price fuel c = .ok c := by
  unfold drain
  simp [h]

theorem drain_of_go (hopen : ¬c.incoming.isFilled = true) (hhead : c.level.head = some slot)
    (htrade : c.tradeHead price slot = .ok c') : drain price (fuel + 1) c = drain price fuel c' := by
  conv_lhs => unfold drain
  simp [hopen, hhead, htrade]

end LevelCursor

namespace OrderBook

/-- Match the incoming order against the queue at one price. `makerSide` is the side of the resting
    orders being consumed. -/
def matchAtLevel (b : OrderBook) (makerSide : Side) (price : Price) (incoming : Order)
    (trades : List Trade) : Except Fault (OrderBook × Order × List Trade) :=
  match (b.levels makerSide)[price]? with
  | none => pure (b, incoming, trades)
  | some level => do
      -- the level is borrowed from its map while the arena and the index change next to it
      let c ← LevelCursor.drain price (b.arena.entries.size + 1)
        { level := level, arena := b.arena, orderSlots := b.orderSlots, incoming := incoming,
          trades := trades }
      let b := { b with arena := c.arena, orderSlots := c.orderSlots }
      pure (b.putLevel makerSide price c.level, c.incoming, c.trades)

/-- The outer loop shared by the two sides: while the incoming order is not filled and the best opposite
    price is not `beyond` its limit, match at that price. -/
def matchLoop (makerSide : Side) (best : OrderBook → Option Price) (beyond : Price → Price → Bool) :
    Nat → OrderBook → Order → List Trade → Except Fault (OrderBook × Order × List Trade)
  | fuel, b, incoming, trades =>
      if incoming.isFilled then pure (b, incoming, trades)
      else match best b, fuel with
        | none, _ => pure (b, incoming, trades)
        | some price, fuel =>
            if beyond price incoming.price then pure (b, incoming, trades)
            else match fuel with
              | 0 => .error .outOfFuel
              | fuel + 1 => do
                  let (b, incoming, trades) ← b.matchAtLevel makerSide price incoming trades
                  matchLoop makerSide best beyond fuel b incoming trades

/-- Run the outer loop, then rest what is left. -/
def matchOrder (makerSide : Side) (best : OrderBook → Option Price)
    (beyond : Price → Price → Bool) (b : OrderBook) (incoming : Order) :
    Except Fault (OrderBook × List Trade) := do
  let (b, incoming, trades) ←
    matchLoop makerSide best beyond (b.levels makerSide).size b incoming []
  if incoming.isFilled then pure (b, trades)
  else
    let b ← b.restOrder incoming
    pure (b, trades)

/-- Match an incoming buy order against the cheapest asks first; it can only trade with asks priced at or
    below its limit. Any unfilled quantity becomes a resting bid. -/
def matchBuyOrder : OrderBook → Order → Except Fault (OrderBook × List Trade) :=
  matchOrder .sell bestAsk fun bestAskPrice limit => bestAskPrice > limit

/-- Match an incoming sell order against the most expensive bids first; it can only trade with bids
    priced at or above its limit. Any unfilled quantity becomes a resting ask. -/
def matchSellOrder : OrderBook → Order → Except Fault (OrderBook × List Trade) :=
  matchOrder .buy bestBid fun bestBidPrice limit => bestBidPrice < limit

/-- The `match order.side` dispatch of `add_order` and `modify_order`. -/
def matchIncoming (b : OrderBook) (order : Order) : Except Fault (OrderBook × List Trade) :=
  match order.side with
  | .buy => b.matchBuyOrder order
  | .sell => b.matchSellOrder order

/-! ## One round of the outer loop -/

section Loop

variable {s : Side} {best : OrderBook → Option Price} {beyond : Price → Price → Bool} {fuel : Nat}
  {b b' : OrderBook} {incoming incoming' : Order} {trades trades' : List Trade} {p : Price}

theorem matchLoop_of_filled (h : incoming.isFilled = true) :
    matchLoop s best beyond fuel b incoming trades = .ok (b, incoming, trades) := by
  unfold matchLoop
  simp [h]

theorem matchLoop_of_none (h : best b = none) :
    matchLoop s best beyond fuel b incoming trades = .ok (b, incoming, trades) := by
  unfold matchLoop
  simp [h]

theorem matchLoop_of_beyond (h : best b = some p) (hbeyond : beyond p incoming.price = true) :
    matchLoop s best beyond fuel b incoming trades = .ok (b, incoming, trades) := by
  unfold matchLoop
  simp [h, hbeyond]

theorem matchLoop_of_go (hopen : ¬incoming.isFilled = true) (h : best b = some p)
    (hbeyond : beyond p incoming.price = false)
    (hlevel : b.matchAtLevel s p incoming trades = .ok (b', incoming', trades')) :
    matchLoop s best beyond (fuel + 1) b incoming trades = matchLoop s best beyond fuel b' incoming' trades' := by
  conv_lhs => unfold matchLoop
  simp [hopen, h, hbeyond, hlevel]

end Loop

/-! ## Both matchers as one -/

/-- The best price of a side, as the matcher against that side reads it. -/
def bestPrice : Side → OrderBook → Option Price
  | .buy => bestBid
  | .sell => bestAsk

/-- The test that ends the loop of an incoming order of this side. -/
def beyondLimit : Side → (price limit : Price) → Bool
  | .buy, price, limit => price > limit
  | .sell, price, limit => price < limit

theorem matchIncoming_eq (b : OrderBook) (order : Order) :
    b.matchIncoming order
      = b.matchOrder order.side.opposite (bestPrice order.side.opposite) (beyondLimit order.side) order := by
  unfold matchIncoming
  cases order.side <;> rfl

theorem bestPrice_mem {b : OrderBook} {s : Side} {price : Price} (h : bestPrice s b = some price) :
    price ∈ b.levels s := by
  cases s with
  | buy => exact Std.ExtTreeMap.mem_keys.mp (List.mem_of_getLast? h)
  | sell => exact Std.ExtTreeMap.mem_keys.mp (List.mem_of_head? h)

end OrderBook
end LimitOrderBook
