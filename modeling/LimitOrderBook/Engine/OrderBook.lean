import LimitOrderBook.Engine.Level

/-!
# `Engine.OrderBook` — the book's state and its private steps (`src/engine/order_book.rs`)

`BTreeMap` keeps price levels sorted, resting orders live in the arena, and each price level is a FIFO
linked list through that arena. Matching is in `Engine.Matching`, the public calls in `Engine.Api`.
-/

namespace LimitOrderBook

inductive EventMode where
  | full
  | tradesOnly
  | disabled
deriving DecidableEq, Repr

structure OrderBookConfig where
  eventMode : EventMode := .full
deriving DecidableEq, Repr

/-- One side's price levels, in ascending price order. -/
abbrev Levels := Std.ExtTreeMap Price PriceLevel

structure OrderBook where
  bids : Levels := ∅
  asks : Levels := ∅
  arena : OrderArena := {}
  /-- Where each resting order lives in the arena. -/
  orderSlots : Std.ExtTreeMap OrderId Slot := ∅
  events : List BookEvent := []
  config : OrderBookConfig := {}
  seenOrderIds : Finset OrderId := ∅

namespace OrderBook

def withConfig (config : OrderBookConfig) : OrderBook := { config := config }

/-- Create an empty book. -/
def new : OrderBook := withConfig {}

/-- The `match side { Buy => &mut self.bids, Sell => &mut self.asks }` of the source. -/
def levels (b : OrderBook) : Side → Levels
  | .buy => b.bids
  | .sell => b.asks

def setLevels (b : OrderBook) : Side → Levels → OrderBook
  | .buy, levels => { b with bids := levels }
  | .sell, levels => { b with asks := levels }

/-- Highest resting buy price. -/
def bestBid (b : OrderBook) : Option Price := b.bids.keys.getLast?

/-- Lowest resting sell price. -/
def bestAsk (b : OrderBook) : Option Price := b.asks.keys.head?

/-- Number of resting orders across both sides. -/
def restingOrderCount (b : OrderBook) : Nat := b.arena.len

/-- Write a level back after its queue changed, dropping the price when the queue is empty. -/
def putLevel (b : OrderBook) (side : Side) (price : Price) (level : PriceLevel) : OrderBook :=
  b.setLevels side
    (if level.isEmpty then (b.levels side).erase price else (b.levels side).insert price level)

/-- Detach a resting order from its level and free its slot. -/
def removeOrderById (b : OrderBook) (orderId : OrderId) :
    Except Fault (OrderBook × Option Order) :=
  match b.orderSlots[orderId]? with
  | none => pure (b, none)
  | some slot => do
      let b := { b with orderSlots := b.orderSlots.erase orderId }
      let node ← b.arena.get slot
      let (side, price) := (node.order.side, node.order.price)
      -- the index entry goes first, the arena slot last; the queue is mended in between
      let b ← match (b.levels side)[price]? with
        | none => pure b
        | some level => do
            let (level, arena) ← level.unlink b.arena slot
            pure ({ b with arena := arena }.putLevel side price level)
      let (arena, order) ← b.arena.remove slot
      pure ({ b with arena := arena }, some order)

def restOrder (b : OrderBook) (order : Order) : Except Fault OrderBook := do
  let (arena, slot) ← b.arena.insert order
  -- `entry(price).or_default()`: an absent price opens an empty level
  let level := ((b.levels order.side)[order.price]?).getD {}
  let (level, arena) ← level.pushBack arena slot
  let b := { b with arena := arena }
  let b := b.setLevels order.side ((b.levels order.side).insert order.price level)
  pure { b with orderSlots := b.orderSlots.insert order.id slot }

/-! ## Event recording, gated by the configured mode -/

def recordOrderAccepted (b : OrderBook) (order : Order) : OrderBook :=
  if b.config.eventMode = .full then { b with events := b.events ++ [.orderAccepted order] } else b

def recordTradeExecuted (b : OrderBook) (trade : Trade) : OrderBook :=
  match b.config.eventMode with
  | .full | .tradesOnly => { b with events := b.events ++ [.tradeExecuted trade] }
  | .disabled => b

def recordOrderCancelled (b : OrderBook) (orderId : OrderId) : OrderBook :=
  if b.config.eventMode = .full then { b with events := b.events ++ [.orderCancelled orderId] } else b

def recordOrderModified (b : OrderBook) (orderId : OrderId) (newPrice : Price)
    (newQuantity : Quantity) : OrderBook :=
  if b.config.eventMode = .full then
    { b with events := b.events ++ [.orderModified orderId newPrice newQuantity] }
  else b

/-! ## Reading the book back -/

/-- The cursor walk of `levelOrders`, for at most `fuel` steps. -/
def walkOrders (arena : OrderArena) : Nat → Option Slot → Except Fault (List Order)
  | _, none => pure []
  | 0, some _ => .error .outOfFuel
  | fuel + 1, some slot => do
      let node ← arena.get slot
      let rest ← walkOrders arena fuel node.next
      pure (node.order :: rest)

/-- Copy one level's orders in queue order. A queue without a cycle visits each entry at most once, so
    the arena's size bounds the walk. -/
def levelOrders (b : OrderBook) (level : PriceLevel) : Except Fault (List Order) :=
  walkOrders b.arena b.arena.entries.size level.head

/-- Read one side's levels, in the order given. -/
def readLevels (b : OrderBook) (ladder : List (Price × PriceLevel)) :
    Except Fault (List (Price × List Order)) :=
  ladder.mapM fun (price, level) => do
    let orders ← b.levelOrders level
    pure (price, orders)

/-- A full snapshot: bids from the highest price down, asks from the lowest price up. -/
def snapshot (b : OrderBook) : Except Fault BookSnapshot := do
  -- the ladders ascend, so the bids are read backwards
  let bids ← b.readLevels b.bids.toList.reverse
  let asks ← b.readLevels b.asks.toList
  pure { bids := bids, asks := asks }

end OrderBook
end LimitOrderBook
