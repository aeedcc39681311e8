import LimitOrderBook.Engine.Matching

/-!
# `Engine.Api` — the public calls of the book (`src/engine/order_book.rs`)

`addOrder`, `cancelOrder` and `modifyOrder` return the new book together with the `Result` the source
returns; a `Fault` is a call that does not return at all. `exec` makes the call a `ScenarioCommand` names.
-/

namespace LimitOrderBook

namespace OrderBook

/-- Record the trades of one call, in order. -/
def recordTrades (b : OrderBook) (trades : List Trade) : OrderBook :=
  trades.foldl recordTradeExecuted b

/-- Add an order and return all trades caused by that order. -/
def addOrder (b : OrderBook) (order : Order) : Except Fault (OrderBook × CommandResult) :=
  if order.remainingQty = 0 then pure (b, .error .zeroQuantity)
  else if order.id ∈ b.seenOrderIds then pure (b, .error .duplicateOrderId)
  else do
    -- the id is used up before matching, whatever matching does
    let b := { b with seenOrderIds := insert order.id b.seenOrderIds }
    let b := b.recordOrderAccepted order
    let (b, trades) ← b.matchIncoming order
    pure (b.recordTrades trades, .ok trades)

def cancelOrder (b : OrderBook) (orderId : OrderId) :
    Except Fault (OrderBook × Except OrderBookError Unit) := do
  match ← b.removeOrderById orderId with
  | (b, none) => pure (b, .error .unknownOrderId)
  | (b, some _) => pure (b.recordOrderCancelled orderId, .ok ())

def modifyOrder (b : OrderBook) (orderId : OrderId) (newPrice : Price) (newQuantity : Quantity) :
    Except Fault (OrderBook × CommandResult) :=
  if newQuantity = 0 then pure (b, .error .zeroQuantity)
  else do
    match ← b.removeOrderById orderId with
    | (b, none) => pure (b, .error .unknownOrderId)
    | (b, some oldOrder) =>
        let updatedOrder := Order.new oldOrder.id oldOrder.side newPrice newQuantity
        let (b, trades) ← b.matchIncoming updatedOrder
        -- recorded after matching, and ahead of the trades it caused
        let b := b.recordOrderModified orderId newPrice newQuantity
        pure (b.recordTrades trades, .ok trades)

/-- Make one call. A successful cancel returns no trades. -/
def exec (b : OrderBook) : ScenarioCommand → Except Fault (OrderBook × CommandResult)
  | .add order => b.addOrder order
  | .cancel orderId => do
      let (b, result) ← b.cancelOrder orderId
      pure (b, result.map fun _ => [])
  | .modify orderId newPrice newQuantity => b.modifyOrder orderId newPrice newQuantity

/-! ## Runs -/

/-- An empty book in a given event mode. -/
def start (mode : EventMode) : OrderBook := withConfig { eventMode := mode }

/-- A sequence of calls on an empty book: the book at the end and what each call returned. -/
def run (mode : EventMode) (cmds : List ScenarioCommand) :
    Except Fault (OrderBook × List CommandResult) := Machine.tryRun exec (start mode) cmds

/-- Never more than `2 ^ 32` orders rest at once in the run. -/
def NeverOverfull (mode : EventMode) (cmds : List ScenarioCommand) : Prop :=
  Machine.Stays (fun b => b.restingOrderCount ≤ 2 ^ 32) exec (start mode) cmds

instance (mode : EventMode) (cmds : List ScenarioCommand) : Decidable (NeverOverfull mode cmds) :=
  Machine.decidableStays _ exec (start mode) cmds

end OrderBook

/-- A session with a sweep of one level, a partial fill, a modify that trades, a cancel of a partly filled
    order and three rejected calls. -/
def session : List ScenarioCommand :=
  [.add ⟨1, .buy, 100, 10⟩, .add ⟨2, .sell, 105, 4⟩, .add ⟨3, .sell, 105, 5⟩, .add ⟨4, .sell, 107, 1⟩,
    .add ⟨5, .buy, 105, 6⟩, .modify 1 105 2, .cancel 3, .add ⟨3, .buy, 1, 1⟩, .cancel 99,
    .add ⟨6, .buy, 100, 0⟩]
end LimitOrderBook
