import LimitOrderBook.Engine.Api

/-!
# `Replay.Engine` — rebuilding a book from its log (`src/replay/engine.rs`)
-/

namespace LimitOrderBook

/-- The loop of `replay_events`, from a given book; the first rejected call ends it. -/
def replayFrom (book : OrderBook) :
    List BookEvent → Except Fault (Except OrderBookError OrderBook)
  | [] => pure (.ok book)
  | .orderAccepted order :: events => do
      match ← book.addOrder order with
      | (_, .error e) => pure (.error e)
      | (book, .ok _) => replayFrom book events
  | .orderCancelled orderId :: events => do
      match ← book.cancelOrder orderId with
      | (_, .error e) => pure (.error e)
      | (book, .ok _) => replayFrom book events
  | .orderModified orderId newPrice newQuantity :: events => do
      match ← book.modifyOrder orderId newPrice newQuantity with
      | (_, .error e) => pure (.error e)
      | (book, .ok _) => replayFrom book events
  -- trades are produced again by replaying what caused them
  | .tradeExecuted _ :: events => replayFrom book events

/-- Rebuild an order book by applying historical events again. -/
def replayEvents (events : List BookEvent) : Except Fault (Except OrderBookError OrderBook) :=
  replayFrom OrderBook.new events

end LimitOrderBook
