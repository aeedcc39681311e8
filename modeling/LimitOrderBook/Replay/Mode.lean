import LimitOrderBook.Events.Log
import LimitOrderBook.Metrics.BookMetrics
import LimitOrderBook.Metrics.TradeMetrics
import LimitOrderBook.Replay.Engine

/-!
# `Replay.Mode` — what a replay reports (`run_replay_mode` of `src/main.rs`)

The lines that the mode prints, as a record: the book is the rebuilt one, the trades are those of the file.
-/

namespace LimitOrderBook

/-- The report of replay mode. -/
structure ReplayReport where
  bestBid : Option Price
  bestAsk : Option Price
  restingOrders : Nat
  snapshot : BookSnapshot
  bookMetrics : BookMetrics
  tradeMetrics : TradeMetrics
deriving DecidableEq

/-- Replay the events of a file and report on the book and on the trades. -/
def runReplayMode (events : List BookEvent) : Except Fault (Except OrderBookError ReplayReport) := do
  match ← replayEvents events with
  | .error e => pure (.error e)
  | .ok book =>
      let snapshot ← book.snapshot
      pure (.ok {
        bestBid := book.bestBid
        bestAsk := book.bestAsk
        restingOrders := book.restingOrderCount
        snapshot := snapshot
        bookMetrics := calculateBookMetrics snapshot
        tradeMetrics := calculateTradeMetrics (tradesFromEvents events) })

end LimitOrderBook
