import LimitOrderBook.Engine.Api

/-!
# `Simulator.Runner` — running a scenario (`src/simulator/runner.rs`)
-/

namespace LimitOrderBook

/-- Result of running a simulator scenario. -/
structure ScenarioResult where
  book : OrderBook
  trades : List Trade
  events : List BookEvent

/-- The loop of `run_scenario`, from a given book and the trades so far. -/
def runScenarioFrom (book : OrderBook) (allTrades : List Trade) :
    List ScenarioCommand → Except Fault (Except OrderBookError ScenarioResult)
  | [] => pure (.ok { book := book, trades := allTrades, events := book.events })
  | .add order :: commands => do
      match ← book.addOrder order with
      | (_, .error e) => pure (.error e)
      | (book, .ok trades) => runScenarioFrom book (allTrades ++ trades) commands
  | .cancel orderId :: commands => do
      match ← book.cancelOrder orderId with
      | (_, .error e) => pure (.error e)
      | (book, .ok _) => runScenarioFrom book allTrades commands
  | .modify orderId newPrice newQuantity :: commands => do
      match ← book.modifyOrder orderId newPrice newQuantity with
      | (_, .error e) => pure (.error e)
      | (book, .ok trades) => runScenarioFrom book (allTrades ++ trades) commands

/-- Run a list of simulator commands against a fresh order book. -/
def runScenario (commands : List ScenarioCommand) :
    Except Fault (Except OrderBookError ScenarioResult) :=
  runScenarioFrom OrderBook.new [] commands

end LimitOrderBook
