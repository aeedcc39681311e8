import LimitOrderBook.Domain

/-!
# `Simulator.Scenarios` — the scenarios with a name (`src/simulator/scenarios.rs`)
-/

namespace LimitOrderBook

/-- One sell order rests first, then one buy order matches it. -/
def simpleCross : List ScenarioCommand :=
  [.add (Order.new 1 .sell 100 5),
   .add (Order.new 2 .buy 100 2)]

/-- A buy order walks through multiple ask price levels. -/
def buySweepsAsks : List ScenarioCommand :=
  [.add (Order.new 1 .sell 100 5),
   .add (Order.new 2 .sell 101 5),
   .add (Order.new 3 .sell 102 5),
   .add (Order.new 4 .buy 102 12)]

/-- Both sides rest. -/
def twoSidedBook : List ScenarioCommand :=
  [.add (Order.new 1 .buy 100 10),
   .add (Order.new 2 .buy 99 5),
   .add (Order.new 3 .sell 105 7),
   .add (Order.new 4 .sell 106 3)]

/-- Add order, cancel order, modify order. -/
def cancelAndModifyFlow : List ScenarioCommand :=
  [.add (Order.new 1 .buy 100 10),
   .add (Order.new 2 .buy 101 5),
   .cancel 1,
   .modify 2 103 4]

end LimitOrderBook
