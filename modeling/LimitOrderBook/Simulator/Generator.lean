import LimitOrderBook.Domain

/-!
# `Simulator.Generator` — synthetic workloads (`src/simulator/generator.rs`)

Deterministic orders around a base price. The counts, `usize` in the source, are natural numbers.
-/

namespace LimitOrderBook

/-- Configuration for generating synthetic orders. -/
structure GeneratorConfig where
  orderCount : Nat
  startOrderId : OrderId
  basePrice : Price
  tickSize : Price
  priceLevels : Nat
  quantity : Quantity
deriving DecidableEq, Repr

/-- `u64::saturating_sub`. -/
def saturatingSub (x y : UInt64) : UInt64 := if y ≤ x then x - y else 0

namespace GeneratorConfig

/-- `price_levels.max(1)`. -/
def levels (config : GeneratorConfig) : Nat := max config.priceLevels 1

def orderId (config : GeneratorConfig) (index : Nat) : OrderId := config.startOrderId + UInt64.ofNat index

/-- The distance of an order from the base price. -/
def offset (config : GeneratorConfig) (index : Nat) : Price :=
  (UInt64.ofNat (index % config.levels) + 1) * config.tickSize

/-- The order that the two-sided workload adds at `index`. -/
def twoSidedOrder (config : GeneratorConfig) (index : Nat) : Order :=
  let side := if index % 2 = 0 then Side.buy else Side.sell
  let price :=
    match side with
    | .buy => saturatingSub config.basePrice (config.offset index)
    | .sell => config.basePrice + config.offset index
  Order.new (config.orderId index) side price config.quantity

/-- The order that the crossing workload adds at `index` of its first half. -/
def crossingSell (config : GeneratorConfig) (index : Nat) : Order :=
  Order.new (config.orderId index) .sell (config.basePrice + config.offset index) config.quantity

/-- The order that the crossing workload adds at `index` of its second half. -/
def crossingBuy (config : GeneratorConfig) (index : Nat) : Order :=
  Order.new (config.orderId index) .buy (config.basePrice + UInt64.ofNat config.levels * config.tickSize)
    config.quantity

end GeneratorConfig

/-- Generate deterministic buy/sell orders around a base price. -/
def generateTwoSidedOrders (config : GeneratorConfig) : List ScenarioCommand :=
  (List.range config.orderCount).map fun index => .add (config.twoSidedOrder index)

/-- Generate deterministic orders that intentionally cross the spread. -/
def generateCrossingOrders (config : GeneratorConfig) : List ScenarioCommand :=
  let split := config.orderCount / 2
  ((List.range split).map fun index => .add (config.crossingSell index))
    ++ (List.range' split (config.orderCount - split)).map fun index => .add (config.crossingBuy index)

end LimitOrderBook
