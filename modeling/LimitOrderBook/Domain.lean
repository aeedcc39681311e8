import Mathlib.Data.Finset.Insert
import Mathlib.Data.UInt

/-!
# `Domain` — the nouns of the order book

Orders, trades, events, snapshots, errors and commands, as `src/domain`, `src/error.rs` and
`src/simulator/scenario.rs` have them. Ids, prices
and quantities are 64-bit machine words, so every value a caller can pass is a value here, and `+`/`-`
on them wrap as they do in a release build.
-/

namespace LimitOrderBook

abbrev OrderId := UInt64
abbrev Price := UInt64
abbrev Quantity := UInt64

inductive Side where
  | buy
  | sell
deriving DecidableEq, Repr

/-- The side an incoming order trades against. -/
def Side.opposite : Side → Side
  | .buy => .sell
  | .sell => .buy

@[simp] theorem Side.opposite_opposite (s : Side) : s.opposite.opposite = s := by cases s <;> rfl

@[simp] theorem Side.opposite_ne (s : Side) : s.opposite ≠ s := by cases s <;> decide

@[simp] theorem Side.ne_opposite (s : Side) : s ≠ s.opposite := by cases s <;> decide

/-- A limit order entering or resting in the book. -/
structure Order where
  id : OrderId
  side : Side
  price : Price
  remainingQty : Quantity
deriving DecidableEq, Repr

def Order.new (id : OrderId) (side : Side) (price : Price) (quantity : Quantity) : Order :=
  ⟨id, side, price, quantity⟩

def Order.isFilled (o : Order) : Bool := o.remainingQty == 0

theorem Order.isFilled_iff {o : Order} : o.isFilled = true ↔ o.remainingQty = 0 := by simp [Order.isFilled]

/-- A trade, at the resting order's price. -/
structure Trade where
  makerOrderId : OrderId
  takerOrderId : OrderId
  price : Price
  quantity : Quantity
deriving DecidableEq, Repr

inductive BookEvent where
  | orderAccepted (order : Order)
  | orderCancelled (orderId : OrderId)
  | orderModified (orderId : OrderId) (newPrice : Price) (newQuantity : Quantity)
  | tradeExecuted (trade : Trade)
deriving DecidableEq, Repr

/-- The readable state of a book: bids from the highest price down, asks from the lowest price up, each
    level with its orders in queue order. -/
structure BookSnapshot where
  bids : List (Price × List Order)
  asks : List (Price × List Order)
deriving DecidableEq, Repr

namespace BookSnapshot

/-- The levels of one side. -/
def levels (snap : BookSnapshot) : Side → List (Price × List Order)
  | .buy => snap.bids
  | .sell => snap.asks

/-- The orders of one side, in the order the snapshot lists them. -/
def orders (snap : BookSnapshot) (s : Side) : List Order := (snap.levels s).flatMap Prod.snd

/-- The ids of all orders a snapshot lists. -/
def ids (snap : BookSnapshot) : List OrderId :=
  (snap.orders .buy ++ snap.orders .sell).map Order.id

end BookSnapshot

inductive OrderBookError where
  | zeroQuantity
  | duplicateOrderId
  | unknownOrderId
deriving DecidableEq, Repr

/-- A command sent into the order book. -/
inductive ScenarioCommand where
  | add (order : Order)
  | cancel (orderId : OrderId)
  | modify (orderId : OrderId) (newPrice : Price) (newQuantity : Quantity)
deriving DecidableEq, Repr

/-- The order that a command names. -/
def ScenarioCommand.orderId : ScenarioCommand → OrderId
  | .add order => order.id
  | .cancel orderId => orderId
  | .modify orderId _ _ => orderId

/-- What a command returns to its caller. -/
abbrev CommandResult := Except OrderBookError (List Trade)

end LimitOrderBook
