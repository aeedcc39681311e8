import LimitOrderBook.Engine.Arena

/-!
# `Engine.Level` — the FIFO queue at one price (`src/engine/level.rs`)

The queue is a doubly linked list threaded through the arena nodes, so an order is detached from any
position without searching. Both operations write the level and the arena; the model returns the pair.
-/

namespace LimitOrderBook

structure PriceLevel where
  /-- Oldest order: first to match. -/
  head : Option Slot := none
  /-- Newest order: new arrivals go behind it. -/
  tail : Option Slot := none
  totalQuantity : Quantity := 0
deriving DecidableEq, Repr

namespace PriceLevel

/-- Append an order at the back of the queue. -/
def pushBack (l : PriceLevel) (a : OrderArena) (slot : Slot) :
    Except Fault (PriceLevel × OrderArena) := do
  let node ← a.get slot
  let a ← a.getMut slot fun n => { n with prev := l.tail, next := none }
  let total := l.totalQuantity + node.order.remainingQty
  match l.tail with
  | some tail =>
      let a ← a.getMut tail fun n => { n with next := some slot }
      pure ({ head := l.head, tail := some slot, totalQuantity := total }, a)
  | none => pure ({ head := some slot, tail := some slot, totalQuantity := total }, a)

/-- Detach an order from any position and subtract its remaining quantity. -/
def unlink (l : PriceLevel) (a : OrderArena) (slot : Slot) :
    Except Fault (PriceLevel × OrderArena) := do
  let node ← a.get slot
  let total := l.totalQuantity - node.order.remainingQty
  let (head, a) ← match node.prev with
    | some prev => do
        let a ← a.getMut prev fun n => { n with next := node.next }
        pure (l.head, a)
    | none => pure (node.next, a)
  let (tail, a) ← match node.next with
    | some next => do
        let a ← a.getMut next fun n => { n with prev := node.prev }
        pure (l.tail, a)
    | none => pure (node.prev, a)
  pure ({ head := head, tail := tail, totalQuantity := total }, a)

def isEmpty (l : PriceLevel) : Bool := l.head.isNone

end PriceLevel
end LimitOrderBook
