import LimitOrderBook.Reference.ReferenceBook

/-!
# `Events.Projection` — reading a book off its event log, without matching

A projection keeps price ladders and nothing else. Each event changes them in the plainest way: it
appends, removes, or subtracts in place. `Applicable` says when an event makes sense.
-/

namespace LimitOrderBook

structure Projection where
  bids : SideLadder .buy := Ladder.empty
  asks : SideLadder .sell := Ladder.empty

/-- Subtract a quantity from the order with an id; an order that reaches zero is dropped. -/
def Order.reduced (id : OrderId) (quantity : Quantity) (o : Order) : Option Order :=
  if o.id = id then
    if o.remainingQty - quantity = 0 then none
    else some { o with remainingQty := o.remainingQty - quantity }
  else some o

namespace Projection

def ladder (P : Projection) : (s : Side) → SideLadder s
  | .buy => P.bids
  | .sell => P.asks

def orders (P : Projection) : List Order := P.bids.flat ++ P.asks.flat

def find? (P : Projection) (id : OrderId) : Option Order := P.orders.find? fun o => o.id = id

def snapshot (P : Projection) : BookSnapshot := ⟨P.bids.levels, P.asks.levels⟩

/-- Keep, drop or change every order where it is. -/
def rewrite (P : Projection) (g : Order → Option Order) : Projection :=
  ⟨P.bids.filterMap g, P.asks.filterMap g⟩

/-- Append an order at the tail of the queue of its side and price. -/
def append (P : Projection) (o : Order) : Projection :=
  match o.side with
  | .buy => { P with bids := P.bids.push o.price o }
  | .sell => { P with asks := P.asks.push o.price o }

def removeId (P : Projection) (id : OrderId) : Projection :=
  P.rewrite (Option.guard fun o => o.id ≠ id)

def apply (P : Projection) : BookEvent → Projection
  | .orderAccepted order => P.append order
  | .orderCancelled id => P.removeId id
  | .orderModified id newPrice newQuantity =>
      match P.find? id with
      | none => P
      | some old => (P.removeId id).append (Order.new id old.side newPrice newQuantity)
  | .tradeExecuted trade =>
      (P.rewrite (Order.reduced trade.makerOrderId trade.quantity)).rewrite
        (Order.reduced trade.takerOrderId trade.quantity)

/-- A cancelled or modified order is live, and an accepted one is new. A trade names two live orders of
    opposite sides; it is at the maker's price, within the taker's limit, and for at least one unit and at
    most what either has left. -/
def Applicable (P : Projection) : BookEvent → Prop
  | .orderAccepted order => ∀ o ∈ P.orders, o.id ≠ order.id
  | .orderCancelled id => ∃ o ∈ P.orders, o.id = id
  | .orderModified id _ _ => ∃ o ∈ P.orders, o.id = id
  | .tradeExecuted trade =>
      ∃ maker ∈ P.orders, ∃ taker ∈ P.orders, maker.id = trade.makerOrderId
        ∧ taker.id = trade.takerOrderId ∧ maker.side = taker.side.opposite
        ∧ trade.price = maker.price ∧ taker.side.crosses taker.price trade.price
        ∧ 1 ≤ trade.quantity ∧ trade.quantity ≤ maker.remainingQty
        ∧ trade.quantity ≤ taker.remainingQty

/-- The projection of a log. -/
def project (events : List BookEvent) : Projection := events.foldl apply {}

/-- Every event makes sense when it is reached. -/
def Legal (P : Projection) : List BookEvent → Prop
  | [] => True
  | e :: events => P.Applicable e ∧ (P.apply e).Legal events

theorem legal_append {P : Projection} {events later : List BookEvent} :
    P.Legal (events ++ later) ↔ P.Legal events ∧ (events.foldl apply P).Legal later := by
  induction events generalizing P with
  | nil => simp [Legal]
  | cons e events ih =>
      rw [List.cons_append, Legal, Legal, ih, List.foldl_cons, and_assoc]

/-- A legal log is one in which every event is applicable after those before it. -/
theorem Legal.applicable {P : Projection} {before after : List BookEvent} {e : BookEvent}
    (h : P.Legal (before ++ e :: after)) : (before.foldl apply P).Applicable e :=
  (legal_append.mp h).2.1

end Projection
end LimitOrderBook
