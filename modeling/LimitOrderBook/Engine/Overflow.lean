import LimitOrderBook.Engine.Api

/-!
# `Engine.Overflow` — the overflow checks of the quantity arithmetic

The sums and differences of quantities wrap in `Engine`. The predicates here say of each function that none
of its own does: they follow the function, with the check at every operation, and ask the same of every
function it calls in the states it calls them in.
-/

namespace LimitOrderBook

/-- The sum is the sum of the values. -/
def AddExact (q r : Quantity) : Prop := q.toNat + r.toNat < 2 ^ 64

/-- The difference is the difference of the values. -/
def SubExact (q r : Quantity) : Prop := r ≤ q

def PriceLevel.PushBackExact (l : PriceLevel) (a : OrderArena) (slot : Slot) : Prop :=
  ∀ node, a.get slot = .ok node → AddExact l.totalQuantity node.order.remainingQty

def PriceLevel.UnlinkExact (l : PriceLevel) (a : OrderArena) (slot : Slot) : Prop :=
  ∀ node, a.get slot = .ok node → SubExact l.totalQuantity node.order.remainingQty

namespace LevelCursor

def TradeHeadExact (c : LevelCursor) (slot : Slot) : Prop :=
  ∀ node, c.arena.get slot = .ok node →
    let resting := node.order
    let tradedQty := min c.incoming.remainingQty resting.remainingQty
    SubExact c.incoming.remainingQty tradedQty
      ∧ if tradedQty = resting.remainingQty then c.level.UnlinkExact c.arena slot
        else SubExact resting.remainingQty tradedQty ∧ SubExact c.level.totalQuantity tradedQty

def DrainExact (price : Price) : Nat → LevelCursor → Prop
  | 0, _ => True
  | fuel + 1, c => ¬c.incoming.isFilled → ∀ slot, c.level.head = some slot →
      c.TradeHeadExact slot ∧ ∀ c', c.tradeHead price slot = .ok c' → DrainExact price fuel c'

end LevelCursor

namespace OrderBook

def MatchAtLevelExact (b : OrderBook) (makerSide : Side) (price : Price) (incoming : Order)
    (trades : List Trade) : Prop :=
  ∀ level, (b.levels makerSide)[price]? = some level →
    LevelCursor.DrainExact price (b.arena.entries.size + 1)
      { level := level, arena := b.arena, orderSlots := b.orderSlots, incoming := incoming,
        trades := trades }

def MatchLoopExact (makerSide : Side) (best : OrderBook → Option Price) (beyond : Price → Price → Bool) :
    Nat → OrderBook → Order → List Trade → Prop
  | 0, _, _, _ => True
  | fuel + 1, b, incoming, trades =>
      ¬incoming.isFilled → ∀ price, best b = some price → ¬beyond price incoming.price →
        b.MatchAtLevelExact makerSide price incoming trades
          ∧ ∀ b' incoming' trades', b.matchAtLevel makerSide price incoming trades = .ok (b', incoming', trades') →
              MatchLoopExact makerSide best beyond fuel b' incoming' trades'

def RestOrderExact (b : OrderBook) (order : Order) : Prop :=
  ∀ arena slot, b.arena.insert order = .ok (arena, slot) →
    (((b.levels order.side)[order.price]?).getD {}).PushBackExact arena slot

def MatchOrderExact (makerSide : Side) (best : OrderBook → Option Price) (beyond : Price → Price → Bool)
    (b : OrderBook) (incoming : Order) : Prop :=
  MatchLoopExact makerSide best beyond (b.levels makerSide).size b incoming []
    ∧ ∀ b' incoming' trades,
        matchLoop makerSide best beyond (b.levels makerSide).size b incoming [] = .ok (b', incoming', trades) →
          ¬incoming'.isFilled → b'.RestOrderExact incoming'

def MatchIncomingExact (b : OrderBook) (order : Order) : Prop :=
  match order.side with
  | .buy => MatchOrderExact .sell bestAsk (fun bestAskPrice limit => bestAskPrice > limit) b order
  | .sell => MatchOrderExact .buy bestBid (fun bestBidPrice limit => bestBidPrice < limit) b order

theorem matchIncomingExact_eq (b : OrderBook) (order : Order) :
    b.MatchIncomingExact order
      = MatchOrderExact order.side.opposite (bestPrice order.side.opposite) (beyondLimit order.side) b order := by
  unfold MatchIncomingExact
  cases order.side <;> rfl

def RemoveOrderByIdExact (b : OrderBook) (orderId : OrderId) : Prop :=
  ∀ slot node level, b.orderSlots[orderId]? = some slot → b.arena.get slot = .ok node →
    (b.levels node.order.side)[node.order.price]? = some level → level.UnlinkExact b.arena slot

def AddOrderExact (b : OrderBook) (order : Order) : Prop :=
  order.remainingQty ≠ 0 → order.id ∉ b.seenOrderIds →
    ({ b with seenOrderIds := insert order.id b.seenOrderIds }.recordOrderAccepted order).MatchIncomingExact order

def ModifyOrderExact (b : OrderBook) (orderId : OrderId) (newPrice : Price) (newQuantity : Quantity) : Prop :=
  newQuantity ≠ 0 → b.RemoveOrderByIdExact orderId
    ∧ ∀ b' oldOrder, b.removeOrderById orderId = .ok (b', some oldOrder) →
        b'.MatchIncomingExact (Order.new oldOrder.id oldOrder.side newPrice newQuantity)

/-- No addition or subtraction of quantities wraps in the call. -/
def ExecExact (b : OrderBook) : ScenarioCommand → Prop
  | .add order => b.AddOrderExact order
  | .cancel orderId => b.RemoveOrderByIdExact orderId
  | .modify orderId newPrice newQuantity => b.ModifyOrderExact orderId newPrice newQuantity

end OrderBook
end LimitOrderBook
