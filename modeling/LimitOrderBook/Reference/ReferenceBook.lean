import LimitOrderBook.Domain
import LimitOrderBook.Lib.Ladder

/-!
# `Reference.ReferenceBook` — what an order book is, with plain lists

What a limit order book does, in plain lists. Per side there is a price-sorted list of levels, each a price with its
queue of orders, plus the set of accepted ids. An incoming order trades against the head order of the best crossing
price, again and again, and what is left of it joins the back of the queue at its limit. There is no arena, no link
and no index; the engine is compared with this model, and nothing in it is read off the engine.

A side is a `Ladder` of the library, so a side out of order or with an empty level cannot be built. `fillQueue`
matches an order against one queue, and `sweepSide` against the levels from the best one until the order is filled,
the price is beyond its limit or the side is empty. `submit` is this sweep with what is left joining the own side. The
commands and the views are defined from these.

The lemmas at the end read a side back after a write, and give `sweepSide` one level at a time (`sweepSide_of_stop`,
`sweepSide_of_go`).
-/

namespace LimitOrderBook

/-- `s.better p q`: on side `s`, an order at price `p` trades before one at price `q`. -/
def Side.better : Side → Price → Price → Prop
  | .buy, p, q => q < p
  | .sell, p, q => p < q

instance (s : Side) : DecidableRel s.better := fun p q => by
  cases s <;> unfold Side.better <;> infer_instance

instance (s : Side) : IsStrictTotalOrder Price s.better where
  irrefl p := by cases s <;> exact UInt64.lt_irrefl p
  trans p q t := by
    cases s
    · exact fun h₁ h₂ => UInt64.lt_trans h₂ h₁
    · exact UInt64.lt_trans
  trichotomous p q := by
    cases s <;> simp only [Side.better, UInt64.not_lt]
    · exact fun h₁ h₂ => UInt64.le_antisymm h₁ h₂
    · exact fun h₁ h₂ => UInt64.le_antisymm h₂ h₁

/-- An incoming order of side `s` may trade at `price`: a buy at or below its limit, a sell at or above. -/
def Side.crosses : Side → (limit price : Price) → Prop
  | .buy, limit, price => price ≤ limit
  | .sell, limit, price => limit ≤ price

instance (s : Side) (limit price : Price) : Decidable (s.crosses limit price) := by
  cases s <;> unfold Side.crosses <;> infer_instance

/-- A price crosses unless the maker's side prefers the limit to it. -/
theorem Side.crosses_iff {s : Side} {limit price : Price} :
    s.crosses limit price ↔ ¬s.opposite.better limit price := by
  cases s <;> simp [Side.crosses, Side.opposite, Side.better]

/-- One side of the book. -/
abbrev SideLadder (s : Side) := Ladder s.better Order

structure ReferenceBook where
  bids : SideLadder .buy := Ladder.empty
  asks : SideLadder .sell := Ladder.empty
  accepted : Finset OrderId := ∅

/-- Trade `left` units of an incoming order against a queue, from its head. -/
def fillQueue (taker : OrderId) (price : Price) :
    List Order → Quantity → List Order × Quantity × List Trade
  | [], left => ([], left, [])
  | maker :: rest, left =>
      if left = 0 then (maker :: rest, 0, [])
      else if maker.remainingQty ≤ left then
        let (rest', left', trades) := fillQueue taker price rest (left - maker.remainingQty)
        (rest', left', ⟨maker.id, taker, price, maker.remainingQty⟩ :: trades)
      else
        ({ maker with remainingQty := maker.remainingQty - left } :: rest, 0,
          [⟨maker.id, taker, price, left⟩])

section FillQueue

variable {taker : OrderId} {price : Price} {maker : Order} {rest : List Order} {left : Quantity}

/-- A filled order takes nothing. -/
theorem fillQueue_of_zero (xs : List Order) : fillQueue taker price xs 0 = (xs, 0, []) := by
  cases xs <;> rfl

/-- A head that is filled leaves the queue. -/
theorem fillQueue_of_le (h0 : left ≠ 0) (hle : maker.remainingQty ≤ left) :
    fillQueue taker price (maker :: rest) left =
      ((fillQueue taker price rest (left - maker.remainingQty)).1,
        (fillQueue taker price rest (left - maker.remainingQty)).2.1,
        ⟨maker.id, taker, price, maker.remainingQty⟩
          :: (fillQueue taker price rest (left - maker.remainingQty)).2.2) := by
  rw [fillQueue, if_neg h0, if_pos hle]

/-- A head that is not filled stays, and nothing is left to trade. -/
theorem fillQueue_of_not_le (h0 : left ≠ 0) (hle : ¬maker.remainingQty ≤ left) :
    fillQueue taker price (maker :: rest) left =
      ({ maker with remainingQty := maker.remainingQty - left } :: rest, 0,
        [⟨maker.id, taker, price, left⟩]) := by
  rw [fillQueue, if_neg h0, if_neg hle]

/-- A queue that is not used up used up the incoming order. -/
theorem fillQueue_left {xs ys : List Order} {left' : Quantity} {trades : List Trade}
    (h : fillQueue taker price xs left = (ys, left', trades)) (hys : ys ≠ []) : left' = 0 := by
  induction xs generalizing left trades with
  | nil =>
      injection h with hnil
      exact absurd hnil.symm hys
  | cons maker rest ih =>
      by_cases h0 : left = 0
      · subst h0
        rw [fillQueue_of_zero] at h
        injection h with _ h
        injection h with h _
        exact h.symm
      · by_cases hle : maker.remainingQty ≤ left
        · rw [fillQueue_of_le h0 hle] at h
          injection h with hys' h
          injection h with hleft _
          exact ih (Prod.ext hys' (Prod.ext hleft rfl))
        · rw [fillQueue_of_not_le h0 hle] at h
          injection h with _ h
          injection h with h _
          exact h.symm

/-- What is left of a queue are orders that were in it. -/
theorem mem_fillQueue {xs : List Order} {o : Order} (h : o ∈ (fillQueue taker price xs left).1) :
    ∃ o' ∈ xs, o'.id = o.id := by
  induction xs generalizing left with
  | nil => exact absurd h (by simp [fillQueue])
  | cons maker rest ih =>
      by_cases h0 : left = 0
      · subst h0
        rw [fillQueue_of_zero] at h
        exact ⟨o, h, rfl⟩
      · by_cases hle : maker.remainingQty ≤ left
        · rw [fillQueue_of_le h0 hle] at h
          obtain ⟨o', ho', hid⟩ := ih h
          exact ⟨o', List.mem_cons_of_mem maker ho', hid⟩
        · rw [fillQueue_of_not_le h0 hle] at h
          rcases List.mem_cons.mp h with rfl | h
          · exact ⟨maker, List.mem_cons_self, rfl⟩
          · exact ⟨o, List.mem_cons_of_mem maker h, rfl⟩

end FillQueue

namespace ReferenceBook

def ladder (b : ReferenceBook) : (s : Side) → SideLadder s
  | .buy => b.bids
  | .sell => b.asks

def setLadder (b : ReferenceBook) : (s : Side) → SideLadder s → ReferenceBook
  | .buy, L => { b with bids := L }
  | .sell, L => { b with asks := L }

/-- Trade an incoming order against one side, from its best crossing price on. -/
def sweepSide (incoming : Order) {s : Side} (L : SideLadder s) :
    SideLadder s × Quantity × List Trade :=
  L.sweep (fun price left => left ≠ 0 ∧ incoming.side.crosses incoming.price price)
    (fillQueue incoming.id) incoming.remainingQty

/-- Match an incoming order and rest what is left of it. -/
def submit (b : ReferenceBook) (incoming : Order) : ReferenceBook × List Trade :=
  let (opposite, left, trades) := sweepSide incoming (b.ladder incoming.side.opposite)
  let b := b.setLadder incoming.side.opposite opposite
  if left = 0 then (b, trades)
  else
    (b.setLadder incoming.side
      ((b.ladder incoming.side).push incoming.price { incoming with remainingQty := left }), trades)

/-- What a sweep of the opposite side leaves of an incoming order. -/
def swept (r : ReferenceBook) (incoming : Order) : Quantity :=
  (sweepSide incoming (r.ladder incoming.side.opposite)).2.1

/-- The orders of the book: bids, then asks, best first. -/
def orders (b : ReferenceBook) : List Order := b.bids.flat ++ b.asks.flat

def find? (b : ReferenceBook) (id : OrderId) : Option Order := b.orders.find? fun o => o.id = id

/-- Take the order with an id out of the book. -/
def without (b : ReferenceBook) (id : OrderId) : ReferenceBook :=
  { b with
    bids := b.bids.filterMap (Option.guard fun o => o.id ≠ id)
    asks := b.asks.filterMap (Option.guard fun o => o.id ≠ id) }

def addOrder (b : ReferenceBook) (order : Order) : ReferenceBook × CommandResult :=
  if order.remainingQty = 0 then (b, .error .zeroQuantity)
  else if order.id ∈ b.accepted then (b, .error .duplicateOrderId)
  else
    let (b, trades) := { b with accepted := insert order.id b.accepted }.submit order
    (b, .ok trades)

def cancelOrder (b : ReferenceBook) (id : OrderId) : ReferenceBook × CommandResult :=
  match b.find? id with
  | none => (b, .error .unknownOrderId)
  | some _ => (b.without id, .ok [])

def modifyOrder (b : ReferenceBook) (id : OrderId) (newPrice : Price) (newQuantity : Quantity) :
    ReferenceBook × CommandResult :=
  if newQuantity = 0 then (b, .error .zeroQuantity)
  else match b.find? id with
    | none => (b, .error .unknownOrderId)
    | some old =>
        let (b, trades) := (b.without id).submit (Order.new id old.side newPrice newQuantity)
        (b, .ok trades)

def exec (b : ReferenceBook) : ScenarioCommand → ReferenceBook × CommandResult
  | .add order => b.addOrder order
  | .cancel id => b.cancelOrder id
  | .modify id newPrice newQuantity => b.modifyOrder id newPrice newQuantity

def snapshot (b : ReferenceBook) : BookSnapshot := { bids := b.bids.levels, asks := b.asks.levels }

def bestBid (b : ReferenceBook) : Option Price := b.bids.best

def bestAsk (b : ReferenceBook) : Option Price := b.asks.best

def restingOrderCount (b : ReferenceBook) : Nat := b.orders.length

/-! ## Reading a side back after a write -/

@[simp] theorem ladder_setLadder (b : ReferenceBook) (s : Side) (L : SideLadder s) :
    (b.setLadder s L).ladder s = L := by cases s <;> rfl

@[simp] theorem ladder_setLadder_opposite (b : ReferenceBook) (s : Side) (L : SideLadder s.opposite) :
    (b.setLadder s.opposite L).ladder s = b.ladder s := by cases s <;> rfl

@[simp] theorem ladder_opposite_setLadder (b : ReferenceBook) (s : Side) (L : SideLadder s) :
    (b.setLadder s L).ladder s.opposite = b.ladder s.opposite := by cases s <;> rfl

@[simp] theorem accepted_setLadder (b : ReferenceBook) (s : Side) (L : SideLadder s) :
    (b.setLadder s L).accepted = b.accepted := by cases s <;> rfl

/-- Removing an id filters every queue. -/
theorem ladder_without (b : ReferenceBook) (id : OrderId) (s : Side) :
    (b.without id).ladder s = (b.ladder s).filterMap (Option.guard fun o => o.id ≠ id) := by
  cases s <;> rfl

@[simp] theorem setLadder_ladder (b : ReferenceBook) (s : Side) : b.setLadder s (b.ladder s) = b := by
  cases s <;> rfl

@[simp] theorem setLadder_setLadder (b : ReferenceBook) (s : Side) (L M : SideLadder s) :
    (b.setLadder s L).setLadder s M = b.setLadder s M := by cases s <;> rfl

/-- Submitting sweeps the opposite side, and pushes what is left on its own. -/
theorem submit_eq (b : ReferenceBook) (incoming : Order) :
    b.submit incoming
      = (if b.swept incoming = 0 then
          b.setLadder incoming.side.opposite (sweepSide incoming (b.ladder incoming.side.opposite)).1
        else
          (b.setLadder incoming.side.opposite
            (sweepSide incoming (b.ladder incoming.side.opposite)).1).setLadder incoming.side
              (((b.setLadder incoming.side.opposite
                (sweepSide incoming (b.ladder incoming.side.opposite)).1).ladder incoming.side).push
                  incoming.price { incoming with remainingQty := b.swept incoming }),
        (sweepSide incoming (b.ladder incoming.side.opposite)).2.2) := by
  unfold submit swept
  dsimp only
  split <;> rfl

/-! ## Sweeping one level at a time -/

section Sweep

variable {incoming : Order} {s : Side} {L : SideLadder s}

/-- A filled order sweeps nothing, nor does one that the best price is beyond the limit of. -/
theorem sweepSide_of_stop (h : ∀ p, L.best = some p →
      incoming.remainingQty = 0 ∨ ¬incoming.side.crosses incoming.price p) :
    sweepSide incoming L = (L, incoming.remainingQty, []) := by
  unfold sweepSide
  apply Ladder.sweep_of_stop
  intro p hp
  rw [decide_eq_false_iff_not]
  rintro ⟨h0, hcross⟩
  exact (h p hp).elim h0 fun hno => hno hcross

/-- **One level of a sweep**: match at the best price, and sweep on with what is left. -/
theorem sweepSide_of_go {p : Price} {xs : List Order} {rest : List (Price × List Order)}
    (hL : L.levels = (p, xs) :: rest) (h0 : incoming.remainingQty ≠ 0)
    (hcross : incoming.side.crosses incoming.price p) {ys : List Order} {left : Quantity}
    {trades : List Trade}
    (hfill : fillQueue incoming.id p xs incoming.remainingQty = (ys, left, trades)) :
    sweepSide incoming L =
      ((sweepSide { incoming with remainingQty := left } (L.setQueue p ys)).1,
        (sweepSide { incoming with remainingQty := left } (L.setQueue p ys)).2.1,
        trades ++ (sweepSide { incoming with remainingQty := left } (L.setQueue p ys)).2.2) := by
  have hsweep := Ladder.sweep_of_go
    (fun price left => left ≠ 0 ∧ incoming.side.crosses incoming.price price) (fillQueue incoming.id)
    hL (decide_eq_true ⟨h0, hcross⟩)
  rw [hfill] at hsweep
  by_cases hys : ys = []
  · subst hys
    exact hsweep
  · -- the queue is not used up, so the incoming order is
    have hleft : left = 0 := fillQueue_left hfill hys
    subst hleft
    have hstop : sweepSide { incoming with remainingQty := 0 } (L.setQueue p ys)
        = (L.setQueue p ys, 0, []) := sweepSide_of_stop fun _ _ => Or.inl rfl
    rw [hstop]
    have hne : ¬ys.isEmpty = true := fun he => hys (List.isEmpty_iff.mp he)
    dsimp only at hsweep
    rw [if_neg hne] at hsweep
    rw [List.append_nil]
    exact hsweep

end Sweep

end ReferenceBook
end LimitOrderBook
