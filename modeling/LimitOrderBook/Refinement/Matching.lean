import LimitOrderBook.Engine.Matching
import LimitOrderBook.Refinement.Book

/-!
# `Refinement.Matching` — the matching loops refine the sweep of the reference book

The source matches an order with two nested loops: the outer one takes the best price of the opposite side, the inner
one trades against the head of the queue at this price. In the reference book both are recursions on lists,
`sweepSide` on the levels of a ladder and `fillQueue` on a queue.

* **The inner loop.** `Trading` is the state in its middle, when the level is borrowed from its ladder and its queue
  is partly consumed. An iteration either fills the head, which is then unlinked and removed (`tradeHead_filled`), or
  fills the incoming order (`tradeHead_partial`). `drain` is by induction on the queue.
* **The outer loop.** `Refines.matchAtLevel` is one iteration: it borrows a level, drains it and writes it back.
  `LoopSweeps` is what is shown of the loop, and `Refines.matchLoop` is by induction on the levels of the ladder, with
  the two reasons to stop, a filled order and a price beyond the limit, in `loopSweeps_of_stop`.
-/

namespace LimitOrderBook

/-! ## The inner loop -/

namespace LevelCursor

/-- The cursor after a trade that filled the head `o` of the queue. -/
def filled (c : LevelCursor) (p : Price) (o : Order) (level : PriceLevel) (arena : OrderArena) :
    LevelCursor where
  level := level
  arena := arena
  orderSlots := c.orderSlots.erase o.id
  incoming := { c.incoming with remainingQty := c.incoming.remainingQty - o.remainingQty }
  trades := c.trades ++ [⟨o.id, c.incoming.id, p, o.remainingQty⟩]

/-- The cursor after a trade that filled the incoming order but not the head `o` of the queue. -/
def stopped (c : LevelCursor) (p : Price) (o : Order) (level : PriceLevel) (arena : OrderArena) :
    LevelCursor where
  level := level
  arena := arena
  orderSlots := c.orderSlots
  incoming := { c.incoming with remainingQty := 0 }
  trades := c.trades ++ [⟨o.id, c.incoming.id, p, c.incoming.remainingQty⟩]

end LevelCursor

/-- In the middle of matching at `s`, `p`: the store with the borrowed level and what is left of its
    queue. `lv` and `qu` are the levels and queues of the book when matching at this price began. -/
def Trading (lv : Side → Price → PriceLevel) (qu : Side → Price → List Order) (s : Side) (p : Price)
    (c : LevelCursor) (xs : List Order) : Prop :=
  Store c.arena c.orderSlots (setAt lv s p c.level) (setAt qu s p xs)

namespace Trading

variable {lv : Side → Price → PriceLevel} {qu : Side → Price → List Order} {s : Side} {p : Price}
  {c : LevelCursor} {o : Order} {xs : List Order}

/-- The head is filled when it has no more than what is left to trade. -/
theorem tradedQty_of_le {left qty : Quantity} (h : qty ≤ left) : min left qty = qty := by
  show (if left ≤ qty then left else qty) = qty
  by_cases hle : left ≤ qty
  · rw [if_pos hle]
    exact UInt64.le_antisymm hle h
  · rw [if_neg hle]

/-- Otherwise the incoming order is. -/
theorem tradedQty_of_not_le {left qty : Quantity} (h : ¬qty ≤ left) : min left qty = left := by
  show (if left ≤ qty then left else qty) = left
  rw [if_pos (UInt64.le_of_lt (UInt64.not_le.mp h))]

/-- **Trading against a head that is filled** takes it out of the queue. -/
theorem tradeHead_filled (h : Trading lv qu s p c (o :: xs))
    (hle : o.remainingQty ≤ c.incoming.remainingQty) :
    ∃ t level arena, c.level.head = some t
      ∧ c.tradeHead p t = .ok (c.filled p o level arena)
      ∧ Trading lv qu s p (c.filled p o level arena) xs
      ∧ arena.len + 1 = c.arena.len ∧ arena.entries.size = c.arena.entries.size := by
  have hsplit : setAt qu s p (o :: xs) s p = [] ++ o :: xs := setAt_self
  obtain ⟨t, n, level, a₁, a₂, -, hget, rfl, hhead, hunlink, hremove, -, hlen, hsize, hstore⟩ :=
    Store.take h hsplit
  rw [setAt_self] at hhead hunlink
  rw [setAt_setAt, setAt_setAt] at hstore
  refine ⟨t, level, a₂, hhead rfl, ?_, hstore, hlen, hsize⟩
  unfold LevelCursor.tradeHead
  simp only [hget, Machine.ok_bind, tradedQty_of_le hle, if_true, hunlink, hremove]
  rfl

/-- **Trading against a head that is not filled** leaves it there with less, and fills the incoming
    order. -/
theorem tradeHead_partial (h : Trading lv qu s p c (o :: xs))
    (hle : ¬o.remainingQty ≤ c.incoming.remainingQty) :
    ∃ t level arena, c.level.head = some t
      ∧ c.tradeHead p t = .ok (c.stopped p o level arena)
      ∧ Trading lv qu s p (c.stopped p o level arena)
          ({ o with remainingQty := o.remainingQty - c.incoming.remainingQty } :: xs)
      ∧ arena.len = c.arena.len ∧ arena.entries.size = c.arena.entries.size := by
  have hsplit : setAt qu s p (o :: xs) s p = o :: xs := setAt_self
  obtain ⟨t, n, a₁, hhead, hget, rfl, hwrite, hlen, hsize, hstore⟩ :=
    Store.reduce h hsplit c.incoming.remainingQty
  rw [setAt_self] at hhead
  rw [setAt_setAt, setAt_setAt, setAt_self] at hstore
  have hne : c.incoming.remainingQty ≠ n.order.remainingQty := by
    intro he
    exact hle (he ▸ UInt64.le_refl _)
  refine ⟨t, _, a₁, hhead, ?_, hstore, hlen, hsize⟩
  unfold LevelCursor.tradeHead
  simp only [hget, Machine.ok_bind, tradedQty_of_not_le hle, if_neg hne, hwrite, UInt64.sub_self]
  rfl

/-- **The inner loop is `fillQueue`.** -/
theorem drain (h : Trading lv qu s p c xs) {fuel : Nat} (hfuel : xs.length ≤ fuel) :
    ∃ c', LevelCursor.drain p fuel c = .ok c'
      ∧ Trading lv qu s p c' (fillQueue c.incoming.id p xs c.incoming.remainingQty).1
      ∧ c'.incoming = { c.incoming with
          remainingQty := (fillQueue c.incoming.id p xs c.incoming.remainingQty).2.1 }
      ∧ c'.trades = c.trades ++ (fillQueue c.incoming.id p xs c.incoming.remainingQty).2.2
      ∧ c'.arena.len + xs.length
          = c.arena.len + (fillQueue c.incoming.id p xs c.incoming.remainingQty).1.length := by
  induction xs generalizing fuel c with
  | nil =>
      have hhead : c.level.head = none := by
        have hempty := (Store.isEmpty_iff h).mpr (setAt_self (f := qu) (s := s) (p := p))
        rw [setAt_self] at hempty
        exact Option.isNone_iff_eq_none.mp hempty
      exact ⟨c, LevelCursor.drain_of_empty hhead, h, rfl, (List.append_nil _).symm, rfl⟩
  | cons o xs ih =>
      by_cases hzero : c.incoming.remainingQty = 0
      · -- nothing left to trade
        have hdrain : LevelCursor.drain p fuel c = .ok c :=
          LevelCursor.drain_of_filled (Order.isFilled_iff.mpr hzero)
        rw [hzero, fillQueue_of_zero]
        refine ⟨c, hdrain, h, ?_, (List.append_nil _).symm, rfl⟩
        rw [← hzero]
      · have hopen : ¬c.incoming.isFilled = true := mt Order.isFilled_iff.mp hzero
        obtain ⟨fuel, rfl⟩ : ∃ n, fuel = n + 1 := ⟨fuel - 1, by simp at hfuel; omega⟩
        by_cases hle : o.remainingQty ≤ c.incoming.remainingQty
        · -- the head is filled, and the loop goes on with the rest of the queue
          obtain ⟨t, level, arena, hhead, htrade, htrading, hlen, -⟩ := h.tradeHead_filled hle
          obtain ⟨c', hdrain, htrading', hincoming, htrades, hcount⟩ :=
            ih htrading (Nat.le_of_succ_le_succ hfuel)
          rw [fillQueue_of_le hzero hle]
          refine ⟨c', (LevelCursor.drain_of_go hopen hhead htrade).trans hdrain, htrading', hincoming, ?_, ?_⟩
          · rw [htrades]
            show c.trades ++ [_] ++ _ = _
            rw [List.append_assoc]
            rfl
          · have hcount : c'.arena.len + xs.length = arena.len + (fillQueue c.incoming.id p xs
                (c.incoming.remainingQty - o.remainingQty)).1.length := hcount
            dsimp only
            rw [List.length_cons]
            omega
        · -- the incoming order is filled
          obtain ⟨t, level, arena, hhead, htrade, htrading, hlen, -⟩ := h.tradeHead_partial hle
          rw [fillQueue_of_not_le hzero hle]
          have hstopped : LevelCursor.drain p fuel (c.stopped p o level arena)
              = .ok (c.stopped p o level arena) := LevelCursor.drain_of_filled rfl
          refine ⟨_, (LevelCursor.drain_of_go hopen hhead htrade).trans hstopped, htrading, rfl, rfl, ?_⟩
          show arena.len + (xs.length + 1) = c.arena.len + (xs.length + 1)
          rw [hlen]

end Trading

/-! ## The outer loop -/

theorem OrderBook.beyondLimit_iff {s : Side} {price limit : Price} :
    beyondLimit s price limit = true ↔ ¬s.crosses limit price := by
  cases s <;> simp [beyondLimit, Side.crosses]

namespace Refines

variable {b : OrderBook} {r : ReferenceBook} {s : Side} {p : Price} {incoming : Order}

/-- A change of one queue that brings no new ids keeps the refinement. -/
theorem setQueue {b' : OrderBook} {xs : List Order} (h : Refines b r)
    (hholds : Holds b' (setAt r.queue s p xs)) (hseen : b'.seenOrderIds = b.seenOrderIds)
    (hids : ∀ o ∈ xs, o.id ∈ r.accepted)
    (hcount : b'.arena.len + (r.queue s p).length = b.arena.len + xs.length) :
    Refines b' (r.setLadder s ((r.ladder s).setQueue p xs)) := by
  have hqueue := r.queue_setQueue s p xs
  refine ⟨by rw [hqueue]; exact hholds, ?_, ?_, ?_⟩
  · rw [hseen, h.seen, ReferenceBook.accepted_setLadder]
  · intro o ho
    rw [ReferenceBook.accepted_setLadder]
    obtain ⟨t, q, ho⟩ := ReferenceBook.mem_orders.mp ho
    rw [hqueue] at ho
    by_cases htq : t = s ∧ q = p
    · rw [htq.1, htq.2, setAt_self] at ho
      exact hids o ho
    · rw [setAt_of_ne htq] at ho
      exact h.known o (ReferenceBook.mem_orders.mpr ⟨t, q, ho⟩)
  · have := r.restingOrderCount_setQueue s p xs
    have := h.count
    omega

/-- **Matching at one price** is `fillQueue` on the queue of that price. -/
theorem matchAtLevel (h : Refines b r) (hne : r.queue s p ≠ []) (incoming : Order)
    (trades : List Trade) :
    ∃ b', b.matchAtLevel s p incoming trades = .ok (b',
        { incoming with
          remainingQty := (fillQueue incoming.id p (r.queue s p) incoming.remainingQty).2.1 },
        trades ++ (fillQueue incoming.id p (r.queue s p) incoming.remainingQty).2.2)
      ∧ Refines b' (r.setLadder s ((r.ladder s).setQueue p
          (fillQueue incoming.id p (r.queue s p) incoming.remainingQty).1)) := by
  have hstart : Trading b.levelAt r.queue s p
      ⟨b.levelAt s p, b.arena, b.orderSlots, incoming, trades⟩ (r.queue s p) := by
    unfold Trading
    rw [setAt_eq_self rfl, setAt_eq_self rfl]
    exact h.holds.store
  obtain ⟨c, hdrain, htrading, hincoming, htrades, hcount⟩ :=
    hstart.drain (Nat.le_succ_of_le (h.holds.store.length_le_size s p))
  dsimp only at htrading hincoming htrades hcount
  have hholds : Holds (OrderBook.putLevel { b with arena := c.arena, orderSlots := c.orderSlots } s p
      c.level) (setAt r.queue s p _) := Holds.putLevel htrading h.holds.opened
  refine ⟨_, ?_, h.setQueue hholds ?_ ?_ ?_⟩
  · unfold OrderBook.matchAtLevel
    rw [h.holds.getElem?_eq hne]
    simp only [hdrain, Machine.ok_bind, hincoming, htrades, Machine.pure_eq_ok]
  · cases s <;> rfl
  · intro o ho
    obtain ⟨o', ho', hid⟩ := mem_fillQueue ho
    rw [← hid]
    exact h.known o' (ReferenceBook.mem_orders.mpr ⟨s, p, ho'⟩)
  · rw [OrderBook.arena_putLevel]
    exact hcount

section Loop

variable {best : OrderBook → Option Price} {beyond : Price → Price → Bool} {fuel : Nat}
  {trades : List Trade}

/-- The loop from `b` ends as the sweep from `r` does. -/
def LoopSweeps (s : Side) (best : OrderBook → Option Price) (beyond : Price → Price → Bool)
    (fuel : Nat) (b : OrderBook) (r : ReferenceBook) (incoming : Order) (trades : List Trade) : Prop :=
  ∃ b', OrderBook.matchLoop s best beyond fuel b incoming trades = .ok (b',
      { incoming with remainingQty := (ReferenceBook.sweepSide incoming (r.ladder s)).2.1 },
      trades ++ (ReferenceBook.sweepSide incoming (r.ladder s)).2.2)
    ∧ Refines b' (r.setLadder s (ReferenceBook.sweepSide incoming (r.ladder s)).1)

/-- A loop that does not go on matches a sweep that does not. -/
theorem loopSweeps_of_stop (h : Refines b r)
    (hloop : OrderBook.matchLoop s best beyond fuel b incoming trades = .ok (b, incoming, trades))
    (hstop : ∀ p, (r.ladder s).best = some p →
      incoming.remainingQty = 0 ∨ ¬incoming.side.crosses incoming.price p) :
    LoopSweeps s best beyond fuel b r incoming trades := by
  unfold LoopSweeps
  rw [ReferenceBook.sweepSide_of_stop hstop, ReferenceBook.setLadder_ladder, List.append_nil]
  exact ⟨b, hloop, h⟩

/-- **The outer loop is the sweep** of the reference ladder. `best` reads the best price of the maker
    side and `beyond` is the test that ends the loop. -/
theorem matchLoop (hbest : ∀ b r, Refines b r → best b = (r.ladder s).best)
    (hbeyond : ∀ price, beyond price incoming.price = true
      ↔ ¬incoming.side.crosses incoming.price price)
    (h : Refines b r) (hfuel : (r.ladder s).levels.length ≤ fuel) :
    LoopSweeps s best beyond fuel b r incoming trades := by
  generalize hlevels : (r.ladder s).levels = levels at hfuel
  induction levels generalizing b r incoming trades fuel with
  | nil =>
      have hnone : (r.ladder s).best = none := by
        unfold Ladder.best
        rw [hlevels]
        rfl
      -- no price is left on the maker side
      refine loopSweeps_of_stop h (OrderBook.matchLoop_of_none ((hbest b r h).trans hnone)) ?_
      intro p hp
      rw [hnone] at hp
      exact absurd hp (by simp)
  | cons m rest ih =>
      obtain ⟨p, xs⟩ := m
      have hsome : (r.ladder s).best = some p := by
        unfold Ladder.best
        rw [hlevels]
        rfl
      by_cases h0 : incoming.remainingQty = 0
      · exact loopSweeps_of_stop h (OrderBook.matchLoop_of_filled (Order.isFilled_iff.mpr h0))
          fun _ _ => Or.inl h0
      by_cases hcross : incoming.side.crosses incoming.price p
      · have hgo : beyond p incoming.price = false := by
          rw [← Bool.not_eq_true, hbeyond]
          exact not_not_intro hcross
        have hmem : (p, xs) ∈ (r.ladder s).levels := by rw [hlevels]; exact List.mem_cons_self
        obtain ⟨hne, hqueue⟩ := Ladder.mem_levels.mp hmem
        have hxs : r.queue s p = xs := hqueue
        obtain ⟨ys, left, ts, hfill⟩ :
            ∃ ys left ts, fillQueue incoming.id p xs incoming.remainingQty = (ys, left, ts) :=
          ⟨_, _, _, rfl⟩
        -- one iteration is one level of the sweep
        obtain ⟨b₁, hlevel, h₁⟩ := h.matchAtLevel (hxs ▸ hne) incoming trades
        rw [hxs, hfill] at hlevel h₁
        obtain ⟨fuel, rfl⟩ : ∃ n, fuel = n + 1 := ⟨fuel - 1, by simp at hfuel; omega⟩
        have hnext : LoopSweeps s best beyond fuel b₁ (r.setLadder s ((r.ladder s).setQueue p ys))
            { incoming with remainingQty := left } (trades ++ ts) := by
          by_cases hys : ys = []
          · -- the level is used up, and the loop goes on at the next price
            subst hys
            refine ih hbeyond h₁ ?_ (Nat.le_of_succ_le_succ hfuel)
            rw [ReferenceBook.ladder_setLadder, Ladder.levels_setQueue_best hlevels]
            rfl
          · -- the incoming order is filled
            have hleft : left = 0 := fillQueue_left hfill hys
            exact loopSweeps_of_stop h₁ (OrderBook.matchLoop_of_filled (Order.isFilled_iff.mpr hleft))
              fun _ _ => Or.inl hleft
        obtain ⟨b', hloop, h'⟩ := hnext
        rw [ReferenceBook.ladder_setLadder] at hloop h'
        rw [ReferenceBook.setLadder_setLadder] at h'
        unfold LoopSweeps
        rw [OrderBook.matchLoop_of_go (mt Order.isFilled_iff.mp h0) ((hbest b r h).trans hsome) hgo hlevel,
          ReferenceBook.sweepSide_of_go hlevels h0 hcross hfill]
        refine ⟨b', ?_, h'⟩
        rw [hloop, List.append_assoc]
      · -- the best price is beyond the limit
        refine loopSweeps_of_stop h
          (OrderBook.matchLoop_of_beyond ((hbest b r h).trans hsome) ((hbeyond p).mpr hcross)) ?_
        intro q hq
        rw [hsome] at hq
        cases hq
        exact Or.inr hcross

end Loop

/-- The price that the loop takes next is the best one of the reference ladder. -/
theorem bestPrice_eq (h : Refines b r) (s : Side) : OrderBook.bestPrice s b = (r.ladder s).best := by
  cases s with
  | buy => exact h.bestBid_eq
  | sell => exact h.bestAsk_eq

/-- The loop of an incoming order ends as the sweep of the opposite ladder does. -/
theorem loopSweeps (h : Refines b r) (incoming : Order) :
    LoopSweeps incoming.side.opposite (OrderBook.bestPrice incoming.side.opposite)
      (OrderBook.beyondLimit incoming.side) (b.levels incoming.side.opposite).size b r incoming [] :=
  h.matchLoop (fun _ _ h => h.bestPrice_eq _) (fun _ => OrderBook.beyondLimit_iff) (h.length_levels _).le

end Refines
end LimitOrderBook
