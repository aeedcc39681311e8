import LimitOrderBook.Engine.Overflow
import LimitOrderBook.Refinement.Exec

/-!
# `Refinement.Overflow` — which calls wrap

The source computes with machine integers that wrap in a release build. `Engine.Overflow` says which operations are
exact; here it is shown when those of a call are.

A level caches the sum of its queue, modulo `2 ^ 64` in any case (`Store.total_modEq`). While the sum fits a `u64` the
cache is the sum (`Store.total_eq_iff`), and taking from the queue cannot wrap: an order has no more than its queue
(`Store.subExact`). So an iteration of the inner loop is exact on a queue that fits, and `drainExact` and
`matchLoopExact` carry this through the loops, because a fill only makes a queue smaller (`depth_fillQueue`).

The lemmas about the calls follow. A removal never wraps (`removeOrderByIdExact`), and submitting an order wraps only
where what is left of it joins a queue without room for it (`restOrderExact`, `matchIncomingExact`).
-/

namespace LimitOrderBook

/-- What is left of a queue has no more than the queue had. -/
theorem depth_fillQueue (taker : OrderId) (price : Price) (xs : List Order) (left : Quantity) :
    depth (fillQueue taker price xs left).1 ≤ depth xs := by
  induction xs generalizing left with
  | nil => exact le_refl _
  | cons maker rest ih =>
      by_cases h0 : left = 0
      · rw [h0, fillQueue_of_zero]
      by_cases hle : maker.remainingQty ≤ left
      · rw [fillQueue_of_le h0 hle, depth_cons]
        have := ih (left - maker.remainingQty)
        dsimp only
        omega
      · rw [fillQueue_of_not_le h0 hle, depth_cons, depth_cons]
        have hlt : left ≤ maker.remainingQty := UInt64.le_of_lt (UInt64.not_le.mp hle)
        have hsub := UInt64.toNat_sub_of_le _ _ hlt
        dsimp only
        omega

/-! ## One level -/

section Level

variable {a : OrderArena} {index : SlotIndex} {levelAt : Side → Price → PriceLevel}
  {queue : Side → Price → List Order} {s : Side} {p : Price}

theorem Store.total_modEq (h : Store a index levelAt queue) (s : Side) (p : Price) :
    (levelAt s p).totalQuantity.toNat ≡ depth (queue s p) [MOD 2 ^ 64] := by
  obtain ⟨slots, free, hw, hq⟩ := h
  rw [hq]
  exact (hw.level s p).total_modEq

/-- **A depth that fits is cached exactly**, and no other is. -/
theorem Store.total_eq_iff (h : Store a index levelAt queue) (s : Side) (p : Price) :
    (levelAt s p).totalQuantity.toNat = depth (queue s p) ↔ depth (queue s p) < 2 ^ 64 := by
  have hlt := (levelAt s p).totalQuantity.toNat_lt
  constructor
  · intro heq
    rw [← heq]
    exact hlt
  · intro hfits
    exact (h.total_modEq s p).eq_of_lt_of_lt hlt hfits

/-- Taking from an order of the queue does not wrap the total. -/
theorem Store.subExact (h : Store a index levelAt queue) (hfits : depth (queue s p) < 2 ^ 64) {o : Order}
    (ho : o ∈ queue s p) {q : Quantity} (hq : q ≤ o.remainingQty) :
    SubExact (levelAt s p).totalQuantity q := by
  have htotal := (h.total_eq_iff s p).mpr hfits
  have hmem := le_depth ho
  have hle := UInt64.le_iff_toNat_le.mp hq
  exact UInt64.le_iff_toNat_le.mpr (by omega)

end Level

/-! ## The loops -/

namespace Trading

variable {lv : Side → Price → PriceLevel} {qu : Side → Price → List Order} {s : Side} {p : Price}
  {c : LevelCursor} {o : Order} {xs : List Order}

theorem subExact (h : Trading lv qu s p c xs) (hfits : depth xs < 2 ^ 64) (ho : o ∈ xs) {q : Quantity}
    (hq : q ≤ o.remainingQty) : SubExact c.level.totalQuantity q := by
  have hstore : Store c.arena c.orderSlots (setAt lv s p c.level) (setAt qu s p xs) := h
  have hexact := hstore.subExact (s := s) (p := p) (o := o) (q := q)
  rw [setAt_self, setAt_self] at hexact
  exact hexact hfits ho hq

/-- **Trading with the head** does not wrap. -/
theorem tradeHeadExact (h : Trading lv qu s p c (o :: xs)) (hfits : depth (o :: xs) < 2 ^ 64) {t : Slot}
    (ht : c.level.head = some t) : c.TradeHeadExact t := by
  have hsplit : setAt qu s p (o :: xs) s p = [] ++ o :: xs := setAt_self
  obtain ⟨t', n, level, a₁, a₂, -, hget, rfl, hhead, -⟩ := Store.take h hsplit
  rw [setAt_self, ht] at hhead
  obtain rfl : t = t' := Option.some.inj (hhead rfl)
  intro node hnode
  rw [hget] at hnode
  cases hnode
  dsimp only
  have hmem : n.order ∈ n.order :: xs := List.mem_cons_self
  by_cases hle : n.order.remainingQty ≤ c.incoming.remainingQty
  · rw [tradedQty_of_le hle]
    refine ⟨hle, ?_⟩
    rw [if_pos rfl]
    intro node hnode
    rw [hget] at hnode
    cases hnode
    exact h.subExact hfits hmem (UInt64.le_refl _)
  · have hless : c.incoming.remainingQty ≤ n.order.remainingQty := UInt64.le_of_lt (UInt64.not_le.mp hle)
    have hne : c.incoming.remainingQty ≠ n.order.remainingQty := fun heq => hle (heq ▸ UInt64.le_refl _)
    rw [tradedQty_of_not_le hle]
    refine ⟨UInt64.le_refl _, ?_⟩
    rw [if_neg hne]
    exact ⟨hless, h.subExact hfits hmem hless⟩

/-- **The inner loop** does not wrap. -/
theorem drainExact (h : Trading lv qu s p c xs) (hfits : depth xs < 2 ^ 64) (fuel : Nat) :
    LevelCursor.DrainExact p fuel c := by
  induction fuel generalizing c xs with
  | zero => trivial
  | succ fuel ih =>
      intro hopen t ht
      cases xs with
      | nil =>
          have hempty := (Store.isEmpty_iff h).mpr (setAt_self (f := qu) (s := s) (p := p))
          rw [setAt_self] at hempty
          rw [Option.isNone_iff_eq_none.mp hempty] at ht
          cases ht
      | cons o xs =>
          refine ⟨h.tradeHeadExact hfits ht, ?_⟩
          intro c' hc'
          by_cases hle : o.remainingQty ≤ c.incoming.remainingQty
          · obtain ⟨t', level, arena, hhead, htrade, htrading, -⟩ := h.tradeHead_filled hle
            rw [ht] at hhead
            cases hhead
            rw [htrade] at hc'
            cases hc'
            rw [depth_cons] at hfits
            exact ih htrading (by omega)
          · obtain ⟨t', level, arena, hhead, htrade, htrading, -⟩ := h.tradeHead_partial hle
            rw [ht] at hhead
            cases hhead
            rw [htrade] at hc'
            cases hc'
            have hless : c.incoming.remainingQty ≤ o.remainingQty := UInt64.le_of_lt (UInt64.not_le.mp hle)
            have hsub := UInt64.toNat_sub_of_le _ _ hless
            rw [depth_cons] at hfits
            refine ih htrading ?_
            rw [depth_cons]
            dsimp only
            omega

end Trading

namespace Refines

variable {b : OrderBook} {r : ReferenceBook} {s : Side} {p : Price} {incoming : Order}

/-- Matching at a level whose queue fits is exact. -/
theorem matchAtLevelExact (h : Refines b r) (hfits : depth (r.queue s p) < 2 ^ 64) (incoming : Order)
    (trades : List Trade) : b.MatchAtLevelExact s p incoming trades := by
  intro level hlevel
  have hstart : Trading b.levelAt r.queue s p ⟨level, b.arena, b.orderSlots, incoming, trades⟩ (r.queue s p) := by
    unfold Trading
    rw [setAt_eq_self (OrderBook.levelAt_of_some hlevel), setAt_eq_self rfl]
    exact h.holds.store
  exact hstart.drainExact hfits _

/-- **The outer loop** does not wrap. -/
theorem matchLoopExact {best : OrderBook → Option Price} {beyond : Price → Price → Bool}
    (hbest : ∀ b r, Refines b r → best b = (r.ladder s).best) (h : Refines b r)
    (hfits : ∀ p, depth (r.queue s p) < 2 ^ 64) (fuel : Nat) (trades : List Trade) :
    OrderBook.MatchLoopExact s best beyond fuel b incoming trades := by
  induction fuel generalizing b r incoming trades with
  | zero => trivial
  | succ fuel ih =>
      intro _ p hp _
      refine ⟨h.matchAtLevelExact (hfits p) incoming trades, ?_⟩
      intro b' incoming' trades' hmatch
      have hne : r.queue s p ≠ [] := by
        rw [hbest b r h] at hp
        unfold Ladder.best at hp
        obtain ⟨l, hl, rfl⟩ := Option.map_eq_some_iff.mp hp
        obtain ⟨hne, hqueue⟩ := Ladder.mem_levels.mp (List.mem_of_mem_head? hl : (l.1, l.2) ∈ _)
        rw [show r.queue s l.1 = l.2 from hqueue]
        exact hne
      obtain ⟨b'', hmatch', h'⟩ := h.matchAtLevel hne incoming trades
      rw [hmatch'] at hmatch
      cases hmatch
      refine ih h' ?_ _
      intro q
      rw [ReferenceBook.queue_setQueue]
      by_cases hq : s = s ∧ q = p
      · rw [hq.2, setAt_self]
        exact (depth_fillQueue _ _ _ _).trans_lt (hfits p)
      · rw [setAt_of_ne hq]
        exact hfits q

/-! ## The calls -/

/-- **Resting an order** is exact when the queue has room for it. -/
theorem restOrderExact (h : Refines b r) {o : Order} (hfits : depth (r.queue o.side o.price) < 2 ^ 64)
    (hroom : r.restingOrderCount < 2 ^ 32) :
    b.RestOrderExact o ↔ depth (r.queue o.side o.price) + o.remainingQty.toNat < 2 ^ 64 := by
  have htotal := (h.holds.store.total_eq_iff o.side o.price).mpr hfits
  obtain ⟨slots, free, hw, -⟩ := h.holds.store
  obtain ⟨a, t, free', hinsert, -, hnode, -⟩ := OrderArena.insert_spec hw.free (h.count.trans_lt hroom) o
  have hget : a.get t = .ok ⟨o, none, none⟩ := by
    apply OrderArena.get_eq
    rw [hnode, Function.update_self]
  rw [← htotal]
  constructor
  · intro hexact
    exact hexact a t hinsert _ hget
  · intro hadd a' t' hinsert' node hnode'
    rw [hinsert] at hinsert'
    cases hinsert'
    rw [hget] at hnode'
    cases hnode'
    exact hadd

/-- **Removing an order** does not wrap. -/
theorem removeOrderByIdExact (h : Refines b r) (hfits : ∀ s p, depth (r.queue s p) < 2 ^ 64) (id : OrderId) :
    b.RemoveOrderByIdExact id := by
  intro t node level ht hnode hlevel
  obtain ⟨o, ho, -, hmem⟩ := h.holds.store.of_index ht
  obtain ⟨n, hn, rfl⟩ := Option.map_eq_some_iff.mp ho
  rw [OrderArena.get_eq hn] at hnode
  cases hnode
  intro node hnode
  rw [OrderArena.get_eq hn] at hnode
  cases hnode
  rw [← OrderBook.levelAt_of_some hlevel]
  exact h.holds.store.subExact (hfits _ _) hmem (UInt64.le_refl _)

/-- **Submitting an order** is exact when what comes to rest fits its queue. -/
theorem matchIncomingExact (h : Refines b r) (hfits : ∀ s p, depth (r.queue s p) < 2 ^ 64)
    (hroom : (r.submit incoming).1.restingOrderCount ≤ 2 ^ 32) :
    b.MatchIncomingExact incoming
      ↔ (r.swept incoming ≠ 0 →
          depth (r.queue incoming.side incoming.price) + (r.swept incoming).toNat < 2 ^ 64) := by
  rw [OrderBook.matchIncomingExact_eq]
  obtain ⟨b₁, hloop, h₁⟩ := h.loopSweeps incoming
  have hown : ∀ p, (r.setLadder incoming.side.opposite (ReferenceBook.sweepSide incoming
      (r.ladder incoming.side.opposite)).1).queue incoming.side p = r.queue incoming.side p := by
    intro p
    unfold ReferenceBook.queue
    rw [ReferenceBook.ladder_setLadder_opposite]
  have hrest : r.swept incoming ≠ 0 →
      (b₁.RestOrderExact { incoming with remainingQty := r.swept incoming }
        ↔ depth (r.queue incoming.side incoming.price) + (r.swept incoming).toNat < 2 ^ 64) := by
    intro hleft
    rw [← hown]
    refine h₁.restOrderExact (o := { incoming with remainingQty := r.swept incoming }) ?_ ?_
    · rw [hown]
      exact hfits _ _
    · have hleft' : ¬(ReferenceBook.sweepSide incoming (r.ladder incoming.side.opposite)).2.1 = 0 := hleft
      unfold ReferenceBook.submit at hroom
      dsimp only at hroom
      rw [if_neg hleft', ReferenceBook.restingOrderCount_push] at hroom
      omega
  constructor
  · rintro ⟨-, hexact⟩ hleft
    exact (hrest hleft).mp (hexact _ _ _ hloop (mt Order.isFilled_iff.mp hleft))
  · intro hadd
    refine ⟨matchLoopExact (fun _ _ h => h.bestPrice_eq _) h (hfits _) _ _, ?_⟩
    intro b' incoming' trades' hloop' hopen
    rw [hloop] at hloop'
    cases hloop'
    have hleft : r.swept incoming ≠ 0 := fun h0 => hopen (Order.isFilled_iff.mpr h0)
    exact (hrest hleft).mpr (hadd hleft)

end Refines

end LimitOrderBook
