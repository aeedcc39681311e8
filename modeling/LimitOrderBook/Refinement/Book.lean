import LimitOrderBook.Refinement.Store
import LimitOrderBook.Reference.ReferenceBook

/-!
# `Refinement.Book` — when a book stands for a reference book

`Holds b queue` says that `b` stores exactly the orders `queue`, and that a price is in a ladder exactly when it has
orders. `Refines b r` adds what the two models share besides the queues: the ids that were accepted, and the number of
resting orders. It is the refinement relation of the development.

* **One level.** `Holds.putLevel` is how every operation that drains or fills a level ends: the level is written back,
  or leaves its ladder when its queue is empty. `Holds.levelOrders_eq` reads a level.
* **All levels.** `ordered` lists a side of the book from its best price on, and `Refines.ordered_eq` says that this
  list is the ladder of the reference book. So everything that a caller can read of a book is read off the reference:
  its best prices, its snapshot (`Refines.snapshot_eq`) and its order count.
-/

namespace LimitOrderBook

namespace OrderBook

/-- The level of a side and price; a price that is not in the ladder has the empty level. -/
def levelAt (b : OrderBook) (s : Side) (p : Price) : PriceLevel := ((b.levels s)[p]?).getD {}

/-- One side's levels, best price first: the order in which `snapshot` reads them. -/
def ordered (b : OrderBook) : Side → List (Price × PriceLevel)
  | .buy => b.bids.toList.reverse
  | .sell => b.asks.toList

/-- The list starts at the best price. -/
theorem ordered_sorted (b : OrderBook) (s : Side) :
    (b.ordered s).Pairwise fun x y => s.better x.1 y.1 := by
  cases s with
  | buy =>
      refine List.pairwise_reverse.mpr (b.bids.ordered_keys_toList.imp ?_)
      intro x y h
      exact Std.compare_eq_lt.mp h
  | sell =>
      apply b.asks.ordered_keys_toList.imp
      intro x y h
      exact Std.compare_eq_lt.mp h

theorem mem_ordered {b : OrderBook} {s : Side} {p : Price} {level : PriceLevel} :
    (p, level) ∈ b.ordered s ↔ (b.levels s)[p]? = some level := by
  cases s with
  | buy =>
      unfold ordered
      rw [List.mem_reverse]
      exact Std.ExtTreeMap.mem_toList_iff_getElem?_eq_some
  | sell => exact Std.ExtTreeMap.mem_toList_iff_getElem?_eq_some

theorem length_ordered (b : OrderBook) (s : Side) : (b.ordered s).length = (b.levels s).size := by
  cases s with
  | buy =>
      unfold ordered
      rw [List.length_reverse]
      exact Std.ExtTreeMap.length_toList
  | sell => exact Std.ExtTreeMap.length_toList

theorem bestBid_eq (b : OrderBook) : b.bestBid = ((b.ordered .buy).map Prod.fst).head? := by
  unfold bestBid ordered
  rw [List.map_reverse, Std.ExtTreeMap.map_fst_toList_eq_keys, List.head?_reverse]

theorem bestAsk_eq (b : OrderBook) : b.bestAsk = ((b.ordered .sell).map Prod.fst).head? := by
  unfold bestAsk ordered
  rw [Std.ExtTreeMap.map_fst_toList_eq_keys]

/-! ## Writing a level back -/

@[simp] theorem levels_setLevels_self (b : OrderBook) (s : Side) (l : Levels) :
    (b.setLevels s l).levels s = l := by cases s <;> rfl

theorem levels_setLevels_of_ne {b : OrderBook} {s t : Side} {l : Levels} (h : t ≠ s) :
    (b.setLevels s l).levels t = b.levels t := by
  cases s <;> cases t <;> first | rfl | exact absurd rfl h

@[simp] theorem arena_putLevel (b : OrderBook) (s : Side) (p : Price) (level : PriceLevel) :
    (b.putLevel s p level).arena = b.arena := by cases s <;> rfl

theorem levelAt_of_some {b : OrderBook} {s : Side} {p : Price} {level : PriceLevel}
    (h : (b.levels s)[p]? = some level) : b.levelAt s p = level := by
  unfold levelAt; rw [h]; rfl

theorem levelAt_setLevels_insert (b : OrderBook) (s : Side) (p : Price) (level : PriceLevel) :
    (b.setLevels s ((b.levels s).insert p level)).levelAt = setAt b.levelAt s p level := by
  funext t q
  by_cases ht : t = s
  · subst ht
    unfold levelAt
    rw [levels_setLevels_self, Std.ExtTreeMap.getElem?_insert]
    by_cases hq : q = p
    · subst hq; simp
    · have hne : ¬p = q := fun he => hq he.symm
      simp [setAt, hq, hne]
  · rw [setAt_of_ne fun h => ht h.1]
    unfold levelAt
    rw [levels_setLevels_of_ne ht]

theorem levelAt_setLevels_erase (b : OrderBook) (s : Side) (p : Price) :
    (b.setLevels s ((b.levels s).erase p)).levelAt = setAt b.levelAt s p {} := by
  funext t q
  by_cases ht : t = s
  · subst ht
    unfold levelAt
    rw [levels_setLevels_self, Std.ExtTreeMap.getElem?_erase]
    by_cases hq : q = p
    · subst hq; simp
    · have hne : ¬p = q := fun he => hq he.symm
      simp [setAt, hq, hne]
  · rw [setAt_of_ne fun h => ht h.1]
    unfold levelAt
    rw [levels_setLevels_of_ne ht]

/-- A price is in its ladder afterwards unless its level is empty. -/
theorem mem_levels_putLevel {b : OrderBook} {s t : Side} {p q : Price} {level : PriceLevel} :
    q ∈ (b.putLevel s p level).levels t
      ↔ if t = s ∧ q = p then level.isEmpty = false else q ∈ b.levels t := by
  unfold putLevel
  by_cases ht : t = s
  · subst ht
    rw [levels_setLevels_self]
    by_cases hq : q = p
    · subst hq
      cases hempty : level.isEmpty <;> simp
    · have hne : ¬p = q := fun he => hq he.symm
      cases hempty : level.isEmpty <;> simp [hq, hne]
  · rw [levels_setLevels_of_ne ht]
    simp [ht]

end OrderBook

/-! ## Books and queues -/

/-- `b` holds exactly the orders `queue`, and its ladders hold exactly the prices that have orders. -/
structure Holds (b : OrderBook) (queue : Side → Price → List Order) : Prop where
  store : Store b.arena b.orderSlots b.levelAt queue
  opened : ∀ s p, p ∈ b.levels s ↔ queue s p ≠ []

namespace Holds

variable {b b' : OrderBook} {queue queue' : Side → Price → List Order} {s : Side} {p : Price}

/-- What a book holds is a matter of its ladders, its arena and its index. -/
theorem congr (h : Holds b queue) (hlevels : b'.levels = b.levels) (harena : b'.arena = b.arena)
    (hindex : b'.orderSlots = b.orderSlots) : Holds b' queue := by
  have hlevelAt : b'.levelAt = b.levelAt := by
    funext s p
    unfold OrderBook.levelAt
    rw [hlevels]
  refine ⟨?_, ?_⟩
  · rw [harena, hindex, hlevelAt]
    exact h.store
  · rw [hlevels]
    exact h.opened

/-- A price with orders is in its ladder. -/
theorem getElem?_eq (h : Holds b queue) (hne : queue s p ≠ []) :
    (b.levels s)[p]? = some (b.levelAt s p) := by
  obtain ⟨level, hlevel⟩ := Option.isSome_iff_exists.mp
    (Std.ExtTreeMap.mem_iff_isSome_getElem?.mp ((h.opened s p).mpr hne))
  rw [OrderBook.levelAt_of_some hlevel, hlevel]

/-- **Writing a level back** after its queue changed: an empty level leaves its ladder. -/
theorem putLevel {level : PriceLevel} {xs : List Order}
    (hstore : Store b.arena b.orderSlots (setAt b.levelAt s p level) (setAt queue s p xs))
    (hopened : ∀ s p, p ∈ b.levels s ↔ queue s p ≠ []) :
    Holds (b.putLevel s p level) (setAt queue s p xs) := by
  have hempty : level.isEmpty = true ↔ xs = [] := by
    have := hstore.isEmpty_iff (s := s) (p := p)
    rwa [setAt_self, setAt_self] at this
  refine ⟨?_, ?_⟩
  · have harena : (b.putLevel s p level).arena = b.arena := by cases s <;> rfl
    have hindex : (b.putLevel s p level).orderSlots = b.orderSlots := by cases s <;> rfl
    have hlevels : (b.putLevel s p level).levelAt = setAt b.levelAt s p level := by
      unfold OrderBook.putLevel
      by_cases hl : level.isEmpty = true
      · have hdefault : level = {} := by
          have := hstore.eq_default (s := s) (p := p) (by rw [setAt_self]; exact hempty.mp hl)
          rwa [setAt_self] at this
        rw [if_pos hl, OrderBook.levelAt_setLevels_erase, hdefault]
      · rw [if_neg hl, OrderBook.levelAt_setLevels_insert]
    rw [harena, hindex, hlevels]
    exact hstore
  · intro t q
    rw [OrderBook.mem_levels_putLevel]
    by_cases htq : t = s ∧ q = p
    · rw [if_pos htq, htq.1, htq.2, setAt_self, ne_eq, ← hempty, Bool.not_eq_true]
    · rw [if_neg htq, setAt_of_ne htq]
      exact hopened t q

/-- Reading one level copies its queue. -/
theorem levelOrders_eq (h : Holds b queue) (s : Side) (p : Price) :
    b.levelOrders (b.levelAt s p) = .ok (queue s p) := h.store.walkOrders_eq s p

end Holds

/-! ## Books and reference books -/

namespace ReferenceBook

/-- The queue of a side and price. -/
def queue (r : ReferenceBook) (s : Side) (p : Price) : List Order := (r.ladder s).queueAt p

/-- The resting orders are those of the queues. -/
theorem mem_orders {r : ReferenceBook} {o : Order} : o ∈ r.orders ↔ ∃ s p, o ∈ r.queue s p := by
  unfold orders
  rw [List.mem_append, Ladder.mem_flat, Ladder.mem_flat]
  constructor
  · rintro (⟨p, ho⟩ | ⟨p, ho⟩)
    · exact ⟨.buy, p, ho⟩
    · exact ⟨.sell, p, ho⟩
  · rintro ⟨s, p, ho⟩
    cases s with
    | buy => exact Or.inl ⟨p, ho⟩
    | sell => exact Or.inr ⟨p, ho⟩

/-- Replacing one queue leaves the others. -/
theorem queue_setQueue (r : ReferenceBook) (s : Side) (p : Price) (xs : List Order) :
    (r.setLadder s ((r.ladder s).setQueue p xs)).queue = setAt r.queue s p xs := by
  funext t q
  unfold queue setAt
  cases s <;> cases t <;> simp [ladder, setLadder, Ladder.queueAt_setQueue]

/-- Setting a queue changes the order count by what the queue changes by. -/
theorem restingOrderCount_setQueue (r : ReferenceBook) (s : Side) (p : Price) (xs : List Order) :
    (r.setLadder s ((r.ladder s).setQueue p xs)).restingOrderCount + (r.queue s p).length
      = r.restingOrderCount + xs.length := by
  unfold restingOrderCount orders queue
  have hcount : ((r.ladder s).setQueue p xs).flat.length + ((r.ladder s).queueAt p).length
      = (r.ladder s).flat.length + xs.length := Ladder.length_flat_setQueue
  cases s with
  | buy =>
      simp only [ladder, setLadder, List.length_append] at hcount ⊢
      omega
  | sell =>
      simp only [ladder, setLadder, List.length_append] at hcount ⊢
      omega

theorem restingOrderCount_push (r : ReferenceBook) (s : Side) (p : Price) (o : Order) :
    (r.setLadder s ((r.ladder s).push p o)).restingOrderCount = r.restingOrderCount + 1 := by
  have hset := r.restingOrderCount_setQueue s p (r.queue s p ++ [o])
  rw [List.length_append, List.length_singleton] at hset
  have hpush : (r.ladder s).push p o = (r.ladder s).setQueue p (r.queue s p ++ [o]) := rfl
  rw [hpush]
  omega

end ReferenceBook

/-- **The refinement relation.** -/
structure Refines (b : OrderBook) (r : ReferenceBook) : Prop where
  holds : Holds b r.queue
  seen : b.seenOrderIds = r.accepted
  known : ∀ o ∈ r.orders, o.id ∈ r.accepted
  count : b.arena.len = r.restingOrderCount

namespace Refines

variable {b : OrderBook} {r : ReferenceBook}

/-- The ladder that `snapshot` reads is the reference ladder. -/
theorem ordered_eq (h : Refines b r) (s : Side) :
    (b.ordered s).map (fun l => (l.1, r.queue s l.1)) = (r.ladder s).levels := by
  refine Ladder.levels_unique (r := s.better) ?_ (r.ladder s).sorted ?_
  · exact List.pairwise_map.mpr (b.ordered_sorted s)
  · rintro ⟨p, xs⟩
    rw [Ladder.mem_levels, List.mem_map]
    constructor
    · rintro ⟨⟨q, level⟩, hmem, heq⟩
      injection heq with hp hxs
      subst hp
      subst hxs
      refine ⟨(h.holds.opened s q).mp ?_, rfl⟩
      rw [Std.ExtTreeMap.mem_iff_isSome_getElem?, OrderBook.mem_ordered.mp hmem]
      rfl
    · rintro ⟨hne, rfl⟩
      exact ⟨(p, b.levelAt s p), OrderBook.mem_ordered.mpr (h.holds.getElem?_eq hne), rfl⟩

theorem keys_eq (h : Refines b r) (s : Side) :
    (b.ordered s).map Prod.fst = (r.ladder s).levels.map Prod.fst := by
  rw [← h.ordered_eq s, List.map_map]
  rfl

/-- As many prices as the reference ladder has levels. -/
theorem length_levels (h : Refines b r) (s : Side) :
    (r.ladder s).levels.length = (b.levels s).size := by
  rw [← h.ordered_eq s, List.length_map, OrderBook.length_ordered]

theorem bestBid_eq (h : Refines b r) : b.bestBid = r.bestBid := by
  rw [OrderBook.bestBid_eq, h.keys_eq, List.head?_map]
  rfl

theorem bestAsk_eq (h : Refines b r) : b.bestAsk = r.bestAsk := by
  rw [OrderBook.bestAsk_eq, h.keys_eq, List.head?_map]
  rfl

theorem restingOrderCount_eq (h : Refines b r) : b.restingOrderCount = r.restingOrderCount := h.count

/-- Reading the levels one after the other gives the reference ladder. -/
theorem readLevels_eq (h : Refines b r) (s : Side) :
    b.readLevels (b.ordered s) = .ok (r.ladder s).levels := by
  rw [← h.ordered_eq s]
  apply Machine.mapM_eq_ok
  rintro ⟨p, level⟩ hmem
  have hlevel := OrderBook.levelAt_of_some (OrderBook.mem_ordered.mp hmem)
  dsimp only
  rw [← hlevel, h.holds.levelOrders_eq]
  rfl

/-- **The snapshot** of a book is the snapshot of the reference book. -/
theorem snapshot_eq (h : Refines b r) : b.snapshot = .ok r.snapshot := by
  have hbids := h.readLevels_eq .buy
  have hasks := h.readLevels_eq .sell
  unfold OrderBook.ordered at hbids hasks
  unfold OrderBook.snapshot
  rw [hbids, hasks]
  rfl

/-- A new book refines the empty reference book, whatever its configuration. -/
theorem withConfig (config : OrderBookConfig) : Refines (OrderBook.withConfig config) {} := by
  have hqueue : ReferenceBook.queue {} = fun _ _ => [] := by
    funext s p
    cases s <;> rfl
  have hlevelAt : (OrderBook.withConfig config).levelAt = fun _ _ => {} := by
    funext s p
    cases s <;> simp [OrderBook.levelAt, OrderBook.levels, OrderBook.withConfig]
  refine ⟨⟨?_, ?_⟩, rfl, ?_, rfl⟩
  · rw [hqueue, hlevelAt]
    exact Store.empty
  · intro s p
    rw [hqueue]
    cases s <;> simp [OrderBook.levels, OrderBook.withConfig]
  · intro o ho
    exact absurd ho (by simp [ReferenceBook.orders])

end Refines
end LimitOrderBook
