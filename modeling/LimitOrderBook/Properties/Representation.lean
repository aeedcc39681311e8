import LimitOrderBook.Refinement.Run

/-!
# `Properties.Representation` — the representation invariant and panic freedom

The representation invariant and panic freedom. `RepInv` is the invariant in the terms of the data structures alone:
the links of every queue in both directions, the index, the free list, the counters and the cached totals, with the
slots of every queue and the free slots named. No model of the book stands in it.

It is read off the refinement relation, which every run keeps (`Represents.repInv`). The same relation gives that no
command faults in a reachable book: every link that a call follows leads to an occupied slot.
`representation_invariant` has both, with the snapshot that returns and counts what rests.

The last part lists what rests in a book straight from the arena (`restingOrders`, `restingOn`), without walking a
level. These are the orders of the priority book, in another order (`perm_restingOrders`); results that compare a
snapshot with the book itself are stated by them.
-/

namespace LimitOrderBook

open OrderArena

namespace OrderArena

variable {a : OrderArena} {free : List Slot}

/-- The forward link of the node in a slot. -/
def next? (a : OrderArena) (s : Slot) : Option (Option Slot) := (a.node? s).map OrderNode.next

/-- The backward link of the node in a slot. -/
def prev? (a : OrderArena) (s : Slot) : Option (Option Slot) := (a.node? s).map OrderNode.prev

/-- All slots of the arena. -/
def slots (a : OrderArena) : List Slot := (List.range a.entries.size).map UInt32.ofNat

/-- The slots of an arena are the indices of its entries. -/
theorem mem_slots (h : a.entries.size ≤ 2 ^ 32) {s : Slot} :
    s ∈ a.slots ↔ s.toNat < a.entries.size := by
  unfold slots
  rw [List.mem_map]
  constructor
  · rintro ⟨i, hi, rfl⟩
    rw [List.mem_range] at hi
    rw [UInt32.toNat_ofNat_of_lt' (show i < 2 ^ 32 by omega)]
    exact hi
  · intro hs
    exact ⟨s.toNat, List.mem_range.mpr hs, UInt32.ofNat_toNat⟩

theorem nodup_slots (h : a.entries.size ≤ 2 ^ 32) : a.slots.Nodup := by
  unfold slots
  rw [List.nodup_map_iff_inj_on List.nodup_range]
  intro i hi j hj hij
  rw [List.mem_range] at hi hj
  have hi' := UInt32.toNat_ofNat_of_lt' (show i < 2 ^ 32 by omega)
  have hj' := UInt32.toNat_ofNat_of_lt' (show j < 2 ^ 32 by omega)
  rw [← hi', ← hj', hij]

/-- The slots that are not free are as many as the arena counts orders. -/
theorem FreeList.len_eq (h : a.FreeList free) :
    a.len = (a.slots.filter fun s => (a.node? s).isSome).length := by
  have hvacant : (a.slots.filter fun s => (a.nextFree? s).isSome).Perm free := by
    refine (List.perm_ext_iff_of_nodup ((nodup_slots h.fits).filter _) h.nodup).mpr ?_
    intro s
    rw [List.mem_filter, mem_slots h.fits, h.vacant]
    refine ⟨fun hs => hs.2, fun hs => ⟨?_, hs⟩⟩
    obtain ⟨n, hn⟩ := Option.isSome_iff_exists.mp hs
    exact lt_size_of_nextFree? hn
  have hsplit : a.slots.length = (a.slots.filter fun s => (a.node? s).isSome).length
      + (a.slots.filter fun s => (a.nextFree? s).isSome).length := by
    rw [List.length_eq_length_filter_add fun s => (a.node? s).isSome]
    congr 1
    refine congrArg List.length (List.filter_congr ?_)
    intro s hs
    rw [mem_slots h.fits] at hs
    rcases node?_or_nextFree? hs with hocc | hvac
    · obtain ⟨n, hn⟩ := Option.isSome_iff_exists.mp hocc
      simp [hn, nextFree?_of_node? hn]
    · obtain ⟨n, hn⟩ := Option.isSome_iff_exists.mp hvac
      simp [hn, node?_of_nextFree? hn]
  have hlength : a.slots.length = a.entries.size := by simp [slots]
  have hcount := h.count
  have hfree := hvacant.length_eq
  omega

end OrderArena

/-- **The representation invariant.** `queue` names the slots of every price level, `free` the free ones. -/
structure RepInv (b : OrderBook) (queue : Side → Price → List Slot) (free : List Slot) : Prop where
  /-- A price in a ladder has a level with at least one order; the others have none. -/
  opened : ∀ s p, p ∈ b.levels s ↔ queue s p ≠ []
  /-- The queue visits distinct occupied slots. -/
  distinct : ∀ s p, (queue s p).Nodup
  occupied : ∀ s p, ∀ t ∈ queue s p, (b.arena.node? t).isSome
  /-- Forward links from the head visit the queue and end; backward links from the tail visit its
      reverse and end. -/
  forward : ∀ s p level, (b.levels s)[p]? = some level →
    Chain.Path b.arena.next? level.head (queue s p)
  tail : ∀ s p level, (b.levels s)[p]? = some level → level.tail = (queue s p).getLast?
  backward : ∀ s p level, (b.levels s)[p]? = some level →
    Chain.Path b.arena.prev? level.tail (queue s p).reverse
  /-- A stored order is in the queue of its side and price and in no other. -/
  placed : ∀ t o, b.arena.order? t = some o → ∀ s p, t ∈ queue s p ↔ s = o.side ∧ p = o.price
  /-- The index maps exactly the ids of the stored orders, each to its slot, and all were seen. -/
  indexed : ∀ id t, b.orderSlots[id]? = some t ↔ ∃ o, b.arena.order? t = some o ∧ o.id = id
  seen : ∀ t o, b.arena.order? t = some o → o.id ∈ b.seenOrderIds
  /-- The free list visits every vacant slot exactly once; every entry has a slot number. -/
  freed : Chain.Path b.arena.nextFree? b.arena.freeHead free
  freeDistinct : free.Nodup
  vacant : ∀ t, t ∈ free ↔ (b.arena.nextFree? t).isSome
  fits : b.arena.entries.size ≤ 2 ^ 32
  /-- The arena counts its occupied slots. -/
  counted : b.arena.len = (b.arena.slots.filter fun t => (b.arena.node? t).isSome).length
  positive : ∀ t o, b.arena.order? t = some o → o.remainingQty ≠ 0
  /-- The cached total is the sum of the remaining quantities, modulo `2 ^ 64`. -/
  total : ∀ s p level, (b.levels s)[p]? = some level →
    level.totalQuantity.toNat
      ≡ ((b.arena.ordersAt (queue s p)).map fun o => o.remainingQty.toNat).sum [MOD 2 ^ 64]

/-- Every book that stands for a valid priority book meets the invariant. -/
theorem Represents.repInv {b : OrderBook} {p : PriorityBook} (h : Represents b p) (hp : p.Valid) :
    ∃ queue free, RepInv b queue free := by
  obtain ⟨r, href, -, rfl⟩ := h
  obtain ⟨queue, free, hw, hq⟩ := href.holds.store
  -- a stored order is an order of the reference book
  have hstored : ∀ t o, b.arena.order? t = some o → o ∈ r.queue o.side o.price := by
    intro t o ho
    rw [hq]
    exact List.mem_filterMap.mpr ⟨t, (hw.placed _ _ t).mpr ⟨o, ho, rfl, rfl⟩, ho⟩
  have hlevel : ∀ s p level, (b.levels s)[p]? = some level → QueueAt b.arena level (queue s p) := by
    intro s p level hsome
    rw [← OrderBook.levelAt_of_some hsome]
    exact hw.level s p
  refine ⟨queue, free, ?_, ?_, ?_, ?_, ?_, ?_, ?_, hw.indexed, ?_, hw.free.path, hw.free.nodup,
    hw.free.vacant, hw.free.fits, hw.free.len_eq, ?_, ?_⟩
  · intro s p
    rw [href.holds.opened, hq, ne_eq, ordersAt_eq_nil fun t ht => hw.isSome ht]
  · intro s p
    exact (hw.level s p).nodup
  · intro s p t ht
    exact hw.isSome ht
  · intro s p level hsome
    have hpath := (hlevel s p level hsome).linked.path
    rw [← (hlevel s p level hsome).head] at hpath
    refine (Chain.path_congr ?_).mp hpath
    intro t _
    simp [next?, links, Function.comp_def]
  · intro s p level hsome
    exact (hlevel s p level hsome).tail
  · intro s p level hsome
    have hpath := (hlevel s p level hsome).linked.path_reverse
    rw [← (hlevel s p level hsome).tail] at hpath
    refine (Chain.path_congr ?_).mp hpath
    intro t _
    simp [prev?, links, Function.comp_def]
  · intro t o ho s p
    rw [hw.placed]
    constructor
    · rintro ⟨o', ho', hs, hp⟩
      rw [ho] at ho'
      cases ho'
      exact ⟨hs.symm, hp.symm⟩
    · rintro ⟨rfl, rfl⟩
      exact ⟨o, ho, rfl, rfl⟩
  · intro t o ho
    rw [href.seen]
    exact href.known o (ReferenceBook.mem_orders.mpr ⟨_, _, hstored t o ho⟩)
  · intro t o ho
    apply hp.positive o.side o
    rw [ReferenceBook.side_flatten]
    exact Ladder.mem_flat.mpr ⟨o.price, hstored t o ho⟩
  · intro s p level hsome
    exact (hlevel s p level hsome).total_modEq

/-- **Representation invariant and panic freedom.** Every run ends in a book that meets the invariant; no
    call on it panics, its snapshot can be read, and it counts as many orders as the snapshot lists. -/
theorem representation_invariant (mode : EventMode) (cmds : List ScenarioCommand)
    (hroom : OrderBook.NeverOverfull mode cmds) :
    ∃ b results, OrderBook.run mode cmds = .ok (b, results)
      ∧ (∃ queue free, RepInv b queue free)
      ∧ (∀ c fault, b.exec c ≠ .error fault)
      ∧ ∃ snap, b.snapshot = .ok snap
          ∧ b.restingOrderCount = (snap.orders .buy).length + (snap.orders .sell).length := by
  obtain ⟨b, hrun, hrep⟩ := run_represents hroom
  refine ⟨b, _, hrun, hrep.repInv (priorityRun_valid cmds), ?_, ?_⟩
  · intro c fault hfault
    obtain ⟨r, href, -, -⟩ := hrep
    obtain ⟨b', hexec, -⟩ := href.exec c
    rw [hexec] at hfault
    cases hfault
  · obtain ⟨snap, hsnap, hsides⟩ := hrep.snapshot_eq
    refine ⟨snap, hsnap, ?_⟩
    rw [hrep.restingOrderCount_eq, hsides, hsides]
    exact List.length_append

theorem representation_invariant_session :
    ∃ b results, OrderBook.run .tradesOnly session = .ok (b, results)
      ∧ (∃ queue free, RepInv b queue free)
      ∧ (∀ c fault, b.exec c ≠ .error fault)
      ∧ ∃ snap, b.snapshot = .ok snap
          ∧ b.restingOrderCount = (snap.orders .buy).length + (snap.orders .sell).length :=
  representation_invariant .tradesOnly session (by decide +kernel)

/-! ## What rests in the book

The queues are one way to the resting orders, through ladders, levels and links. The arena is another: its
occupied slots hold the orders that rest, whatever links they have. Both ways lead to the same orders. -/

namespace OrderBook

/-- The orders in the slots of the arena. -/
def restingOrders (b : OrderBook) : List Order := b.arena.ordersAt b.arena.slots

/-- Those of one side. -/
def restingOn (b : OrderBook) (s : Side) : List Order := b.restingOrders.filter fun o => o.side = s

/-- An order rests in the book when a slot stores it. -/
theorem mem_restingOrders {b : OrderBook} (hfits : b.arena.entries.size ≤ 2 ^ 32) {o : Order} :
    o ∈ b.restingOrders ↔ ∃ t, b.arena.order? t = some o := by
  show o ∈ b.arena.slots.filterMap b.arena.order? ↔ _
  rw [List.mem_filterMap]
  constructor
  · rintro ⟨t, -, ht⟩
    exact ⟨t, ht⟩
  · rintro ⟨t, ht⟩
    obtain ⟨node, hnode, -⟩ := Option.map_eq_some_iff.mp ht
    exact ⟨t, (OrderArena.mem_slots hfits).mpr (OrderArena.lt_size_of_node? hnode), ht⟩

end OrderBook

/-- The orders of a valid book that are on a side are those in the queue of the side. -/
theorem PriorityBook.Valid.filter_side {p : PriorityBook} (hp : p.Valid) (s : Side) :
    p.orders.filter (fun o => o.side = s) = p.side s := by
  have hown : (p.side s).filter (fun o => o.side = s) = p.side s := by
    rw [List.filter_eq_self]
    intro o ho
    exact decide_eq_true (hp.sided s o ho)
  have hother : (p.side s.opposite).filter (fun o => o.side = s) = [] := by
    rw [List.filter_eq_nil_iff]
    intro o ho hside
    exact s.opposite_ne ((hp.sided s.opposite o ho).symm.trans (of_decide_eq_true hside))
  unfold PriorityBook.orders
  rw [List.filter_append]
  cases s with
  | buy => exact (congrArg₂ _ hown hother).trans (List.append_nil _)
  | sell => exact congrArg₂ _ hother hown

namespace Represents

variable {b : OrderBook} {p : PriorityBook}

/-- The slots of the arena hold the orders of the book, each once. -/
theorem perm_restingOrders (h : Represents b p) (hp : p.Valid) : b.restingOrders.Perm p.orders := by
  obtain ⟨r, href, -, rfl⟩ := h
  have hstore := href.holds.store
  obtain ⟨slots, free, hw, -⟩ := hstore
  refine (List.perm_ext_iff_of_nodup ?_ (hp.distinct.of_map _)).mpr ?_
  · -- an id is in one slot only
    refine (OrderArena.nodup_slots hw.free.fits).filterMap ?_
    intro t u o ht hu
    have hindex := (hw.indexed o.id t).mpr ⟨o, ht, rfl⟩
    rw [(hw.indexed o.id u).mpr ⟨o, hu, rfl⟩] at hindex
    exact (Option.some.inj hindex).symm
  · intro o
    show _ ↔ o ∈ r.orders
    rw [OrderBook.mem_restingOrders hw.free.fits, ReferenceBook.mem_orders]
    constructor
    · rintro hstored
      exact ⟨o.side, o.price, href.holds.store.mem_queue.mpr ⟨hstored, rfl, rfl⟩⟩
    · rintro ⟨s, q, ho⟩
      exact (href.holds.store.mem_queue.mp ho).1

/-- **What rests on a side is what the queue of the side holds**, in another order. -/
theorem perm_restingOn (h : Represents b p) (hp : p.Valid) (s : Side) : (b.restingOn s).Perm (p.side s) := by
  rw [← hp.filter_side s]
  exact (h.perm_restingOrders hp).filter _

end Represents

end LimitOrderBook
