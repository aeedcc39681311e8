import LimitOrderBook.Engine.OrderBook
import LimitOrderBook.Refinement.Queue

/-!
# `Refinement.Store` — arena, index, levels and free list hold together

A book changes three things together: the arena, the index from ids to slots, and the levels. This module says when
the three belong together, and what each change of them does.

`Wired` is the representation invariant with the slots of every queue named. It is stated for a level at every side
and price, where an absent price has the empty level. So it also holds between the steps of an operation, where a
level may be drained but still in its map. `Store` forgets the slots: it says which orders are queued at a side and
price, and everything above this module is stated by it.

* **Walking.** `walkOrders_of_path` and `walkOrders_outOfFuel` are about any path of slots, `Store.walkOrders_eq`
  about the queue of a level.
* **Reading.** An order is in one queue only, and the index leads to it (`Store.mem_queue`, `Store.index_eq_none`).
* **Changing.** One lemma for each change of the store: `Store.rest` rests an order, `Store.take` takes one out at any
  position, `Store.reduce` reduces the head. The lemmas `placed_*` and `indexed_*` are their parts.
-/

namespace LimitOrderBook

open OrderArena

/-- `f` with another value at one side and price. -/
def setAt {β : Type} (f : Side → Price → β) (s : Side) (p : Price) (v : β) : Side → Price → β :=
  fun t q => if t = s ∧ q = p then v else f t q

section SetAt

variable {β : Type} {f : Side → Price → β} {s t : Side} {p q : Price} {v : β}

@[simp] theorem setAt_self : setAt f s p v s p = v := by simp [setAt]

/-- At any other place nothing changes. -/
theorem setAt_of_ne (h : ¬(t = s ∧ q = p)) : setAt f s p v t q = f t q := by simp [setAt, h]

@[simp] theorem setAt_setAt {w : β} : setAt (setAt f s p v) s p w = setAt f s p w := by
  funext t q
  by_cases h : t = s ∧ q = p <;> simp [setAt, h]

/-- Writing what is there changes nothing. -/
theorem setAt_eq_self (h : f s p = v) : setAt f s p v = f := by
  funext t q
  by_cases ht : t = s ∧ q = p
  · rw [ht.1, ht.2, setAt_self, h]
  · exact setAt_of_ne ht

end SetAt

/-- The node at the start of a path, and the path from the one it points to. -/
theorem node_of_path {a : OrderArena} {start : Option Slot} {s : Slot} {xs : List Slot}
    (h : Chain.Path (fun s => (a.links s).map Prod.snd) start (s :: xs)) :
    start = some s ∧ ∃ n, a.node? s = some n
      ∧ Chain.Path (fun s => (a.links s).map Prod.snd) n.next xs := by
  obtain ⟨hstart, next, hnext, hpath⟩ := Chain.path_cons.mp h
  cases hnode : a.node? s with
  | none => simp [links, hnode] at hnext
  | some n =>
      have hlink : n.next = next := by simpa [links, hnode] using hnext
      exact ⟨hstart, n, rfl, by rw [hlink]; exact hpath⟩

/-- Walking along a path reads the orders in its slots. -/
theorem walkOrders_of_path {a : OrderArena} {start : Option Slot} {xs : List Slot} {fuel : Nat}
    (h : Chain.Path (fun s => (a.links s).map Prod.snd) start xs) (hfuel : xs.length ≤ fuel) :
    OrderBook.walkOrders a fuel start = .ok (a.ordersAt xs) := by
  induction xs generalizing start fuel with
  | nil =>
      have hnone : start = none := h
      subst hnone
      cases fuel <;> rfl
  | cons s xs ih =>
      obtain ⟨hstart, n, hnode, hpath⟩ := node_of_path h
      subst hstart
      cases fuel with
      | zero => exact absurd hfuel (by simp)
      | succ fuel =>
          have ih := ih hpath (Nat.le_of_succ_le_succ hfuel)
          have hord : a.order? s = some n.order := by simp [order?, hnode]
          simp [OrderBook.walkOrders, get_eq hnode, ih, ordersAt_cons hord]

/-- A walk takes a step for each slot of the path, and cannot do with fewer. -/
theorem walkOrders_outOfFuel {a : OrderArena} {start : Option Slot} {xs : List Slot} {fuel : Nat}
    (h : Chain.Path (fun s => (a.links s).map Prod.snd) start xs) (hfuel : fuel < xs.length) :
    OrderBook.walkOrders a fuel start = .error .outOfFuel := by
  induction xs generalizing start fuel with
  | nil => exact absurd hfuel (by simp)
  | cons s xs ih =>
      obtain ⟨hstart, n, hnode, hpath⟩ := node_of_path h
      subst hstart
      cases fuel with
      | zero => rfl
      | succ fuel =>
          have ih := ih hpath (Nat.lt_of_succ_lt_succ hfuel)
          simp [OrderBook.walkOrders, get_eq hnode, ih]

/-- The index from ids to slots. -/
abbrev SlotIndex := Std.ExtTreeMap OrderId Slot

/-- **The representation invariant**, with the slots of every queue and the free slots named. -/
structure Wired (a : OrderArena) (index : SlotIndex) (levelAt : Side → Price → PriceLevel)
    (slots : Side → Price → List Slot) (free : List Slot) : Prop where
  level : ∀ s p, QueueAt a (levelAt s p) (slots s p)
  placed : ∀ s p t, t ∈ slots s p ↔ ∃ o, a.order? t = some o ∧ o.side = s ∧ o.price = p
  indexed : ∀ id t, index[id]? = some t ↔ ∃ o, a.order? t = some o ∧ o.id = id
  free : a.FreeList free

/-- The store holds exactly the queues `queue`. -/
def Store (a : OrderArena) (index : SlotIndex) (levelAt : Side → Price → PriceLevel)
    (queue : Side → Price → List Order) : Prop :=
  ∃ slots free, Wired a index levelAt slots free ∧ ∀ s p, queue s p = a.ordersAt (slots s p)

variable {a : OrderArena} {index : SlotIndex} {levelAt : Side → Price → PriceLevel}
  {queue : Side → Price → List Order} {slots : Side → Price → List Slot} {free : List Slot}

namespace Wired

/-- A slot is in one queue only. -/
theorem disjoint (h : Wired a index levelAt slots free) {s s' : Side} {p p' : Price} {t : Slot}
    (ht : t ∈ slots s p) (ht' : t ∈ slots s' p') : s' = s ∧ p' = p := by
  obtain ⟨o, ho, rfl, rfl⟩ := (h.placed s p t).mp ht
  obtain ⟨o', ho', rfl, rfl⟩ := (h.placed s' p' t).mp ht'
  rw [ho] at ho'
  cases ho'
  exact ⟨rfl, rfl⟩

/-- The slots of a queue are occupied. -/
theorem isSome (h : Wired a index levelAt slots free) {s : Side} {p : Price} {t : Slot}
    (ht : t ∈ slots s p) : (a.node? t).isSome := (h.level s p).isSome ht

variable {a' : OrderArena} {t : Slot} {o : Order} {s : Side} {p : Price} {ws : List Slot}

/-- A new order is in the queue of its side and price, and the others are where they were. -/
theorem placed_rest (h : Wired a index levelAt slots free) (hout : ∀ s p, t ∉ slots s p)
    (hord : ∀ u, a'.order? u = if u = t then some o else a.order? u) (s : Side) (p : Price) (u : Slot) :
    u ∈ setAt slots o.side o.price (slots o.side o.price ++ [t]) s p
      ↔ ∃ o', a'.order? u = some o' ∧ o'.side = s ∧ o'.price = p := by
  rw [hord]
  by_cases hu : u = t
  · subst hu
    by_cases hsp : s = o.side ∧ p = o.price
    · obtain ⟨rfl, rfl⟩ := hsp
      simp
    · rw [setAt_of_ne hsp]
      simp only [hout s p, if_true, Option.some.injEq, false_iff]
      rintro ⟨o', rfl, rfl, rfl⟩
      exact hsp ⟨rfl, rfl⟩
  · rw [if_neg hu, ← h.placed]
    by_cases hsp : s = o.side ∧ p = o.price
    · obtain ⟨rfl, rfl⟩ := hsp
      simp [hu]
    · rw [setAt_of_ne hsp]

/-- A new id enters the index with the slot of its order. -/
theorem indexed_rest (h : Wired a index levelAt slots free) (hvacant : a.order? t = none)
    (hnew : index[o.id]? = none) (hord : ∀ u, a'.order? u = if u = t then some o else a.order? u)
    (id : OrderId) (u : Slot) :
    (index.insert o.id t)[id]? = some u ↔ ∃ o', a'.order? u = some o' ∧ o'.id = id := by
  rw [hord, Std.ExtTreeMap.getElem?_insert]
  by_cases hid : o.id = id
  · -- no stored order has the new id
    subst hid
    have hno : ¬∃ o', a.order? u = some o' ∧ o'.id = o.id := by
      rw [← h.indexed, hnew]; simp
    by_cases hu : u = t
    · subst hu; simp
    · simp [hu, Ne.symm hu, hno]
  · by_cases hu : u = t
    · -- no entry pointed at the slot before
      subst hu
      have hnot : index[id]? ≠ some u := by
        rw [ne_eq, h.indexed]
        simp [hvacant]
      simp [hid, hnot]
    · simp [hid, hu, h.indexed]

/-- The other orders stay where they are when the order in slot `t` leaves its queue. -/
theorem placed_take (h : Wired a index levelAt slots free)
    (hmem : ∀ u, u ∈ slots s p ↔ u = t ∨ u ∈ ws) (hout : t ∉ ws)
    (hord : ∀ u, a'.order? u = if u = t then none else a.order? u) (s' : Side) (p' : Price) (u : Slot) :
    u ∈ setAt slots s p ws s' p' ↔ ∃ o', a'.order? u = some o' ∧ o'.side = s' ∧ o'.price = p' := by
  rw [hord]
  by_cases hsp : s' = s ∧ p' = p
  · obtain ⟨rfl, rfl⟩ := hsp
    rw [setAt_self]
    by_cases hu : u = t
    · subst hu; simp [hout]
    · rw [if_neg hu, ← h.placed, hmem]; simp [hu]
  · rw [setAt_of_ne hsp, h.placed]
    by_cases hu : u = t
    · subst hu
      have hno : ¬∃ o', a.order? u = some o' ∧ o'.side = s' ∧ o'.price = p' := by
        rw [← h.placed]
        exact fun hm => hsp (h.disjoint ((hmem u).mpr (Or.inl rfl)) hm)
      simp [hno]
    · rw [if_neg hu]

/-- An id leaves the index with its order. -/
theorem indexed_take (h : Wired a index levelAt slots free) (ht : a.order? t = some o)
    (hord : ∀ u, a'.order? u = if u = t then none else a.order? u) (id : OrderId) (u : Slot) :
    (index.erase o.id)[id]? = some u ↔ ∃ o', a'.order? u = some o' ∧ o'.id = id := by
  rw [hord, Std.ExtTreeMap.getElem?_erase]
  by_cases hu : u = t
  · subst hu
    by_cases hid : o.id = id
    · simp [hid]
    · have hne : index[id]? ≠ some u := by
        rw [ne_eq, h.indexed, ht]
        rintro ⟨o', ho', hid'⟩
        cases ho'
        exact hid hid'
      simp [hid, hne]
  · by_cases hid : o.id = id
    · -- the id was in slot `t` and nowhere else
      subst hid
      have hidx : index[o.id]? = some t := (h.indexed o.id t).mpr ⟨o, ht, rfl⟩
      have hno : ¬∃ o', a.order? u = some o' ∧ o'.id = o.id := by
        rw [← h.indexed, hidx]
        exact fun he => hu (Option.some.inj he).symm
      simp [hu, hno]
    · simp [hid, hu, h.indexed]

end Wired

namespace Store

/-- The order at a position of a queue is where its level, its index entry and its own fields say. -/
theorem order_at (h : Store a index levelAt queue) {s : Side} {p : Price} {o : Order}
    (ho : o ∈ queue s p) :
    o.side = s ∧ o.price = p ∧ ∃ t, index[o.id]? = some t ∧ a.order? t = some o := by
  obtain ⟨slots, free, hw, hq⟩ := h
  rw [hq] at ho
  obtain ⟨t, ht, hto⟩ := List.mem_filterMap.mp ho
  obtain ⟨o', ho', hs, hp⟩ := (hw.placed s p t).mp ht
  rw [hto] at ho'
  cases ho'
  exact ⟨hs, hp, t, (hw.indexed o.id t).mpr ⟨o, hto, rfl⟩, hto⟩

/-- Orders with one id are one order. -/
theorem eq_of_id (h : Store a index levelAt queue) {s s' : Side} {p p' : Price} {o o' : Order}
    (ho : o ∈ queue s p) (ho' : o' ∈ queue s' p') (hid : o.id = o'.id) : o = o' := by
  obtain ⟨-, -, t, ht, hto⟩ := h.order_at ho
  obtain ⟨-, -, t', ht', hto'⟩ := h.order_at ho'
  rw [hid, ht'] at ht
  cases ht
  rw [hto] at hto'
  exact Option.some.inj hto'

/-- A queue has the stored orders of its side and price. -/
theorem mem_queue (h : Store a index levelAt queue) {s : Side} {p : Price} {o : Order} :
    o ∈ queue s p ↔ (∃ t, a.order? t = some o) ∧ o.side = s ∧ o.price = p := by
  constructor
  · intro ho
    obtain ⟨hs, hp, t, -, hto⟩ := h.order_at ho
    exact ⟨⟨t, hto⟩, hs, hp⟩
  · rintro ⟨⟨t, hto⟩, rfl, rfl⟩
    obtain ⟨slots, free, hw, hq⟩ := h
    rw [hq]
    exact List.mem_filterMap.mpr ⟨t, (hw.placed _ _ t).mpr ⟨o, hto, rfl, rfl⟩, hto⟩

/-- An indexed id belongs to an order in the queue of its side and price. -/
theorem of_index (h : Store a index levelAt queue) {id : OrderId} {t : Slot}
    (ht : index[id]? = some t) :
    ∃ o, a.order? t = some o ∧ o.id = id ∧ o ∈ queue o.side o.price := by
  have hwired := h
  obtain ⟨slots, free, hw, -⟩ := hwired
  obtain ⟨o, ho, hid⟩ := (hw.indexed id t).mp ht
  exact ⟨o, ho, hid, h.mem_queue.mpr ⟨⟨t, ho⟩, rfl, rfl⟩⟩

/-- An id is not indexed when no queue has an order with it. -/
theorem index_eq_none (h : Store a index levelAt queue) {id : OrderId} :
    index[id]? = none ↔ ∀ s p, ∀ o ∈ queue s p, o.id ≠ id := by
  constructor
  · rintro hnone s p o ho rfl
    obtain ⟨-, -, t, ht, -⟩ := h.order_at ho
    rw [hnone] at ht
    exact absurd ht (by simp)
  · intro hall
    by_contra hne
    obtain ⟨t, ht⟩ := Option.ne_none_iff_exists'.mp hne
    obtain ⟨o, -, hid, hmem⟩ := h.of_index ht
    exact hall _ _ o hmem hid

/-- An order occurs once in its queue. -/
theorem nodup (h : Store a index levelAt queue) (s : Side) (p : Price) :
    ((queue s p).map Order.id).Nodup := by
  obtain ⟨slots, free, hw, hq⟩ := h
  rw [hq, ordersAt, List.map_filterMap]
  refine (hw.level s p).nodup.filterMap fun t u id ht hu => ?_
  obtain ⟨o, ho, rfl⟩ := Option.map_eq_some_iff.mp (by simpa using ht)
  obtain ⟨o', ho', hid⟩ := Option.map_eq_some_iff.mp (by simpa using hu)
  have h₁ := (hw.indexed o.id t).mpr ⟨o, ho, rfl⟩
  have h₂ := (hw.indexed o.id u).mpr ⟨o', ho', hid⟩
  rw [h₁] at h₂
  exact Option.some.inj h₂

/-- The store of an empty book. -/
theorem empty : Store {} ∅ (fun _ _ => {}) (fun _ _ => []) := by
  have hnone : ∀ u : Slot, order? {} u = none := fun u => by simp [order?, node?]
  refine ⟨fun _ _ => [], [], ⟨fun _ _ => QueueAt.empty _, fun s p t => ?_, fun id t => ?_,
    freeList_empty⟩, fun _ _ => rfl⟩
  · simp [hnone]
  · simp [hnone]

/-- A level is empty when its queue is. -/
theorem isEmpty_iff (h : Store a index levelAt queue) {s : Side} {p : Price} :
    (levelAt s p).isEmpty = true ↔ queue s p = [] := by
  obtain ⟨slots, free, hw, hq⟩ := h
  rw [(hw.level s p).isEmpty_iff, hq, ordersAt_eq_nil fun t ht => hw.isSome ht]

/-- The level of a price without orders is the default one. -/
theorem eq_default (h : Store a index levelAt queue) {s : Side} {p : Price} (hnil : queue s p = []) :
    levelAt s p = {} := by
  obtain ⟨slots, free, hw, hq⟩ := h
  have hslots : slots s p = [] := by
    rw [← ordersAt_eq_nil fun t ht => hw.isSome ht, ← hq, hnil]
  have hlevel := hw.level s p
  rw [hslots] at hlevel
  exact hlevel.eq_default

/-- A queue has no more orders than the arena has entries. -/
theorem length_le_size (h : Store a index levelAt queue) (s : Side) (p : Price) :
    (queue s p).length ≤ a.entries.size := by
  obtain ⟨slots, free, hw, hq⟩ := h
  have hle := hw.free.length_add_le (hw.level s p).nodup fun t ht => hw.isSome ht
  have hcount := hw.free.count
  have hfilter : (queue s p).length ≤ (slots s p).length := by
    rw [hq]; exact List.length_filterMap_le _ _
  omega

/-- **The cursor walk** of a level reads its queue, with one step for each order. -/
theorem walkOrders_steps (h : Store a index levelAt queue) (s : Side) (p : Price) {fuel : Nat} :
    OrderBook.walkOrders a fuel (levelAt s p).head
      = if (queue s p).length ≤ fuel then .ok (queue s p) else .error .outOfFuel := by
  obtain ⟨slots, free, hw, hq⟩ := h
  have hlevel := hw.level s p
  have hlength : (queue s p).length = (slots s p).length := by
    rw [hq]
    exact length_ordersAt fun t ht => hw.isSome ht
  rw [hlevel.head, hlength, hq]
  split
  next hle => exact walkOrders_of_path hlevel.linked.path hle
  next hlt => exact walkOrders_outOfFuel hlevel.linked.path (Nat.lt_of_not_le hlt)

/-- The arena's size is enough for it. -/
theorem walkOrders_eq (h : Store a index levelAt queue) (s : Side) (p : Price) :
    OrderBook.walkOrders a a.entries.size (levelAt s p).head = .ok (queue s p) := by
  rw [h.walkOrders_steps, if_pos (h.length_le_size s p)]

/-- **Resting** an order: it takes a slot, joins the back of its queue and enters the index. -/
theorem rest (h : Store a index levelAt queue) {o : Order} (hroom : a.len < 2 ^ 32)
    (hnew : index[o.id]? = none) :
    ∃ a₁ t level a₂, a.insert o = .ok (a₁, t)
      ∧ (levelAt o.side o.price).pushBack a₁ t = .ok (level, a₂) ∧ level.isEmpty = false
      ∧ a₂.len = a.len + 1
      ∧ Store a₂ (index.insert o.id t) (setAt levelAt o.side o.price level)
          (setAt queue o.side o.price (queue o.side o.price ++ [o])) := by
  obtain ⟨slots, free, hw, hq⟩ := h
  -- the slot was vacant, so it is in no queue and no queue sees the order stored
  obtain ⟨a₁, t, free₁, hins, hnone, hnode, hlen, hfree⟩ := insert_spec hw.free hroom o
  have hout : ∀ s p, t ∉ slots s p := fun s p ht => by
    have := hw.isSome ht
    rw [hnone] at this
    exact absurd this (by simp)
  have hold : ∀ s p, ∀ u ∈ slots s p, a₁.node? u = a.node? u := fun s p u hu => by
    rw [hnode, Function.update_of_ne fun he => hout s p (by rw [← he]; exact hu)]
  have hord₁ : ∀ u, a₁.order? u = if u = t then some o else a.order? u := by
    intro u
    by_cases hu : u = t
    · subst hu; simp [order?, hnode]
    · simp [order?, hnode, hu]
  -- only its own queue sees it linked
  obtain ⟨level, a₂, hpush, hlevel, hrel⟩ :=
    ((hw.level o.side o.price).congr (hold _ _)).pushBack_spec (hout _ _)
      (show a₁.order? t = some o by simp [hord₁])
  have hord₂ : ∀ u, a₂.order? u = if u = t then some o else a.order? u := fun u => by
    rw [hrel.order, hord₁]
  have hempty : level.isEmpty = false := by
    rw [Bool.eq_false_iff, ne_eq, hlevel.isEmpty_iff]; simp
  refine ⟨a₁, t, level, a₂, hins, hpush, hempty, by rw [hrel.len, hlen],
    setAt slots o.side o.price (slots o.side o.price ++ [t]), free₁, ⟨?_, ?_, ?_, hrel.free _ hfree⟩, ?_⟩
  · intro s p
    by_cases hsp : s = o.side ∧ p = o.price
    · obtain ⟨rfl, rfl⟩ := hsp
      simpa using hlevel
    · rw [setAt_of_ne hsp, setAt_of_ne hsp]
      refine (hw.level s p).congr fun u hu => ?_
      rw [hrel.frame u, hold s p u hu]
      intro hmem
      rcases List.mem_append.mp hmem with hmem | hmem
      · exact hsp (hw.disjoint hmem hu)
      · exact hout s p (by rw [← List.mem_singleton.mp hmem]; exact hu)
  · exact hw.placed_rest hout hord₂
  · exact hw.indexed_rest (by simp [order?, hnone]) hnew hord₂
  · intro s p
    by_cases hsp : s = o.side ∧ p = o.price
    · obtain ⟨rfl, rfl⟩ := hsp
      have hsame : a₂.ordersAt (slots o.side o.price) = a.ordersAt (slots o.side o.price) :=
        ordersAt_congr fun u hu => by
          rw [hord₂, if_neg fun he => hout _ _ (by rw [← he]; exact hu)]
      rw [setAt_self, setAt_self, ordersAt_append, hsame, hq]
      simp [ordersAt, hord₂]
    · rw [setAt_of_ne hsp, setAt_of_ne hsp, hq]
      refine (ordersAt_congr fun u hu => ?_).symm
      rw [hord₂, if_neg fun he => hout s p (by rw [← he]; exact hu)]

/-- Resting never faults, even when every slot is taken: one more order is then counted. -/
theorem rest_total (h : Store a index levelAt queue) (o : Order) :
    ∃ a₁ t level a₂, a.insert o = .ok (a₁, t)
      ∧ (levelAt o.side o.price).pushBack a₁ t = .ok (level, a₂) ∧ a₂.len = a.len + 1 := by
  obtain ⟨slots, free, hw, hq⟩ := h
  obtain ⟨a₁, t, hins, hlen, hsome, hkeep⟩ := insert_total hw.free o
  have htail : ∀ u, (levelAt o.side o.price).tail = some u → (a₁.node? u).isSome := by
    intro u hu
    have hmem : u ∈ slots o.side o.price := by
      rw [(hw.level _ _).tail] at hu
      exact List.mem_of_getLast? hu
    obtain ⟨n, hn⟩ := Option.isSome_iff_exists.mp (hw.isSome hmem)
    rw [hkeep u n hn]; rfl
  obtain ⟨level, a₂, hpush, hlen₂⟩ := PriceLevel.pushBack_total (levelAt o.side o.price) hsome htail
  exact ⟨a₁, t, level, a₂, hins, hpush, hlen₂.trans hlen⟩

/-- **Taking out** the order at any position of a queue: its level is unlinked, its slot freed and its
    index entry erased. -/
theorem take (h : Store a index levelAt queue) {s : Side} {p : Price} {o : Order}
    {xs ys : List Order} (hsplit : queue s p = xs ++ o :: ys) :
    ∃ t n level a₁ a₂, index[o.id]? = some t ∧ a.get t = .ok n ∧ n.order = o
      ∧ (xs = [] → (levelAt s p).head = some t)
      ∧ (levelAt s p).unlink a t = .ok (level, a₁) ∧ a₁.remove t = .ok (a₂, o)
      ∧ (level.isEmpty = true ↔ xs ++ ys = []) ∧ a₂.len + 1 = a.len
      ∧ a₂.entries.size = a.entries.size
      ∧ Store a₂ (index.erase o.id) (setAt levelAt s p level) (setAt queue s p (xs ++ ys)) := by
  have hids := h.nodup s p
  obtain ⟨slots, free, hw, hq⟩ := h
  -- the slots split where the orders do
  obtain ⟨us, t, vs, hslots, hus, ht, hvs⟩ := ordersAt_split ((hq s p).symm.trans hsplit)
  obtain ⟨n, hn, hno⟩ := Option.map_eq_some_iff.mp ht
  have hidx : index[o.id]? = some t := (hw.indexed o.id t).mpr ⟨o, ht, rfl⟩
  have hlevel := hw.level s p
  rw [hslots] at hlevel
  obtain ⟨level, a₁, hunlink, hlevel', hrel⟩ := hlevel.unlink_spec ht
  obtain ⟨n₁, hn₁, hno₁⟩ := Option.map_eq_some_iff.mp ((congrFun hrel.order t).trans ht)
  obtain ⟨a₂, hrem, hnode, hlen, hsize, hfree⟩ := remove_spec (hrel.free free hw.free) hn₁
  have hnd : (us ++ t :: vs).Nodup := hlevel.nodup
  have hout : t ∉ us ++ vs := by
    have := (List.nodup_middle.mp hnd)
    exact (List.nodup_cons.mp this).1
  have hmem : ∀ u, u ∈ slots s p ↔ u = t ∨ u ∈ us ++ vs := by
    intro u; rw [hslots]; simp only [List.mem_append, List.mem_cons]; tauto
  have hord : ∀ u, a₂.order? u = if u = t then none else a.order? u := by
    intro u
    have h₁ := congrFun hrel.order u
    simp only [order?] at h₁ ⊢
    by_cases hu : u = t
    · subst hu; simp [hnode]
    · simp [hnode, hu, h₁]
  -- unlinking writes neighbours and removing writes the slot: all of them in this queue
  have hframe : ∀ s' p', ¬(s' = s ∧ p' = p) → ∀ u ∈ slots s' p', a₂.node? u = a.node? u := by
    intro s' p' hsp u hu
    have hne : u ≠ t := fun he => hsp (hw.disjoint ((hmem t).mpr (Or.inl rfl)) (he ▸ hu))
    have hout' : u ∉ us ++ vs := fun hm => hsp (hw.disjoint ((hmem u).mpr (Or.inr hm)) hu)
    rw [hnode, Function.update_of_ne hne, hrel.frame u hout']
  have hsub : ∀ ws : List Slot, t ∉ ws → a₂.ordersAt ws = a.ordersAt ws := fun ws hws =>
    ordersAt_congr fun u hu => by rw [hord, if_neg fun he => hws (by rw [← he]; exact hu)]
  have hsome : ∀ u ∈ us ++ vs, (a.node? u).isSome := fun u hu =>
    hw.isSome ((hmem u).mpr (Or.inr hu))
  have hempty : us ++ vs = [] ↔ xs ++ ys = [] := by
    rw [← ordersAt_eq_nil hsome, ordersAt_append, hus, hvs]
  refine ⟨t, n, level, a₁, a₂, hidx, get_eq hn, hno, ?_, hunlink, hno₁ ▸ hrem,
    hlevel'.isEmpty_iff.trans hempty, by rw [hlen, hrel.len], hsize.trans hrel.size,
    setAt slots s p (us ++ vs), t :: free, ⟨?_, ?_, ?_, hfree⟩, ?_⟩
  · intro hxs
    have hnil : us = [] := by
      rw [← ordersAt_eq_nil fun u hu => hsome u (List.mem_append_left vs hu), hus, hxs]
    rw [(hw.level s p).head, hslots, hnil]
    rfl
  · intro s' p'
    by_cases hsp : s' = s ∧ p' = p
    · obtain ⟨rfl, rfl⟩ := hsp
      rw [setAt_self, setAt_self]
      refine hlevel'.congr fun u hu => ?_
      rw [hnode, Function.update_of_ne fun he => hout (by rw [← he]; exact hu)]
    · rw [setAt_of_ne hsp, setAt_of_ne hsp]
      exact (hw.level s' p').congr (hframe s' p' hsp)
  · exact hw.placed_take hmem hout hord
  · exact hw.indexed_take ht hord
  · intro s' p'
    by_cases hsp : s' = s ∧ p' = p
    · obtain ⟨rfl, rfl⟩ := hsp
      rw [setAt_self, setAt_self, hsub _ hout, ordersAt_append, hus, hvs]
    · rw [setAt_of_ne hsp, setAt_of_ne hsp, hq]
      refine (hsub _ fun hm => hsp (hw.disjoint ((hmem t).mpr (Or.inl rfl)) hm)).symm

/-- **Reducing** the order at the head of a queue: it keeps its slot, its links and its index entry, and
    the level's total goes down with it. -/
theorem reduce (h : Store a index levelAt queue) {s : Side} {p : Price} {o : Order} {os : List Order}
    (hsplit : queue s p = o :: os) (q : Quantity) :
    ∃ t n a₁, (levelAt s p).head = some t ∧ a.get t = .ok n ∧ n.order = o
      ∧ a.getMut t (fun n => { n with order := { n.order with remainingQty := n.order.remainingQty - q } })
          = .ok a₁
      ∧ a₁.len = a.len ∧ a₁.entries.size = a.entries.size
      ∧ Store a₁ index
          (setAt levelAt s p { levelAt s p with totalQuantity := (levelAt s p).totalQuantity - q })
          (setAt queue s p ({ o with remainingQty := o.remainingQty - q } :: os)) := by
  obtain ⟨slots, free, hw, hq⟩ := h
  have hords : a.ordersAt (slots s p) = [] ++ o :: os := (hq s p).symm.trans hsplit
  obtain ⟨us, t, vs, hslots, hus, ht, hvs⟩ := ordersAt_split hords
  have hlevel := hw.level s p
  have hnil : us = [] := by
    rw [← ordersAt_eq_nil fun u hu => hlevel.isSome (by rw [hslots]; exact List.mem_append_left _ hu), hus]
  subst hnil
  rw [List.nil_append] at hslots
  obtain ⟨n, hn, rfl⟩ := Option.map_eq_some_iff.mp ht
  obtain ⟨a₁, hget, hnode, hlen, hsize, hfree⟩ := getMut_spec hn
    (fun n => { n with order := { n.order with remainingQty := n.order.remainingQty - q } })
  have hmem : t ∈ slots s p := by rw [hslots]; exact List.mem_cons_self
  have hout : t ∉ vs := (List.nodup_cons.mp (hslots ▸ hlevel.nodup)).1
  -- the write changes a quantity: no link, no other slot
  have hlinks : a₁.links = a.links := by
    funext u
    by_cases hu : u = t
    · subst hu; simp [links, hnode, hn]
    · simp [links, hnode, hu]
  have hord : ∀ u, a₁.order? u =
      if u = t then some { n.order with remainingQty := n.order.remainingQty - q } else a.order? u := by
    intro u
    by_cases hu : u = t
    · subst hu; simp [order?, hnode]
    · simp [order?, hnode, hu]
  have hsame : ∀ ws : List Slot, t ∉ ws → a₁.ordersAt ws = a.ordersAt ws := fun ws hws =>
    ordersAt_congr fun u hu => by rw [hord, if_neg fun he => hws (by rw [← he]; exact hu)]
  have hords₁ : a₁.ordersAt (slots s p)
      = { n.order with remainingQty := n.order.remainingQty - q } :: os := by
    rw [hslots, ordersAt_cons (by rw [hord, if_pos rfl]), hsame vs hout, hvs]
  -- the fields that place and index an order are those it had
  have hfields : ∀ (P : Order → Prop), P { n.order with remainingQty := n.order.remainingQty - q }
      = P n.order → ∀ u, (∃ o, a₁.order? u = some o ∧ P o) ↔ ∃ o, a.order? u = some o ∧ P o := by
    intro P hP u
    rw [hord]
    by_cases hu : u = t
    · subst hu; simp [ht, hP]
    · rw [if_neg hu]
  refine ⟨t, n, a₁, by rw [hlevel.head, hslots]; rfl, get_eq hn, rfl, hget, hlen, hsize, slots, free,
    ⟨?_, ?_, ?_, hfree free hw.free⟩, ?_⟩
  · intro s' p'
    by_cases hsp : s' = s ∧ p' = p
    · obtain ⟨rfl, rfl⟩ := hsp
      rw [setAt_self]
      refine ⟨hlevel.head, hlevel.tail, by rw [hlinks]; exact hlevel.linked, hlevel.nodup, ?_⟩
      show (levelAt s' p').totalQuantity - q = _
      rw [hlevel.total, hords₁, hslots, ordersAt_cons ht, hvs]
      simp only [List.map_cons, List.sum_cons]
      generalize (os.map Order.remainingQty).sum = total
      grind
    · rw [setAt_of_ne hsp]
      refine (hw.level s' p').congr fun u hu => ?_
      rw [hnode, Function.update_of_ne fun he => hsp (hw.disjoint hmem (by rw [← he]; exact hu))]
  · intro s' p' u
    rw [hw.placed, hfields (fun o => o.side = s' ∧ o.price = p') rfl]
  · intro id u
    rw [hw.indexed, hfields (fun o => o.id = id) rfl]
  · intro s' p'
    by_cases hsp : s' = s ∧ p' = p
    · obtain ⟨rfl, rfl⟩ := hsp
      rw [setAt_self, hords₁]
    · rw [setAt_of_ne hsp, hq]
      exact (hsame _ fun hm => hsp (hw.disjoint hmem hm)).symm

end Store
end LimitOrderBook
