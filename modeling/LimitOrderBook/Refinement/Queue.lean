import LimitOrderBook.Engine.Level
import LimitOrderBook.Reference.Depth
import LimitOrderBook.Refinement.Arena

/-!
# `Refinement.Queue` — a price level is a list of slots

A level of the source has a head, a tail and a cached quantity, and its orders are linked through the nodes of the
arena. `QueueAt a level slots` says that `level` is the doubly linked list of exactly `slots`, in that order, and that
its cached quantity is the sum of their orders in 64-bit arithmetic. The empty level is the default one, so a price
without orders and a level just drained are the same case.

The nodes of an arena are read as two functions, the order (`order?`) and the links (`links`) of a slot. An operation
that only changes links is `Relinked` to the arena before, with the slots that it touched: the orders, the free list
and all other nodes are as they were. `setNext_spec` and `setPrev_spec` are the two writes of this kind.

`pushBack_spec` and `unlink_spec` are the results: the level of `slots ++ [s]`, and the level without one slot
anywhere in the queue, with only the links of that queue touched.
-/

namespace LimitOrderBook

namespace OrderArena

/-- The order stored in a slot, if any. -/
def order? (a : OrderArena) (s : Slot) : Option Order := (a.node? s).map OrderNode.order

/-- The links of the node in a slot. -/
def links (a : OrderArena) (s : Slot) : Option (Option Slot × Option Slot) :=
  (a.node? s).map fun n => (n.prev, n.next)

/-- The orders in a list of slots. -/
def ordersAt (a : OrderArena) (slots : List Slot) : List Order := slots.filterMap a.order?

/-- `a'` is `a` with other links in the slots `touched`. -/
structure Relinked (a a' : OrderArena) (touched : List Slot) : Prop where
  order : a'.order? = a.order?
  frame : ∀ t ∉ touched, a'.node? t = a.node? t
  len : a'.len = a.len
  size : a'.entries.size = a.entries.size
  free : ∀ free, a.FreeList free → a'.FreeList free

theorem Relinked.refl (a : OrderArena) (touched : List Slot) : Relinked a a touched :=
  ⟨rfl, fun _ _ => rfl, rfl, rfl, fun _ h => h⟩

theorem Relinked.trans {a a' a'' : OrderArena} {touched : List Slot} (h : Relinked a a' touched)
    (h' : Relinked a' a'' touched) : Relinked a a'' touched :=
  ⟨h'.order.trans h.order, fun t ht => (h'.frame t ht).trans (h.frame t ht), h'.len.trans h.len,
    h'.size.trans h.size, fun free hf => h'.free free (h.free free hf)⟩

theorem Relinked.isSome {a a' : OrderArena} {touched : List Slot} (h : Relinked a a' touched)
    {s : Slot} (hs : (a.node? s).isSome) : (a'.node? s).isSome := by
  have := congrFun h.order s
  simp only [order?] at this
  rw [← Option.isSome_map (f := OrderNode.order)] at hs ⊢
  rw [this]; exact hs

/-- A write through `get_mut` that keeps the order only changes links. -/
theorem getMut_relinked {a : OrderArena} {s : Slot} {n : OrderNode} (h : a.node? s = some n)
    {w : OrderNode → OrderNode} (hw : (w n).order = n.order) {touched : List Slot}
    (hs : s ∈ touched) :
    ∃ a', a.getMut s w = .ok a' ∧ Relinked a a' touched
      ∧ a'.links = Function.update a.links s (some ((w n).prev, (w n).next)) := by
  obtain ⟨a', hget, hnode, hlen, hsize, hfree⟩ := getMut_spec h w
  refine ⟨a', hget, ⟨?_, fun t ht => ?_, hlen, hsize, hfree⟩, ?_⟩
  · funext t
    by_cases ht : t = s
    · subst ht; simp [order?, hnode, h, hw]
    · simp [order?, hnode, ht]
  · rw [hnode, Function.update_of_ne fun he => ht (by rw [he]; exact hs)]
  · funext t
    by_cases ht : t = s
    · subst ht; simp [links, hnode]
    · simp [links, hnode, ht]

/-- Writing the forward link of a node, when there is one. -/
theorem setNext_spec {a : OrderArena} {t : Option Slot} {touched : List Slot}
    (ht : ∀ u, t = some u → (a.node? u).isSome ∧ u ∈ touched) (m : Option Slot) :
    ∃ a', (t = none → a' = a)
      ∧ (∀ u, t = some u → a.getMut u (fun n => { n with next := m }) = .ok a')
      ∧ Relinked a a' touched ∧ a'.links = Chain.setNext a.links t m := by
  cases t with
  | none => exact ⟨a, fun _ => rfl, fun u h => absurd h (by simp), .refl a _, rfl⟩
  | some u =>
      obtain ⟨hsome, hmem⟩ := ht u rfl
      obtain ⟨n, hn⟩ := Option.isSome_iff_exists.mp hsome
      obtain ⟨a', hget, hrel, hlinks⟩ :=
        getMut_relinked hn (w := fun n => { n with next := m }) rfl hmem
      refine ⟨a', fun h => absurd h (by simp), fun v hv => ?_, hrel, hlinks.trans ?_⟩
      · cases hv; exact hget
      · simp [Chain.setNext, links, hn]

/-- Writing the backward link of a node, when there is one. -/
theorem setPrev_spec {a : OrderArena} {t : Option Slot} {touched : List Slot}
    (ht : ∀ u, t = some u → (a.node? u).isSome ∧ u ∈ touched) (m : Option Slot) :
    ∃ a', (t = none → a' = a)
      ∧ (∀ u, t = some u → a.getMut u (fun n => { n with prev := m }) = .ok a')
      ∧ Relinked a a' touched ∧ a'.links = Chain.setPrev a.links t m := by
  cases t with
  | none => exact ⟨a, fun _ => rfl, fun u h => absurd h (by simp), .refl a _, rfl⟩
  | some u =>
      obtain ⟨hsome, hmem⟩ := ht u rfl
      obtain ⟨n, hn⟩ := Option.isSome_iff_exists.mp hsome
      obtain ⟨a', hget, hrel, hlinks⟩ :=
        getMut_relinked hn (w := fun n => { n with prev := m }) rfl hmem
      refine ⟨a', fun h => absurd h (by simp), fun v hv => ?_, hrel, hlinks.trans ?_⟩
      · cases hv; exact hget
      · simp [Chain.setPrev, links, hn]

theorem isSome_links {a : OrderArena} {s : Slot} : (a.links s).isSome ↔ (a.node? s).isSome := by
  simp [links]

/-- Links are read off the node. -/
theorem links_congr {a a' : OrderArena} {s : Slot} (h : a'.node? s = a.node? s) :
    a'.links s = a.links s := by simp [links, h]

theorem ordersAt_append (a : OrderArena) (xs ys : List Slot) :
    a.ordersAt (xs ++ ys) = a.ordersAt xs ++ a.ordersAt ys := List.filterMap_append

theorem ordersAt_cons {a : OrderArena} {s : Slot} {o : Order} (h : a.order? s = some o)
    (xs : List Slot) : a.ordersAt (s :: xs) = o :: a.ordersAt xs := by
  simp [ordersAt, h]

/-- The orders in some slots are a matter of these slots. -/
theorem ordersAt_congr {a a' : OrderArena} {xs : List Slot}
    (h : ∀ s ∈ xs, a'.order? s = a.order? s) : a'.ordersAt xs = a.ordersAt xs :=
  List.filterMap_congr h

/-- Every slot that holds an order gives one. -/
theorem length_ordersAt {a : OrderArena} {xs : List Slot} (h : ∀ s ∈ xs, (a.node? s).isSome) :
    (a.ordersAt xs).length = xs.length := by
  induction xs with
  | nil => rfl
  | cons s xs ih =>
      obtain ⟨n, hn⟩ := Option.isSome_iff_exists.mp (h s List.mem_cons_self)
      have hord : a.order? s = some n.order := by simp [order?, hn]
      rw [ordersAt_cons hord, List.length_cons, List.length_cons,
        ih fun t ht => h t (List.mem_cons_of_mem s ht)]

/-- The slots of a queue, split where its orders are. -/
theorem ordersAt_split {a : OrderArena} {slots : List Slot} {o : Order} {xs ys : List Order}
    (h : a.ordersAt slots = xs ++ o :: ys) :
    ∃ us t vs, slots = us ++ t :: vs ∧ a.ordersAt us = xs ∧ a.order? t = some o
      ∧ a.ordersAt vs = ys := by
  obtain ⟨us, rest, rfl, hus, hrest⟩ := List.filterMap_eq_append_iff.mp h
  obtain ⟨us', t, vs, rfl, hnone, ht, hvs⟩ := List.filterMap_eq_cons_iff.mp hrest
  refine ⟨us ++ us', t, vs, (List.append_assoc _ _ _).symm, ?_, ht, hvs⟩
  have hnil : a.ordersAt us' = [] := List.filterMap_eq_nil_iff.mpr hnone
  rw [ordersAt_append, hnil, List.append_nil]
  exact hus

/-- Slots that all hold a node hold no orders only when there are none. -/
theorem ordersAt_eq_nil {a : OrderArena} {slots : List Slot}
    (h : ∀ s ∈ slots, (a.node? s).isSome) : a.ordersAt slots = [] ↔ slots = [] := by
  rw [← List.length_eq_zero_iff, length_ordersAt h, List.length_eq_zero_iff]

end OrderArena

open OrderArena

/-- Appending a stored node never faults while the last node is stored. -/
theorem PriceLevel.pushBack_total {a : OrderArena} {s : Slot} (l : PriceLevel)
    (hs : (a.node? s).isSome) (htail : ∀ t, l.tail = some t → (a.node? t).isSome) :
    ∃ l' a', l.pushBack a s = .ok (l', a') ∧ a'.len = a.len := by
  obtain ⟨n, hn⟩ := Option.isSome_iff_exists.mp hs
  obtain ⟨a₁, hget₁, hrel₁, -⟩ := getMut_relinked hn
    (w := fun n => { n with prev := l.tail, next := none }) rfl (List.mem_singleton_self s)
  unfold PriceLevel.pushBack
  cases hl : l.tail with
  | none =>
      rw [hl] at hget₁
      refine ⟨⟨some s, some s, l.totalQuantity + n.order.remainingQty⟩, a₁, ?_, hrel₁.len⟩
      simp only [get_eq hn, hget₁, Machine.ok_bind, Machine.pure_eq_ok]
  | some t =>
      rw [hl] at hget₁
      obtain ⟨m, hm⟩ := Option.isSome_iff_exists.mp (hrel₁.isSome (htail t hl))
      obtain ⟨a₂, hget₂, hrel₂, -⟩ := getMut_relinked hm
        (w := fun n => { n with next := some s }) rfl (List.mem_singleton_self t)
      refine ⟨⟨l.head, some s, l.totalQuantity + n.order.remainingQty⟩, a₂, ?_,
        hrel₂.len.trans hrel₁.len⟩
      simp only [get_eq hn, hget₁, hget₂, Machine.ok_bind, Machine.pure_eq_ok]

/-- **A level is the doubly linked list of `slots`.** -/
structure QueueAt (a : OrderArena) (level : PriceLevel) (slots : List Slot) : Prop where
  head : level.head = slots.head?
  tail : level.tail = slots.getLast?
  linked : Chain.Linked a.links none slots none
  nodup : slots.Nodup
  total : level.totalQuantity = ((a.ordersAt slots).map Order.remainingQty).sum

namespace QueueAt

variable {a a' : OrderArena} {level : PriceLevel} {slots xs ys : List Slot} {s : Slot}

theorem empty (a : OrderArena) : QueueAt a {} [] := ⟨rfl, rfl, trivial, List.nodup_nil, rfl⟩

/-- The cached total is the depth of the queue, modulo `2 ^ 64`. -/
theorem total_modEq (h : QueueAt a level slots) :
    level.totalQuantity.toNat ≡ depth (a.ordersAt slots) [MOD 2 ^ 64] := by
  have hsum := toNat_sum_modEq ((a.ordersAt slots).map Order.remainingQty)
  rw [List.map_map] at hsum
  rw [h.total]
  exact hsum

/-- The level of no slots is the default one. -/
theorem eq_default (h : QueueAt a level []) : level = {} := by
  obtain ⟨hd, tl, q⟩ := level
  obtain ⟨h₁, h₂, -, -, h₃⟩ := h
  cases h₁; cases h₂; cases h₃; rfl

/-- A level is empty when it has no slots. -/
theorem isEmpty_iff (h : QueueAt a level slots) : level.isEmpty = true ↔ slots = [] := by
  unfold PriceLevel.isEmpty
  rw [h.head]
  cases slots <;> simp

theorem isSome (h : QueueAt a level slots) (hs : s ∈ slots) : (a.node? s).isSome :=
  isSome_links.mp (h.linked.isSome hs)

/-- A queue only reads its own slots. -/
theorem congr (h : QueueAt a level slots) (hf : ∀ t ∈ slots, a'.node? t = a.node? t) :
    QueueAt a' level slots := by
  refine ⟨h.head, h.tail, ?_, h.nodup, ?_⟩
  · exact (Chain.linked_congr fun t ht => (links_congr (hf t ht)).symm).mp h.linked
  · have hord : a'.ordersAt slots = a.ordersAt slots :=
      ordersAt_congr fun t ht => by simp [order?, hf t ht]
    rw [h.total, hord]

/-- **Appending** a stored node at the back of a queue. -/
theorem pushBack_spec {o : Order} (h : QueueAt a level slots) (hs : s ∉ slots)
    (ho : a.order? s = some o) :
    ∃ level' a', level.pushBack a s = .ok (level', a') ∧ QueueAt a' level' (slots ++ [s])
      ∧ Relinked a a' (slots ++ [s]) := by
  obtain ⟨n, hn, rfl⟩ := Option.map_eq_some_iff.mp ho
  have hmem : s ∈ slots ++ [s] := by simp
  obtain ⟨a₁, hget₁, hrel₁, hlinks₁⟩ := getMut_relinked hn
    (w := fun n => { n with prev := level.tail, next := none }) rfl hmem
  have hlinked₁ : Chain.Linked a₁.links none slots none := by
    refine (Chain.linked_congr fun t ht => ?_).mp h.linked
    rw [hlinks₁, Function.update_of_ne fun he => hs (by rw [← he]; exact ht)]
  have hself : a₁.links s = some (slots.getLast?, none) := by
    rw [hlinks₁, Function.update_self, h.tail]
  have hsum : ∀ b : OrderArena, b.order? = a.order? →
      level.totalQuantity + n.order.remainingQty
        = ((b.ordersAt (slots ++ [s])).map Order.remainingQty).sum := by
    intro b hb
    rw [ordersAt_append, ordersAt_congr (a := a) (fun t _ => congrFun hb t), h.total]
    simp [ordersAt, hb, ho]
  have hnd : (slots ++ [s]).Nodup := by
    refine List.nodup_append.mpr ⟨h.nodup, List.nodup_singleton s, ?_⟩
    rintro t ht u hu rfl
    exact hs (by rw [← List.mem_singleton.mp hu]; exact ht)
  have hlast : ∀ u, level.tail = some u → (a₁.node? u).isSome ∧ u ∈ slots ++ [s] := by
    intro u hu
    have hmem : u ∈ slots := List.mem_of_getLast? (h.tail.symm.trans hu)
    exact ⟨hrel₁.isSome (h.isSome hmem), List.mem_append_left [s] hmem⟩
  obtain ⟨a₂, hnone, hget₂, hrel₂, hlinks₂⟩ := setNext_spec hlast (some s)
  have hpush : Chain.Linked a₂.links none (slots ++ [s]) none := by
    rw [hlinks₂, h.tail]
    exact hlinked₁.push h.nodup hs hself
  have horder : a₂.order? = a.order? := hrel₂.order.trans hrel₁.order
  cases htail : level.tail with
  | none =>
      have hnil : slots = [] := List.getLast?_eq_none_iff.mp (h.tail.symm.trans htail)
      subst hnil
      refine ⟨⟨some s, some s, level.totalQuantity + n.order.remainingQty⟩, a₂, ?_,
        ⟨rfl, rfl, hpush, hnd, hsum a₂ horder⟩, hrel₁.trans hrel₂⟩
      rw [htail] at hget₁
      simp [PriceLevel.pushBack, get_eq hn, hget₁, htail, hnone htail]
  | some t =>
      have hhead : level.head = (slots ++ [s]).head? := by
        rw [h.head]
        cases slots with
        | nil => exact absurd (h.tail.symm.trans htail) (by simp)
        | cons u us => rfl
      refine ⟨⟨level.head, some s, level.totalQuantity + n.order.remainingQty⟩, a₂, ?_,
        ⟨hhead, by simp, hpush, hnd, hsum a₂ horder⟩, hrel₁.trans hrel₂⟩
      rw [htail] at hget₁
      simp [PriceLevel.pushBack, get_eq hn, hget₁, hget₂ t htail, htail]

/-- **Detaching** a node from any position of a queue. -/
theorem unlink_spec {o : Order} (h : QueueAt a level (xs ++ s :: ys)) (ho : a.order? s = some o) :
    ∃ level' a', level.unlink a s = .ok (level', a') ∧ QueueAt a' level' (xs ++ ys)
      ∧ Relinked a a' (xs ++ ys) := by
  obtain ⟨n, hn, rfl⟩ := Option.map_eq_some_iff.mp ho
  have hlinks : n.prev = xs.getLast? ∧ n.next = ys.head? := by
    have := h.linked.links_eq
    simp only [links, hn, Option.map_some, Option.or_none] at this
    exact Prod.mk.inj (Option.some.inj this)
  obtain ⟨hprev, hnext⟩ := hlinks
  have hnd : (xs ++ ys).Nodup := by
    refine h.nodup.sublist ?_
    exact List.Sublist.append_left (List.sublist_cons_self s ys) xs
  have hsum : ∀ b : OrderArena, b.order? = a.order? →
      level.totalQuantity - n.order.remainingQty
        = ((b.ordersAt (xs ++ ys)).map Order.remainingQty).sum := by
    intro b hb
    rw [ordersAt_congr (a := a) (fun t _ => congrFun hb t), h.total, ordersAt_append,
      ordersAt_cons ho, ordersAt_append]
    simp only [List.map_append, List.map_cons, List.sum_append, List.sum_cons]
    grind
  obtain ⟨a₁, hnone₁, hget₁, hrel₁, hlinks₁⟩ := setNext_spec (m := n.next) fun p hp => by
    have hmem : p ∈ xs := List.mem_of_getLast? (hprev.symm.trans hp)
    exact ⟨h.isSome (List.mem_append_left _ hmem), List.mem_append_left ys hmem⟩
  obtain ⟨a₂, hnone₂, hget₂, hrel₂, hlinks₂⟩ := setPrev_spec (m := n.prev) fun q hq => by
    have hmem : q ∈ ys := List.mem_of_head? (hnext.symm.trans hq)
    exact ⟨hrel₁.isSome (h.isSome (List.mem_append_right _ (List.mem_cons_of_mem s hmem))),
      List.mem_append_right xs hmem⟩
  have hunlink : Chain.Linked a₂.links none (xs ++ ys) none := by
    rw [hlinks₂, hlinks₁, hprev, hnext]
    exact h.linked.unlink h.nodup
  -- where the two writes leave the ends of the list
  have hhead : (if n.prev.isNone then n.next else level.head) = (xs ++ ys).head? := by
    rw [h.head, hprev, hnext]
    cases xs <;> simp
  have htail : (if n.next.isNone then n.prev else level.tail) = (xs ++ ys).getLast? := by
    rw [h.tail, hprev, hnext]
    cases ys <;> simp
  refine ⟨⟨if n.prev.isNone then n.next else level.head, if n.next.isNone then n.prev else level.tail,
      level.totalQuantity - n.order.remainingQty⟩, a₂, ?_,
    ⟨hhead, htail, hunlink, hnd, hsum a₂ (hrel₂.order.trans hrel₁.order)⟩, hrel₁.trans hrel₂⟩
  unfold PriceLevel.unlink
  rw [get_eq hn]
  obtain ⟨o, prev, next⟩ := n
  dsimp only at hnone₁ hget₁ hnone₂ hget₂ ⊢
  cases prev with
  | none =>
      cases next with
      | none => simp [hnone₁, hnone₂]
      | some q => simp [← hnone₁ rfl, hget₂ q rfl]
  | some p =>
      cases next with
      | none => simp [hget₁ p rfl, hnone₂]
      | some q => simp [hget₁ p rfl, hget₂ q rfl]

end QueueAt
end LimitOrderBook
