import LimitOrderBook.Lib.Machine
import LimitOrderBook.Reference.Fill

/-!
# `Reference.Invariant` — what holds of a priority book after every command

`Step` says once what a command can do to a priority book, guards included: it is rejected and changes nothing, it
submits an order, takes one out, or takes one out and submits it changed. `exec_step` is the lemma that the laws about
runs start from; none of them unfolds a command.

`Valid` is the invariant: sides in priority order, every order on its own side and with something left, ids distinct
and accepted, and no bid that reaches an ask. It is proved part by part for submitting an order (`sorted_submit`,
`distinct_submit`, `positive_submit`, `uncrossed_submit`), then for a step (`Valid.step`) and a run (`Valid.run`).

Before these stand the small facts that the parts are made of: how the operations act on the sides and on the accepted
ids, what `restLeft` adds to a side, and which orders are in the book after a submission (`mem_orders_submit`).
-/

namespace LimitOrderBook

theorem Side.eq_or_eq_opposite (s t : Side) : s = t ∨ s = t.opposite := by
  cases s <;> cases t <;> simp [Side.opposite]

namespace PriorityBook

/-! ## Reading the book -/

section Reading

variable {p : PriorityBook} {o : Order} {id : OrderId}

/-- An order of the book is on one of its sides. -/
theorem mem_orders : o ∈ p.orders ↔ ∃ s, o ∈ p.side s := by
  unfold orders
  rw [List.mem_append]
  constructor
  · rintro (h | h)
    · exact ⟨.buy, h⟩
    · exact ⟨.sell, h⟩
  · rintro ⟨s, h⟩
    cases s with
    | buy => exact Or.inl h
    | sell => exact Or.inr h

/-- The orders of the book, named from either side. -/
theorem orders_perm (p : PriorityBook) (s : Side) :
    (p.side s ++ p.side s.opposite).Perm p.orders := by
  cases s with
  | buy => exact List.Perm.refl _
  | sell => exact List.perm_append_comm

theorem length_orders (p : PriorityBook) (s : Side) :
    p.orders.length = (p.side s).length + (p.side s.opposite).length := by
  rw [← (p.orders_perm s).length_eq, List.length_append]

/-- An id is not found when no order has it. -/
theorem find?_eq_none : p.find? id = none ↔ ∀ o ∈ p.orders, o.id ≠ id := by
  unfold find?
  simp [List.find?_eq_none]

/-- What is found is in the book and has the id. -/
theorem of_find? (h : p.find? id = some o) : o.id = id ∧ o ∈ p.orders := by
  unfold find? at h
  exact ⟨by simpa using List.find?_some h, List.mem_of_find?_eq_some h⟩

@[simp] theorem accepted_accept (p : PriorityBook) (id : OrderId) :
    (p.accept id).accepted = insert id p.accepted := rfl

@[simp] theorem side_without (p : PriorityBook) (id : OrderId) (s : Side) :
    (p.without id).side s = (p.side s).filter fun o => o.id ≠ id := rfl

@[simp] theorem accepted_without (p : PriorityBook) (id : OrderId) :
    (p.without id).accepted = p.accepted := rfl

@[simp] theorem accepted_submit (p : PriorityBook) (o : Order) : (p.submit o).1.accepted = p.accepted := rfl

theorem mem_orders_without : o ∈ (p.without id).orders ↔ o ∈ p.orders ∧ o.id ≠ id := by
  rw [mem_orders, mem_orders]
  simp only [side_without, List.mem_filter, decide_eq_true_eq]
  exact ⟨fun ⟨s, h, hid⟩ => ⟨⟨s, h⟩, hid⟩, fun ⟨⟨s, h⟩, hid⟩ => ⟨s, h, hid⟩⟩

end Reading

/-! ## Resting what is left -/

section RestLeft

variable {o : Order}

/-- What is left of the order joins its side, and nothing else does. -/
theorem mem_restLeft {left : Quantity} {own : List Order} {x : Order} :
    x ∈ restLeft o left own ↔ x ∈ own ∨ (left ≠ 0 ∧ x = { o with remainingQty := left }) := by
  unfold restLeft
  by_cases h : left = 0
  · simp [h]
  · rw [if_neg h, List.mem_orderedInsert]
    simp [h, or_comm]

/-- The orders that rested keep their order when one more joins them. -/
theorem sublist_restLeft (o : Order) (left : Quantity) (own : List Order) :
    own.Sublist (restLeft o left own) := by
  unfold restLeft
  split
  · exact List.Sublist.refl _
  · exact List.sublist_orderedInsert _ _

/-- It joins in its place. -/
theorem sorted_restLeft {left : Quantity} {own : List Order}
    (h : own.Pairwise fun x y => ¬o.side.ahead y x) :
    (restLeft o left own).Pairwise fun x y => ¬o.side.ahead y x := by
  unfold restLeft
  split
  · exact h
  · have hown : own.Pairwise fun x y => ¬o.side.better y.price x.price := h
    exact Ladder.sorted_orderedInsert hown _

theorem perm_restLeft {left : Quantity} {own : List Order} (h : left ≠ 0) :
    (restLeft o left own).Perm ({ o with remainingQty := left } :: own) := by
  unfold restLeft
  rw [if_neg h]
  exact List.perm_orderedInsert _ _ _

/-- The side grows by one order, or by none when nothing is left. -/
theorem length_restLeft (o : Order) (left : Quantity) (own : List Order) :
    (restLeft o left own).length = own.length + if left = 0 then 0 else 1 := by
  unfold restLeft
  split_ifs
  · rfl
  · exact List.orderedInsert_length _ _ _

end RestLeft

/-! ## What a command can do -/

/-- What submitting does to the two sides. -/
theorem submit_spec (p : PriorityBook) (o : Order) :
    ∃ left, Fills o (p.side o.side.opposite) o.remainingQty ((p.submit o).1.side o.side.opposite) left
        (p.submit o).2
      ∧ (p.submit o).1.side o.side = restLeft o left (p.side o.side) := by
  refine ⟨(fill o (p.side o.side.opposite) o.remainingQty).2.1, ?_, ?_⟩
  · unfold submit
    rw [side_withSides_opposite]
    exact fill_fills o _ _
  · unfold submit
    rw [side_withSides_own]

theorem place_id {x y : Order} (h : x.place = y.place) : x.id = y.id := congrArg Prod.fst h

theorem place_side {x y : Order} (h : x.place = y.place) : x.side = y.side := congrArg (fun k => k.2.1) h

theorem place_price {x y : Order} (h : x.place = y.place) : x.price = y.price := congrArg (fun k => k.2.2) h

/-- An order of a side after submitting `o` is what is left of `o`, or it rested before in the same place. -/
theorem of_mem_side_submit {p : PriorityBook} {o x : Order} {s : Side} (h : x ∈ (p.submit o).1.side s) :
    (s = o.side ∧ x.place = o.place) ∨ ∃ y ∈ p.side s, y.place = x.place := by
  obtain ⟨left, hfills, hown⟩ := p.submit_spec o
  rcases s.eq_or_eq_opposite o.side with rfl | rfl
  · rw [hown, mem_restLeft] at h
    rcases h with h | ⟨-, rfl⟩
    · exact Or.inr ⟨x, h, rfl⟩
    · exact Or.inl ⟨rfl, rfl⟩
  · exact Or.inr (hfills.exists_of_mem h)

/-- An order of the book after submitting `o` is `o`, or it rested before in the same place. -/
theorem mem_orders_submit {p : PriorityBook} {o x : Order} (h : x ∈ (p.submit o).1.orders) :
    x.id = o.id ∨ ∃ y ∈ p.orders, y.place = x.place := by
  obtain ⟨s, hx⟩ := mem_orders.mp h
  rcases of_mem_side_submit hx with ⟨-, hplace⟩ | ⟨y, hy, hplace⟩
  · exact Or.inl (place_id hplace)
  · exact Or.inr ⟨y, mem_orders.mpr ⟨_, hy⟩, hplace⟩

/-- Why a command is rejected. -/
inductive Rejects (p : PriorityBook) : ScenarioCommand → OrderBookError → Prop
  | addZero {o : Order} (h : o.remainingQty = 0) : Rejects p (.add o) .zeroQuantity
  | addSeen {o : Order} (h0 : o.remainingQty ≠ 0) (h : o.id ∈ p.accepted) : Rejects p (.add o) .duplicateOrderId
  | cancelUnknown {id : OrderId} (h : p.find? id = none) : Rejects p (.cancel id) .unknownOrderId
  | modifyZero (id : OrderId) (price : Price) : Rejects p (.modify id price 0) .zeroQuantity
  | modifyUnknown {id : OrderId} {price : Price} {qty : Quantity} (h0 : qty ≠ 0) (h : p.find? id = none) :
      Rejects p (.modify id price qty) .unknownOrderId

/-- **What a command can do**: be rejected, submit a new order, take an order out, or take one out and
    submit it changed. -/
inductive Step (p : PriorityBook) : ScenarioCommand → PriorityBook → CommandResult → Prop
  | rejected {c : ScenarioCommand} {e : OrderBookError} (h : p.Rejects c e) : Step p c p (.error e)
  | added {o : Order} (h0 : o.remainingQty ≠ 0) (hnew : o.id ∉ p.accepted) :
      Step p (.add o) ((p.accept o.id).submit o).1 (.ok ((p.accept o.id).submit o).2)
  | cancelled {id : OrderId} {old : Order} (hold : p.find? id = some old) : Step p (.cancel id) (p.without id) (.ok [])
  | modified {id : OrderId} {old : Order} {price : Price} {qty : Quantity} (h0 : qty ≠ 0)
      (hold : p.find? id = some old) :
      Step p (.modify id price qty) ((p.without id).submit (Order.new id old.side price qty)).1
        (.ok ((p.without id).submit (Order.new id old.side price qty)).2)

/-- `exec` does what `Step` says. -/
theorem exec_step (p : PriorityBook) (c : ScenarioCommand) : p.Step c (p.exec c).1 (p.exec c).2 := by
  cases c with
  | add o =>
      simp only [exec, addOrder]
      by_cases h0 : o.remainingQty = 0
      · rw [if_pos h0]
        exact .rejected (.addZero h0)
      · rw [if_neg h0]
        by_cases hid : o.id ∈ p.accepted
        · rw [if_pos hid]
          exact .rejected (.addSeen h0 hid)
        · rw [if_neg hid]
          exact .added h0 hid
  | cancel id =>
      simp only [exec, cancelOrder]
      cases hfind : p.find? id with
      | none => exact .rejected (.cancelUnknown hfind)
      | some old => exact .cancelled hfind
  | modify id price qty =>
      simp only [exec, modifyOrder]
      by_cases h0 : qty = 0
      · rw [if_pos h0, h0]
        exact .rejected (.modifyZero id price)
      · rw [if_neg h0]
        cases hfind : p.find? id with
        | none => exact .rejected (.modifyUnknown h0 hfind)
        | some old => exact .modified h0 hfind

/-- Adding an order under a fresh id submits it. -/
theorem exec_add {p : PriorityBook} {id : OrderId} {qty : Quantity} (hnew : id ∉ p.accepted) (h0 : qty ≠ 0)
    (s : Side) (price : Price) :
    p.exec (.add (Order.new id s price qty))
      = (((p.accept id).submit (Order.new id s price qty)).1,
        .ok ((p.accept id).submit (Order.new id s price qty)).2) := by
  have h0 : ¬(Order.new id s price qty).remainingQty = 0 := h0
  have hnew : (Order.new id s price qty).id ∉ p.accepted := hnew
  simp only [exec, addOrder]
  rw [if_neg h0, if_neg hnew]
  rfl

/-- Modifying an order of the book takes it out and submits it changed. -/
theorem exec_modify {p : PriorityBook} {id : OrderId} {old : Order} {qty : Quantity}
    (hold : p.find? id = some old) (h0 : qty ≠ 0) (price : Price) :
    p.exec (.modify id price qty)
      = (((p.without id).submit (Order.new id old.side price qty)).1,
        .ok ((p.without id).submit (Order.new id old.side price qty)).2) := by
  simp only [exec, modifyOrder]
  rw [if_neg h0, hold]

/-! ## The invariant -/

structure Valid (p : PriorityBook) : Prop where
  sided : ∀ s, ∀ o ∈ p.side s, o.side = s
  positive : ∀ s, ∀ o ∈ p.side s, o.remainingQty ≠ 0
  sorted : ∀ s, (p.side s).Pairwise fun x y => ¬s.ahead y x
  distinct : (p.orders.map Order.id).Nodup
  known : ∀ o ∈ p.orders, o.id ∈ p.accepted
  uncrossed : ∀ s, ∀ x ∈ p.side s, ∀ y ∈ p.side s.opposite, ¬s.crosses x.price y.price

variable {p : PriorityBook} {o : Order} {id : OrderId} {s : Side}

/-- No price of one side reaches the other, whichever side is named first. -/
theorem not_crosses_symm {p q : Price} (h : ¬s.crosses p q) : ¬s.opposite.crosses q p := by
  cases s <;> exact h

theorem valid_empty : Valid {} := by
  refine ⟨?_, ?_, ?_, List.nodup_nil, ?_, ?_⟩ <;> simp [orders]

namespace Valid

theorem distinct_sides (h : Valid p) (s : Side) :
    ((p.side s ++ p.side s.opposite).map Order.id).Nodup :=
  ((p.orders_perm s).map Order.id).nodup_iff.mpr h.distinct

theorem nodup_side (h : Valid p) (s : Side) : ((p.side s).map Order.id).Nodup := by
  have hsides := h.distinct_sides s
  rw [List.map_append] at hsides
  exact hsides.of_append_left

/-- No id is on both sides. -/
theorem not_mem_opposite (h : Valid p) (hmem : id ∈ (p.side s).map Order.id) :
    id ∉ (p.side s.opposite).map Order.id := by
  have hsides := h.distinct_sides s
  rw [List.map_append] at hsides
  exact List.disjoint_of_nodup_append hsides hmem

/-- An id that was not accepted is new to the book. -/
theorem fresh (h : Valid p) (hnew : id ∉ p.accepted) : ∀ x ∈ p.orders, x.id ≠ id := by
  intro x hx hid
  exact hnew (hid ▸ h.known x hx)

/-- Orders of a valid book with one id are one order. -/
theorem eq_of_id (h : Valid p) {x y : Order} (hx : x ∈ p.orders) (hy : y ∈ p.orders)
    (hid : x.id = y.id) : x = y := List.inj_on_of_nodup_map h.distinct hx hy hid

/-- In a valid book the order of an id is the only one. -/
theorem find?_eq_some (h : Valid p) : p.find? id = some o ↔ o ∈ p.orders ∧ o.id = id := by
  constructor
  · intro hfind
    exact (of_find? hfind).symm
  · rintro ⟨ho, hid⟩
    cases hfind : p.find? id with
    | none => exact absurd hid (find?_eq_none.mp hfind o ho)
    | some o' =>
        obtain ⟨hid', ho'⟩ := of_find? hfind
        rw [h.eq_of_id ho' ho (hid'.trans hid.symm)]

theorem accept (h : Valid p) (id : OrderId) : Valid (p.accept id) :=
  ⟨h.sided, h.positive, h.sorted, h.distinct, fun o ho => Finset.mem_insert_of_mem (h.known o ho),
    h.uncrossed⟩

theorem without (h : Valid p) (id : OrderId) : Valid (p.without id) := by
  refine ⟨?_, ?_, ?_, ?_, ?_, ?_⟩
  · intro s o ho
    exact h.sided s o (List.mem_of_mem_filter ho)
  · intro s o ho
    exact h.positive s o (List.mem_of_mem_filter ho)
  · intro s
    exact (h.sorted s).filter _
  · unfold orders
    rw [side_without, side_without, ← List.filter_append]
    exact h.distinct.sublist (List.filter_sublist.map Order.id)
  · intro o ho
    exact h.known o (mem_orders_without.mp ho).1
  · intro s x hx y hy
    exact h.uncrossed s x (List.mem_of_mem_filter hx) y (List.mem_of_mem_filter hy)

/-- What is left of an order that is partly filled is not nothing. -/
theorem positive_submit (h : Valid p) (o : Order) (s : Side) : ∀ x ∈ (p.submit o).1.side s, x.remainingQty ≠ 0 := by
  obtain ⟨left, hfills, hown⟩ := p.submit_spec o
  intro x hx
  rcases s.eq_or_eq_opposite o.side with rfl | rfl
  · rw [hown, mem_restLeft] at hx
    rcases hx with hx | ⟨hleft, rfl⟩
    · exact h.positive _ x hx
    · exact hleft
  · exact hfills.positive (h.positive _) x hx

/-- Filling takes from the front, and resting keeps the order. -/
theorem sorted_submit (h : Valid p) (o : Order) (s : Side) :
    ((p.submit o).1.side s).Pairwise fun x y => ¬s.ahead y x := by
  obtain ⟨left, hfills, hown⟩ := p.submit_spec o
  rcases s.eq_or_eq_opposite o.side with rfl | rfl
  · rw [hown]
    exact sorted_restLeft (h.sorted _)
  · -- the prices left on the opposite side are a last part of the old ones
    have hprices : ∀ zs : List Order, (zs.Pairwise fun x y => ¬o.side.opposite.ahead y x)
        ↔ (zs.map Order.place).Pairwise fun j k => ¬o.side.opposite.better k.2.2 j.2.2 := by
      intro zs
      rw [List.pairwise_map]
      rfl
    rw [hprices]
    exact ((hprices _).mp (h.sorted _)).sublist hfills.places.sublist

/-- What is left of both sides has distinct old ids, and the incoming order brings a new one. -/
theorem distinct_submit (h : Valid p) (hnew : ∀ x ∈ p.orders, x.id ≠ o.id) :
    ((p.submit o).1.orders.map Order.id).Nodup := by
  obtain ⟨left, hfills, hown⟩ := p.submit_spec o
  refine ((orders_perm _ o.side).map Order.id).nodup_iff.mp ?_
  have hold : (((p.side o.side) ++ (p.submit o).1.side o.side.opposite).map Order.id).Nodup := by
    refine (h.distinct_sides o.side).sublist ?_
    rw [List.map_append, List.map_append]
    exact (List.Sublist.refl _).append hfills.ids.sublist
  rw [hown]
  by_cases hleft : left = 0
  · unfold restLeft
    rw [if_pos hleft]
    exact hold
  · have hrest : (restLeft o left (p.side o.side)).Perm
        ({ o with remainingQty := left } :: p.side o.side) := perm_restLeft hleft
    have hperm := (hrest.append_right ((p.submit o).1.side o.side.opposite)).map Order.id
    refine hperm.nodup_iff.mpr (List.nodup_cons.mpr ⟨?_, hold⟩)
    intro hmem
    obtain ⟨x, hx, hid⟩ := List.mem_map.mp hmem
    rcases List.mem_append.mp hx with hx | hx
    · exact hnew x (mem_orders.mpr ⟨_, hx⟩) hid
    · obtain ⟨x', hx', hplace⟩ := hfills.exists_of_mem hx
      exact hnew x' (mem_orders.mpr ⟨_, hx'⟩) ((place_id hplace).trans hid)

/-- An order only rests when it crosses nothing any more. -/
theorem uncrossed_submit (h : Valid p) (o : Order) (s : Side) :
    ∀ x ∈ (p.submit o).1.side s, ∀ y ∈ (p.submit o).1.side s.opposite, ¬s.crosses x.price y.price := by
  obtain ⟨left, hfills, hown⟩ := p.submit_spec o
  -- it is enough to look from the side of the incoming order
  have hcore : ∀ x ∈ (p.submit o).1.side o.side, ∀ y ∈ (p.submit o).1.side o.side.opposite,
      ¬o.side.crosses x.price y.price := by
    intro x hx y hy
    rw [hown, mem_restLeft] at hx
    rcases hx with hx | ⟨hleft, rfl⟩
    · obtain ⟨y', hy', hplace⟩ := hfills.exists_of_mem hy
      rw [← place_price hplace]
      exact h.uncrossed _ x hx y' hy'
    · exact hfills.not_crosses (h.sorted _) hleft y hy
  intro x hx y hy
  rcases s.eq_or_eq_opposite o.side with rfl | rfl
  · exact hcore x hx y hy
  · rw [Side.opposite_opposite] at hy
    exact not_crosses_symm (hcore y hy x hx)

/-- **Submitting** an order with a new id keeps the book valid. -/
theorem submit (h : Valid p) (hnew : ∀ x ∈ p.orders, x.id ≠ o.id) (hacc : o.id ∈ p.accepted) :
    Valid (p.submit o).1 := by
  refine ⟨?_, h.positive_submit o, h.sorted_submit o, h.distinct_submit hnew, ?_, h.uncrossed_submit o⟩
  · intro s x hx
    rcases of_mem_side_submit hx with ⟨rfl, hplace⟩ | ⟨y, hy, hplace⟩
    · exact place_side hplace
    · rw [← place_side hplace]
      exact h.sided s y hy
  · intro x hx
    rw [accepted_submit]
    rcases mem_orders_submit hx with hid | ⟨y, hy, hplace⟩
    · rw [hid]
      exact hacc
    · rw [← place_id hplace]
      exact h.known y hy

/-- **Every step keeps the book valid.** -/
theorem step (h : Valid p) {c : ScenarioCommand} {p' : PriorityBook} {res : CommandResult}
    (hstep : p.Step c p' res) : Valid p' := by
  cases hstep with
  | rejected _ => exact h
  | @added o h0 hnew =>
      exact (h.accept o.id).submit (h.fresh hnew) (Finset.mem_insert_self _ _)
  | cancelled _ => exact h.without _
  | @modified id old price qty h0 hold =>
      obtain ⟨hid, hmem⟩ := of_find? hold
      refine (h.without id).submit ?_ ?_
      · intro x hx
        exact (mem_orders_without.mp hx).2
      · exact hid ▸ h.known old hmem

theorem exec (h : Valid p) (c : ScenarioCommand) : Valid (p.exec c).1 := h.step (p.exec_step c)

/-- **Every run of commands ends in a valid book.** -/
theorem run (h : Valid p) (cmds : List ScenarioCommand) : Valid (Machine.run PriorityBook.exec p cmds).1 :=
  Machine.run_invariant (fun _ c hp => hp.exec c) h cmds

end Valid
end PriorityBook
end LimitOrderBook
