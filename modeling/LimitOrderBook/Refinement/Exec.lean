import LimitOrderBook.Events.Log
import LimitOrderBook.Refinement.Matching

/-!
# `Refinement.Exec` — every call of the book refines the reference call

The last step of the refinement: what each call of the book does is what the reference call does. Removing, resting
and submitting an order are one lemma each, `Refines.addOrder`, `Refines.cancelOrder` and `Refines.modifyOrder` put
them together, and `Refines.exec` is the lemma for any command.

A call on a book that refines its reference never faults and returns the reference result. Afterwards the book refines
the reference again unless more than `2 ^ 32` orders rest, when a slot no longer fits a `u32`; even then it still
counts them. `Tracks` is this relation after a call: it holds without a bound, and is a refinement within it. Events
do not enter into it, so logging keeps both (`Refines.log`, `Tracks.log`).

Two lemmas are about whole runs. `run_refines` is the refinement of a run in which never more than `2 ^ 32` orders
rest, and `neverOverfull_iff` says that whether a run is of this kind can be seen on the reference run.
-/

namespace LimitOrderBook

/-! ## Reference books and their queues -/

namespace ReferenceBook

/-- A reference book is its queues and its accepted ids. -/
theorem ext_queue {r r' : ReferenceBook} (hqueue : ∀ s p, r.queue s p = r'.queue s p)
    (hacc : r.accepted = r'.accepted) : r = r' := by
  have hbids : r.bids = r'.bids := Ladder.ext_queueAt (hqueue .buy)
  have hasks : r.asks = r'.asks := Ladder.ext_queueAt (hqueue .sell)
  cases r
  cases r'
  cases hbids
  cases hasks
  cases hacc
  rfl

/-- Removing an id takes it out of every queue. -/
theorem queue_without (r : ReferenceBook) (id : OrderId) (s : Side) (p : Price) :
    (r.without id).queue s p = (r.queue s p).filter fun o => o.id ≠ id := by
  unfold queue
  rw [ladder_without, Ladder.queueAt_filterMap, List.filterMap_eq_filter]

/-- An id is not found when no queue has it. -/
theorem find?_eq_none {r : ReferenceBook} {id : OrderId} :
    r.find? id = none ↔ ∀ s p, ∀ o ∈ r.queue s p, o.id ≠ id := by
  unfold find?
  rw [List.find?_eq_none]
  constructor
  · intro h s p o ho
    exact of_decide_eq_false (Bool.eq_false_iff.mpr (h o (mem_orders.mpr ⟨s, p, ho⟩)))
  · intro h o ho
    obtain ⟨s, p, ho⟩ := mem_orders.mp ho
    simpa using h s p o ho

/-- What is found rests in the book and has the id. -/
theorem of_find? {r : ReferenceBook} {id : OrderId} {o : Order} (h : r.find? id = some o) :
    o.id = id ∧ o ∈ r.orders := by
  unfold find? at h
  exact ⟨by simpa using List.find?_some h, List.mem_of_find?_eq_some h⟩

end ReferenceBook

/-- `b` counts the orders of `r`, and refines it unless there are more of them than slots. -/
structure Tracks (b : OrderBook) (r : ReferenceBook) : Prop where
  count : b.arena.len = r.restingOrderCount
  refines : r.restingOrderCount ≤ 2 ^ 32 → Refines b r

/-! ## Logging -/

/-- The event log and the configuration have no part in the refinement. -/
theorem Refines.withLog {b : OrderBook} {r : ReferenceBook} (h : Refines b r) (events : List BookEvent)
    (config : OrderBookConfig) : Refines (b.withLog events config) r := by
  refine ⟨h.holds.congr (funext ?_) rfl rfl, h.seen, h.known, h.count⟩
  intro s
  exact OrderBook.levels_withLog b s

/-- Events do not matter to the refinement. -/
theorem Refines.log {b : OrderBook} {r : ReferenceBook} (h : Refines b r) (events : List BookEvent) :
    Refines (b.log events) r := h.withLog _ _

theorem Tracks.log {b : OrderBook} {r : ReferenceBook} (h : Tracks b r) (events : List BookEvent) :
    Tracks (b.log events) r := ⟨h.count, fun hle => (h.refines hle).log events⟩

namespace Refines

variable {b b' : OrderBook} {r : ReferenceBook} {incoming : Order} {id : OrderId}

theorem tracks (h : Refines b r) : Tracks b r := ⟨h.count, fun _ => h⟩

/-! ## Removing an order -/

/-- Removing an id that is not in the book does nothing. -/
theorem removeOrderById_none (h : Refines b r) (hfind : r.find? id = none) :
    b.removeOrderById id = .ok (b, none) := by
  have hindex : b.orderSlots[id]? = none :=
    h.holds.store.index_eq_none.mpr (ReferenceBook.find?_eq_none.mp hfind)
  unfold OrderBook.removeOrderById
  rw [hindex]
  rfl

/-- Taking one order out of its queue takes its id out of the book. -/
theorem without_eq (h : Refines b r) {o : Order} {xs ys : List Order}
    (hsplit : r.queue o.side o.price = xs ++ o :: ys) :
    r.without o.id = r.setLadder o.side ((r.ladder o.side).setQueue o.price (xs ++ ys)) := by
  have hnd := h.holds.store.nodup o.side o.price
  refine ReferenceBook.ext_queue ?_ (by rw [ReferenceBook.accepted_setLadder]; rfl)
  intro s p
  rw [ReferenceBook.queue_without, ReferenceBook.queue_setQueue]
  by_cases hsp : s = o.side ∧ p = o.price
  · rw [hsp.1, hsp.2, setAt_self, hsplit]
    rw [hsplit, List.map_append, List.map_cons] at hnd
    have hout : o.id ∉ (xs ++ ys).map Order.id := by
      rw [List.map_append]
      exact (List.nodup_cons.mp (List.nodup_middle.mp hnd)).1
    -- in its own queue the id occurs once
    have hkeep : ∀ x ∈ xs ++ ys, decide (x.id ≠ o.id) = true := by
      intro x hx
      exact decide_eq_true fun he => hout (List.mem_map.mpr ⟨x, hx, he⟩)
    rw [List.filter_append, List.filter_cons_of_neg (by simp), ← List.filter_append,
      List.filter_eq_self.mpr hkeep]
  · rw [setAt_of_ne hsp, List.filter_eq_self]
    intro x hx
    apply decide_eq_true
    intro hid
    -- in any other queue it does not occur at all
    have hmem : o ∈ r.queue o.side o.price := by rw [hsplit]; simp
    have heq : x = o := h.holds.store.eq_of_id hx hmem hid
    obtain ⟨hs, hp, -⟩ := h.holds.store.order_at hx
    exact hsp ⟨by rw [← hs, heq], by rw [← hp, heq]⟩

/-- **Removing an order** that is in the book takes it out and returns it. -/
theorem removeOrderById_some (h : Refines b r) {o : Order} (hfind : r.find? id = some o) :
    ∃ b', b.removeOrderById id = .ok (b', some o) ∧ Refines b' (r.without id) := by
  obtain ⟨rfl, hmem⟩ := ReferenceBook.of_find? hfind
  obtain ⟨s, p, ho⟩ := ReferenceBook.mem_orders.mp hmem
  obtain ⟨rfl, rfl, -⟩ := h.holds.store.order_at ho
  obtain ⟨xs, ys, hsplit⟩ := List.append_of_mem ho
  obtain ⟨t, n, level, a₁, a₂, hindex, hget, hno, -, hunlink, hremove, -, hlen, -, hstore⟩ :=
    h.holds.store.take hsplit
  have hlevel := h.holds.getElem?_eq (s := o.side) (p := o.price) (List.ne_nil_of_mem ho)
  have hholds : Holds (OrderBook.putLevel { b with arena := a₂, orderSlots := b.orderSlots.erase o.id }
      o.side o.price level) (setAt r.queue o.side o.price (xs ++ ys)) :=
    Holds.putLevel hstore h.holds.opened
  rw [h.without_eq hsplit]
  refine ⟨_, ?_, h.setQueue hholds ?_ ?_ ?_⟩
  · -- the code: index, node, level, unlink, put back, free the slot
    unfold OrderBook.removeOrderById
    rw [hindex]
    simp only [hget, Machine.ok_bind, hno]
    have hsame : OrderBook.levels { b with orderSlots := b.orderSlots.erase o.id } o.side
        = b.levels o.side := by cases o.side <;> rfl
    rw [hsame, hlevel]
    simp only [hunlink, Machine.ok_bind, Machine.pure_eq_ok]
    rw [OrderBook.arena_putLevel, hremove]
    simp only [Machine.ok_bind]
    cases o.side <;> rfl
  · cases o.side <;> rfl
  · intro x hx
    refine h.known x (ReferenceBook.mem_orders.mpr ⟨o.side, o.price, ?_⟩)
    rw [hsplit]
    rcases List.mem_append.mp hx with hx | hx
    · exact List.mem_append_left _ hx
    · exact List.mem_append_right _ (List.mem_cons_of_mem o hx)
  · rw [OrderBook.arena_putLevel, hsplit]
    simp only [List.length_append, List.length_cons]
    omega

/-! ## Resting an order -/

/-- Resting never faults, whatever the order and however many slots are left. -/
theorem restOrder_total (h : Refines b r) (o : Order) :
    ∃ b', b.restOrder o = .ok b' ∧ b'.arena.len = b.arena.len + 1 := by
  obtain ⟨a₁, t, level, a₂, hins, hpush, hlen⟩ := h.holds.store.rest_total o
  unfold OrderBook.restOrder
  unfold OrderBook.levelAt at hpush
  simp only [hins, Machine.ok_bind, hpush, Machine.pure_eq_ok]
  refine ⟨_, rfl, ?_⟩
  cases o.side <;> exact hlen

/-- **Resting** an order with a new id pushes it on its reference queue, when a slot is left for it. -/
theorem restOrder (h : Refines b r) {o : Order} (hnew : ∀ x ∈ r.orders, x.id ≠ o.id)
    (hacc : o.id ∈ r.accepted) :
    ∃ b', b.restOrder o = .ok b'
      ∧ Tracks b' (r.setLadder o.side ((r.ladder o.side).push o.price o)) := by
  have hcount := r.restingOrderCount_push o.side o.price o
  have hindex : b.orderSlots[o.id]? = none := h.holds.store.index_eq_none.mpr fun s p x hx =>
    hnew x (ReferenceBook.mem_orders.mpr ⟨s, p, hx⟩)
  by_cases hlt : b.arena.len < 2 ^ 32
  · obtain ⟨a₁, t, level, a₂, hins, hpush, hempty, hlen, hstore⟩ := h.holds.store.rest hlt hindex
    have hholds : Holds (OrderBook.putLevel
        { b with arena := a₂, orderSlots := b.orderSlots.insert o.id t } o.side o.price level)
        (setAt r.queue o.side o.price (r.queue o.side o.price ++ [o])) :=
      Holds.putLevel hstore h.holds.opened
    refine ⟨_, ?_, (h.setQueue hholds ?_ ?_ ?_).tracks⟩
    · unfold OrderBook.restOrder
      unfold OrderBook.levelAt at hpush
      simp only [hins, Machine.ok_bind, hpush, Machine.pure_eq_ok]
      unfold OrderBook.putLevel
      rw [hempty]
      cases o.side <;> rfl
    · cases o.side <;> rfl
    · intro x hx
      rcases List.mem_append.mp hx with hx | hx
      · exact h.known x (ReferenceBook.mem_orders.mpr ⟨_, _, hx⟩)
      · rw [List.mem_singleton.mp hx]
        exact hacc
    · have hlength : (r.queue o.side o.price).length = ((r.ladder o.side).queueAt o.price).length := rfl
      rw [OrderBook.arena_putLevel, hlen, hlength, List.length_append, List.length_singleton]
      omega
  · -- with every slot taken, the rested order is one too many
    obtain ⟨b', hb', hlen⟩ := h.restOrder_total o
    have hold := h.count
    refine ⟨b', hb', ?_, ?_⟩
    · rw [hlen, hcount, hold]
    · intro hle
      omega

/-! ## Submitting an order -/

/-- A sweep leaves orders that were in the book. -/
theorem mem_orders_sweep {o : Order}
    (ho : o ∈ (r.setLadder incoming.side.opposite
      (ReferenceBook.sweepSide incoming (r.ladder incoming.side.opposite)).1).orders) :
    ∃ x ∈ r.orders, x.id = o.id := by
  obtain ⟨s, p, ho⟩ := ReferenceBook.mem_orders.mp ho
  by_cases hs : s = incoming.side.opposite
  · subst hs
    -- every level the sweep leaves is made of orders that were in the book
    let P : Price → List Order → Prop := fun _ xs => ∀ x ∈ xs, ∃ y ∈ r.orders, y.id = x.id
    have hstep : ∀ p xs left, P p xs → P p (fillQueue incoming.id p xs left).1 := by
      intro p xs left hxs x hx
      obtain ⟨x', hx', hid⟩ := mem_fillQueue hx
      obtain ⟨y, hy, hyid⟩ := hxs x' hx'
      exact ⟨y, hy, hyid.trans hid⟩
    have hstart : ∀ l ∈ (r.ladder incoming.side.opposite).levels, P l.1 l.2 := by
      rintro ⟨q, xs⟩ hl x hx
      obtain ⟨-, hxs⟩ := Ladder.mem_levels.mp hl
      refine ⟨x, ReferenceBook.mem_orders.mpr ⟨incoming.side.opposite, q, ?_⟩, rfl⟩
      unfold ReferenceBook.queue
      rw [hxs]
      exact hx
    unfold ReferenceBook.queue at ho
    rw [ReferenceBook.ladder_setLadder] at ho
    have hne : (ReferenceBook.sweepSide incoming (r.ladder incoming.side.opposite)).1.queueAt p ≠ [] :=
      List.ne_nil_of_mem ho
    exact Ladder.forall_sweepLevels hstep hstart incoming.remainingQty (p, _)
      (Ladder.mem_levels.mpr ⟨hne, rfl⟩) o ho
  · have hsame : s = incoming.side := by
      cases s <;> cases hside : incoming.side <;> simp_all [Side.opposite]
    subst hsame
    unfold ReferenceBook.queue at ho
    rw [ReferenceBook.ladder_setLadder_opposite] at ho
    exact ⟨o, ReferenceBook.mem_orders.mpr ⟨_, p, ho⟩, rfl⟩

/-- The loops of a side sweep the other one; what is left of the order is rested. -/
theorem matchIncoming_swept (h : Refines b r) (incoming : Order) :
    ∃ b₁, Refines b₁ (r.setLadder incoming.side.opposite
        (ReferenceBook.sweepSide incoming (r.ladder incoming.side.opposite)).1)
      ∧ b.matchIncoming incoming = if r.swept incoming = 0 then .ok (b₁, (r.submit incoming).2)
          else (b₁.restOrder { incoming with remainingQty := r.swept incoming }).map
            fun b₂ => (b₂, (r.submit incoming).2) := by
  obtain ⟨b₁, hrun, h₁⟩ := h.loopSweeps incoming
  refine ⟨b₁, h₁, ?_⟩
  rw [OrderBook.matchIncoming_eq, OrderBook.matchOrder, hrun, ReferenceBook.submit_eq]
  unfold ReferenceBook.swept
  simp only [Machine.ok_bind, List.nil_append]
  by_cases hleft : (ReferenceBook.sweepSide incoming (r.ladder incoming.side.opposite)).2.1 = 0
  · rw [if_pos hleft, if_pos (Order.isFilled_iff.mpr hleft)]
    rfl
  · rw [if_neg hleft, if_neg (mt Order.isFilled_iff.mp hleft)]
    cases b₁.restOrder { incoming with
      remainingQty := (ReferenceBook.sweepSide incoming (r.ladder incoming.side.opposite)).2.1 } <;> rfl

/-- **Submitting** an order: the loops of its side, then resting what is left. -/
theorem matchIncoming (h : Refines b r) (hnew : ∀ x ∈ r.orders, x.id ≠ incoming.id)
    (hacc : incoming.id ∈ r.accepted) :
    ∃ b', b.matchIncoming incoming = .ok (b', (r.submit incoming).2)
      ∧ Tracks b' (r.submit incoming).1 := by
  obtain ⟨b₁, h₁, hmatch⟩ := h.matchIncoming_swept incoming
  have hids : ∀ x ∈ (r.setLadder incoming.side.opposite (ReferenceBook.sweepSide incoming
      (r.ladder incoming.side.opposite)).1).orders, x.id ≠ incoming.id := by
    intro x hx hid
    obtain ⟨y, hy, hyx⟩ := mem_orders_sweep hx
    exact hnew y hy (hyx.trans hid)
  rw [hmatch, ReferenceBook.submit_eq]
  by_cases hleft : r.swept incoming = 0
  · rw [if_pos hleft, if_pos hleft]
    exact ⟨b₁, rfl, h₁.tracks⟩
  · rw [if_neg hleft, if_neg hleft]
    obtain ⟨b₂, hrest, h₂⟩ := h₁.restOrder (o := { incoming with remainingQty := r.swept incoming })
      hids (by rw [ReferenceBook.accepted_setLadder]; exact hacc)
    rw [hrest]
    exact ⟨b₂, rfl, h₂⟩

/-- Any order can be submitted, also one whose id is in use. -/
theorem matchIncoming_total (h : Refines b r) (incoming : Order) :
    ∃ b', b.matchIncoming incoming = .ok (b', (r.submit incoming).2) := by
  obtain ⟨b₁, h₁, hmatch⟩ := h.matchIncoming_swept incoming
  rw [hmatch]
  split
  · exact ⟨b₁, rfl⟩
  · obtain ⟨b₂, hrest, -⟩ := h₁.restOrder_total { incoming with remainingQty := r.swept incoming }
    rw [hrest]
    exact ⟨b₂, rfl⟩

/-! ## The calls -/

/-- Marking an id as used, on both sides. -/
theorem accept (h : Refines b r) (id : OrderId) :
    Refines { b with seenOrderIds := insert id b.seenOrderIds }
      { r with accepted := insert id r.accepted } := by
  have hqueue : ReferenceBook.queue { r with accepted := insert id r.accepted } = r.queue := by
    funext s p
    cases s <;> rfl
  have hholds : Holds { b with seenOrderIds := insert id b.seenOrderIds } r.queue := by
    refine h.holds.congr (funext ?_) rfl rfl
    intro s
    cases s <;> rfl
  refine ⟨by rw [hqueue]; exact hholds, ?_, ?_, h.count⟩
  · show insert id b.seenOrderIds = insert id r.accepted
    rw [h.seen]
  · intro o ho
    exact Finset.mem_insert_of_mem (h.known o ho)

/-- Adding checks the order and its id, and submits it. -/
theorem addOrder (h : Refines b r) (order : Order) :
    ∃ b', b.addOrder order = .ok (b', (r.addOrder order).2) ∧ Tracks b' (r.addOrder order).1 := by
  unfold OrderBook.addOrder ReferenceBook.addOrder
  by_cases h0 : order.remainingQty = 0
  · rw [if_pos h0, if_pos h0]
    exact ⟨b, rfl, h.tracks⟩
  rw [if_neg h0, if_neg h0]
  by_cases hid : order.id ∈ b.seenOrderIds
  · rw [if_pos hid, if_pos (h.seen ▸ hid)]
    exact ⟨b, rfl, h.tracks⟩
  rw [if_neg hid, if_neg (h.seen ▸ hid)]
  have hnew : ∀ x ∈ ReferenceBook.orders { r with accepted := insert order.id r.accepted },
      x.id ≠ order.id := by
    intro x hx he
    apply hid
    rw [h.seen, ← he]
    exact h.known x hx
  obtain ⟨b', hmatch, h'⟩ := ((h.accept order.id).log [.orderAccepted order]).matchIncoming hnew
    (Finset.mem_insert_self _ _)
  generalize ReferenceBook.submit { r with accepted := insert order.id r.accepted } order = result
    at hmatch h' ⊢
  refine ⟨b'.log (result.2.map .tradeExecuted), ?_, h'.log _⟩
  simp only [OrderBook.recordOrderAccepted_eq, OrderBook.recordTrades_eq, hmatch, Machine.ok_bind]
  rfl

/-- Cancelling finds the order by its id, or refuses. -/
theorem cancelOrder (h : Refines b r) (id : OrderId) :
    ∃ b', b.exec (.cancel id) = .ok (b', (r.cancelOrder id).2) ∧ Tracks b' (r.cancelOrder id).1 := by
  unfold OrderBook.exec OrderBook.cancelOrder ReferenceBook.cancelOrder
  cases hfind : r.find? id with
  | none =>
      refine ⟨b, ?_, h.tracks⟩
      simp only [h.removeOrderById_none hfind, Machine.ok_bind]
      rfl
  | some o =>
      obtain ⟨b', hremove, h'⟩ := h.removeOrderById_some hfind
      refine ⟨b'.log [.orderCancelled id], ?_, (h'.log _).tracks⟩
      simp only [hremove, Machine.ok_bind, OrderBook.recordOrderCancelled_eq]
      rfl

/-- Modifying removes the order and submits a new one under the same id. -/
theorem modifyOrder (h : Refines b r) (id : OrderId) (newPrice : Price) (newQuantity : Quantity) :
    ∃ b', b.modifyOrder id newPrice newQuantity
        = .ok (b', (r.modifyOrder id newPrice newQuantity).2)
      ∧ Tracks b' (r.modifyOrder id newPrice newQuantity).1 := by
  unfold OrderBook.modifyOrder ReferenceBook.modifyOrder
  by_cases h0 : newQuantity = 0
  · rw [if_pos h0, if_pos h0]
    exact ⟨b, rfl, h.tracks⟩
  rw [if_neg h0, if_neg h0]
  cases hfind : r.find? id with
  | none =>
      refine ⟨b, ?_, h.tracks⟩
      simp only [h.removeOrderById_none hfind, Machine.ok_bind]
      rfl
  | some old =>
      obtain ⟨b₁, hremove, h₁⟩ := h.removeOrderById_some hfind
      obtain ⟨hid, hmem⟩ := ReferenceBook.of_find? hfind
      simp only [hremove, Machine.ok_bind, OrderBook.recordOrderModified_eq,
        OrderBook.recordTrades_eq, OrderBook.log_log]
      rw [hid]
      have hnew : ∀ x ∈ (r.without id).orders,
          x.id ≠ (Order.new id old.side newPrice newQuantity).id := by
        intro x hx
        obtain ⟨s, p, hx⟩ := ReferenceBook.mem_orders.mp hx
        rw [ReferenceBook.queue_without] at hx
        exact of_decide_eq_true (List.mem_filter.mp hx).2
      have hacc : (Order.new id old.side newPrice newQuantity).id ∈ (r.without id).accepted :=
        hid ▸ h.known old hmem
      obtain ⟨b', hmatch, h'⟩ := h₁.matchIncoming hnew hacc
      generalize (r.without id).submit (Order.new id old.side newPrice newQuantity) = result
        at hmatch h' ⊢
      refine ⟨b'.log ([.orderModified id newPrice newQuantity] ++ result.2.map .tradeExecuted), ?_,
        h'.log _⟩
      simp only [hmatch, Machine.ok_bind]
      rfl

/-- **Every call refines the reference call.** -/
theorem exec (h : Refines b r) (c : ScenarioCommand) :
    ∃ b', b.exec c = .ok (b', (r.exec c).2) ∧ Tracks b' (r.exec c).1 := by
  cases c with
  | add order => exact h.addOrder order
  | cancel id => exact h.cancelOrder id
  | modify id newPrice newQuantity => exact h.modifyOrder id newPrice newQuantity

end Refines

/-! ## Runs -/

/-- **A run refines the reference run**: no call faults, every call returns what the reference call
    returns, and the book at the end refines the reference book at the end. -/
theorem run_refines {mode : EventMode} {cmds : List ScenarioCommand}
    (h : OrderBook.NeverOverfull mode cmds) :
    ∃ b, OrderBook.run mode cmds = .ok (b, (Machine.run ReferenceBook.exec {} cmds).2)
      ∧ Refines b (Machine.run ReferenceBook.exec {} cmds).1 := by
  refine Machine.tryRun_refines ?_ (Refines.withConfig _) h
  intro b r c href hroom
  obtain ⟨b', hexec, htracks⟩ := href.exec c
  refine ⟨b', hexec, htracks.refines ?_⟩
  rw [← htracks.count]
  exact hroom b' _ hexec

/-- Whether a run is overfull can be read off the reference run. -/
theorem neverOverfull_iff {mode : EventMode} {cmds : List ScenarioCommand} :
    OrderBook.NeverOverfull mode cmds
      ↔ Machine.Always (fun r => r.restingOrderCount ≤ 2 ^ 32) ReferenceBook.exec {} cmds := by
  have hguard : ∀ b r, Refines b r → (b.restingOrderCount ≤ 2 ^ 32 ↔ r.restingOrderCount ≤ 2 ^ 32) := by
    intro b r h
    rw [h.restingOrderCount_eq]
  refine Machine.stays_iff_always hguard ?_ (Refines.withConfig _)
  intro b r c href
  obtain ⟨b', hexec, htracks⟩ := href.exec c
  refine ⟨b', hexec, ?_, htracks.refines⟩
  show b'.arena.len ≤ 2 ^ 32 ↔ _
  rw [htracks.count]

end LimitOrderBook
