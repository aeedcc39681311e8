import LimitOrderBook.Reference.Invariant

/-!
# `Reference.Steps` — what a command can do to one order

Laws about one order in a run need to know which commands concern it. `ScenarioCommand.TakesOn` is the side on which a
command trades, and `acceptedId` is the id that it uses up.

Read off `Step`: the trades of a command have the order that it names as their taker, and their makers are other
orders, each once, that rested on the opposite side before (`Step.trades`, `Step.maker_mem`). A command accepts the id
that it uses up and no other (`Step.mem_accepted`). `Gone` says of an id that it was accepted and rests no more. An
order that has left the book stays out of it: its id was accepted, so nothing brings it back (`Gone.step`).
-/

namespace LimitOrderBook

/-- The side on which a command trades: the side of the order it adds or modifies. -/
def ScenarioCommand.TakesOn (orders : List Order) (s : Side) : ScenarioCommand → Prop
  | .add order => order.side = s
  | .cancel _ => False
  | .modify id _ _ => ∃ old ∈ orders, old.id = id ∧ old.side = s

/-- The id that a call uses up. -/
def acceptedId : ScenarioCommand → CommandResult → List OrderId
  | .add order, .ok _ => [order.id]
  | _, _ => []

namespace PriorityBook

variable {p p' : PriorityBook} {o : Order} {id : OrderId} {c : ScenarioCommand} {res : CommandResult}

/-! ## Submitting -/

/-- The incoming order takes from orders of the opposite side. -/
theorem submit_trade {t : Trade} (h : t ∈ (p.submit o).2) :
    t.takerOrderId = o.id ∧ t.makerOrderId ∈ (p.side o.side.opposite).map Order.id := by
  obtain ⟨left, hfills, -⟩ := p.submit_spec o
  exact ⟨hfills.takers t h, hfills.makers.subset (List.mem_map.mpr ⟨t, h, rfl⟩)⟩

/-- No order is a maker twice. -/
theorem nodup_makers_submit (h : p.Valid) : ((p.submit o).2.map Trade.makerOrderId).Nodup := by
  obtain ⟨left, hfills, -⟩ := p.submit_spec o
  exact (h.nodup_side o.side.opposite).sublist hfills.makers.sublist

/-! ## The trades of a command -/

/-- **Who trades in a command.** The taker is the order the command names; the makers are other orders,
    each once, that rested on the opposite side before the command. -/
theorem Step.trades (h : p.Valid) {trades : List Trade} (hstep : p.Step c p' (.ok trades)) :
    (trades.map Trade.makerOrderId).Nodup
      ∧ ∀ t ∈ trades, t.takerOrderId = c.orderId ∧ t.makerOrderId ≠ c.orderId
        ∧ ∃ s, c.TakesOn p.orders s ∧ t.makerOrderId ∈ (p.side s.opposite).map Order.id := by
  cases hstep with
  | @added o h0 hnew =>
      refine ⟨nodup_makers_submit (h.accept o.id), ?_⟩
      intro t ht
      obtain ⟨htaker, hmaker⟩ := submit_trade ht
      -- a maker has an accepted id, and the new order has not
      refine ⟨htaker, ?_, o.side, rfl, hmaker⟩
      obtain ⟨x, hx, hid⟩ := List.mem_map.mp hmaker
      rw [← hid]
      exact h.fresh hnew x (mem_orders.mpr ⟨_, hx⟩)
  | cancelled _ => exact ⟨List.nodup_nil, by simp⟩
  | @modified id old price qty h0 hold =>
      refine ⟨nodup_makers_submit (h.without id), ?_⟩
      obtain ⟨hid, hmem⟩ := of_find? hold
      intro t ht
      obtain ⟨htaker, hmaker⟩ := submit_trade ht
      obtain ⟨x, hx, hxid⟩ := List.mem_map.mp hmaker
      obtain ⟨hx, hne⟩ := List.mem_filter.mp hx
      refine ⟨htaker, ?_, old.side, ⟨old, hmem, hid, rfl⟩, List.mem_map.mpr ⟨x, hx, hxid⟩⟩
      rw [← hxid]
      exact of_decide_eq_true hne

/-- A maker rested before the command. -/
theorem Step.maker_mem (h : p.Valid) {trades : List Trade} (hstep : p.Step c p' (.ok trades)) {t : Trade}
    (ht : t ∈ trades) : t.makerOrderId ∈ p.orders.map Order.id := by
  obtain ⟨-, -, s, -, hmaker⟩ := (hstep.trades h).2 t ht
  obtain ⟨x, hx, hid⟩ := List.mem_map.mp hmaker
  exact List.mem_map.mpr ⟨x, mem_orders.mpr ⟨_, hx⟩, hid⟩

/-! ## Accepted ids -/

/-- A command accepts the id it uses up and no other. -/
theorem Step.mem_accepted (hstep : p.Step c p' res) :
    id ∈ p'.accepted ↔ id ∈ p.accepted ∨ id ∈ acceptedId c res := by
  cases hstep with
  | rejected _ => cases c <;> simp [acceptedId]
  | @added o h0 hnew =>
      rw [accepted_submit, accepted_accept, Finset.mem_insert, or_comm]
      simp [acceptedId]
  | cancelled _ => simp [acceptedId]
  | modified h0 hold => simp [acceptedId]

/-! ## Orders that have left the book -/

/-- An order that was accepted and rests no more. -/
def Gone (p : PriorityBook) (id : OrderId) : Prop := id ∈ p.accepted ∧ id ∉ p.orders.map Order.id

/-- An order of the book does not have the id of one that left. -/
theorem Gone.ne_of_mem (h : p.Gone id) {x : Order} (hx : x ∈ p.orders) : x.id ≠ id := by
  intro hid
  exact h.2 (List.mem_map.mpr ⟨x, hx, hid⟩)

/-- An order that left the book does not come back with another one. -/
theorem Gone.submit (h : p.Gone id) (hne : o.id ≠ id) : (p.submit o).1.Gone id := by
  refine ⟨h.1, ?_⟩
  intro hmem
  obtain ⟨x, hx, hid⟩ := List.mem_map.mp hmem
  rcases mem_orders_submit hx with heq | ⟨y, hy, hplace⟩
  · exact hne (heq.symm.trans hid)
  · exact h.ne_of_mem hy ((place_id hplace).trans hid)

theorem Gone.without (h : p.Gone id) (id' : OrderId) : (p.without id').Gone id := by
  refine ⟨h.1, ?_⟩
  intro hmem
  obtain ⟨x, hx, hid⟩ := List.mem_map.mp hmem
  exact h.ne_of_mem (mem_orders_without.mp hx).1 hid

/-- **An order that has left the book stays out**: no command brings it back, trades with it, or
    succeeds on it. -/
theorem Gone.step (h : p.Gone id) (hp : p.Valid) (hstep : p.Step c p' res) :
    p'.Gone id ∧ (c.orderId = id → ∃ e, res = .error e)
      ∧ ∀ trades, res = .ok trades → ∀ t ∈ trades, t.makerOrderId ≠ id ∧ t.takerOrderId ≠ id := by
  -- a command that succeeds names another order
  have hcore : c.orderId ≠ id → ∀ trades, res = .ok trades →
      ∀ t ∈ trades, t.makerOrderId ≠ id ∧ t.takerOrderId ≠ id := by
    rintro hne trades rfl t ht
    obtain ⟨htaker, -, -⟩ := (hstep.trades hp).2 t ht
    refine ⟨?_, ?_⟩
    · intro hid
      exact h.2 (hid ▸ hstep.maker_mem hp ht)
    · rw [htaker]
      exact hne
  cases hstep with
  | rejected _ =>
      refine ⟨h, fun _ => ⟨_, rfl⟩, ?_⟩
      intro trades hok
      cases hok
  | @added o h0 hnew =>
      have hne : o.id ≠ id := by
        rintro rfl
        exact hnew h.1
      have hgone : (p.accept o.id).Gone id := ⟨Finset.mem_insert_of_mem h.1, h.2⟩
      exact ⟨hgone.submit hne, fun heq => absurd heq hne, hcore hne⟩
  | @cancelled id' old hold =>
      obtain ⟨hid, hmem⟩ := of_find? hold
      have hne : id' ≠ id := hid ▸ h.ne_of_mem hmem
      exact ⟨h.without id', fun heq => absurd heq hne, hcore hne⟩
  | @modified id' old price qty h0 hold =>
      obtain ⟨hid, hmem⟩ := of_find? hold
      have hne : id' ≠ id := hid ▸ h.ne_of_mem hmem
      exact ⟨(h.without id').submit hne, fun heq => absurd heq hne, hcore hne⟩

end PriorityBook
end LimitOrderBook
