import LimitOrderBook.Events.Projection
import LimitOrderBook.Events.Log
import LimitOrderBook.Refinement.Run
import LimitOrderBook.Reference.Steps

/-!
# `Properties.EventProjection` — the event log alone determines the book

The event log alone determines the book. A reader of the log keeps a `Projection`, to which it applies one event after
the other; this module shows that it ends with what the snapshot of the book lists.

`Shows` relates a projection to a priority book: the same orders on each side, each on the level of its price. A
projection that shows a book shows it again after the events of every command, and each event is applicable when it is
reached (`Projection.Legal`). The accepted or modified order is appended with all it brings (`Shows.append`), and the
trades then take from it and from the makers what matching took (`Shows.trade`, and `Shows.trades` by induction on the
matching). `Apart` says who can meet in a command: orders with ids of their own, so that a trade event finds the two
it is about.

`Shows.step` and `Shows.run` are about commands and runs, and `log_determines_book` reads the result off the log and
the snapshot of a run of the source.
-/

namespace LimitOrderBook

/-! ## Subtracting in place -/

/-- An order with another id is not touched. -/
theorem reduced_of_ne {id : OrderId} {quantity : Quantity} {xs : List Order}
    (h : ∀ x ∈ xs, x.id ≠ id) : xs.filterMap (Order.reduced id quantity) = xs := by
  induction xs with
  | nil => rfl
  | cons x xs ih =>
      obtain ⟨hx, hxs⟩ := List.forall_mem_cons.mp h
      have hkeep : Order.reduced id quantity x = some x := if_neg hx
      rw [List.filterMap_cons_some hkeep, ih hxs]

theorem reduced_price {id : OrderId} {quantity : Quantity} {x y : Order}
    (h : x.reduced id quantity = some y) : y.price = x.price := by
  unfold Order.reduced at h
  split at h
  · split at h
    · cases h
    · cases h
      rfl
  · cases h
    rfl

/-- Subtracting from the order that joined a side is as if it had joined with less. -/
theorem reduced_restLeft {o : Order} {own : List Order} (hown : ∀ x ∈ own, x.id ≠ o.id) {left : Quantity}
    (hleft : left ≠ 0) (quantity : Quantity) :
    (restLeft o left own).filterMap (Order.reduced o.id quantity) = restLeft o (left - quantity) own := by
  have hjoined : Order.reduced o.id quantity { o with remainingQty := left }
      = if left - quantity = 0 then none else some { o with remainingQty := left - quantity } := if_pos rfl
  -- where the order joins depends on its price alone
  let front := own.takeWhile fun y => ¬o.side.ahead { o with remainingQty := left } y
  let back := own.dropWhile fun y => ¬o.side.ahead { o with remainingQty := left } y
  have hown' : front ++ back = own := List.takeWhile_append_dropWhile
  have hfront : ∀ x ∈ front, x.id ≠ o.id := fun x hx => hown x ((List.takeWhile_sublist _).subset hx)
  have hback : ∀ x ∈ back, x.id ≠ o.id := fun x hx => hown x ((List.dropWhile_sublist _).subset hx)
  have hjoin : ∀ q : Quantity, own.orderedInsert o.side.ahead { o with remainingQty := q }
      = front ++ { o with remainingQty := q } :: back :=
    fun q => List.orderedInsert_eq_take_drop _ { o with remainingQty := q } own
  unfold restLeft
  rw [if_neg hleft, hjoin, hjoin, List.filterMap_append, List.filterMap_cons, hjoined,
    reduced_of_ne hfront, reduced_of_ne hback]
  by_cases hq : left - quantity = 0
  · rw [if_pos hq, if_pos hq]
    exact hown'
  · rw [if_neg hq, if_neg hq]

/-! ## What a projection shows -/

/-- The projection shows the orders of the priority book, each on the level of its price. -/
structure Shows (P : Projection) (p : PriorityBook) : Prop where
  keyed : ∀ s, (P.ladder s).Keyed Order.price
  flat : ∀ s, (P.ladder s).flat = p.side s

namespace Shows

variable {P : Projection} {p q : PriorityBook} {o : Order}

theorem congr (h : Shows P p) (hside : ∀ s, p.side s = q.side s) : Shows P q := by
  refine ⟨h.keyed, ?_⟩
  intro s
  rw [h.flat, hside]

theorem orders_eq (h : Shows P p) : P.orders = p.orders := by
  show (P.ladder .buy).flat ++ (P.ladder .sell).flat = p.side .buy ++ p.side .sell
  rw [h.flat, h.flat]

theorem find?_eq (h : Shows P p) (id : OrderId) : P.find? id = p.find? id := by
  unfold Projection.find? PriorityBook.find?
  rw [h.orders_eq]

/-- Changing orders in place, at their prices, is changing the lists. -/
theorem rewrite (h : Shows P p) {g : Order → Option Order}
    (hg : ∀ x y, g x = some y → y.price = x.price) :
    Shows (P.rewrite g) { p with side := fun s => (p.side s).filterMap g } := by
  have hladder : ∀ s, (P.rewrite g).ladder s = (P.ladder s).filterMap g := by
    intro s
    cases s <;> rfl
  refine ⟨?_, ?_⟩
  · intro s
    rw [hladder]
    exact (h.keyed s).filterMap hg
  · intro s
    rw [hladder, Ladder.flat_filterMap, h.flat]

/-- Removing an id from the projection is removing it from the book. -/
theorem removeId (h : Shows P p) (id : OrderId) : Shows (P.removeId id) (p.without id) := by
  have hprice : ∀ x y : Order, Option.guard (fun o => o.id ≠ id) x = some y → y.price = x.price := by
    intro x y hxy
    rw [(Option.guard_eq_some_iff.mp hxy).1]
  refine (h.rewrite hprice).congr ?_
  intro s
  show (p.side s).filterMap _ = (p.side s).filter _
  rw [List.filterMap_eq_filter]

/-- Appending at the tail of a price is joining the side with all that the order has. -/
theorem append (h : Shows P p) (h0 : o.remainingQty ≠ 0) :
    Shows (P.append o) (p.withSides o.side (restLeft o o.remainingQty (p.side o.side))
      (p.side o.side.opposite)) := by
  have hrest : restLeft o o.remainingQty (p.side o.side) = (p.side o.side).orderedInsert o.side.ahead o :=
    if_neg h0
  rw [hrest]
  have hpush := (h.keyed o.side).push o
  have hflat := (h.keyed o.side).flat_push o
  have hother := h.keyed o.side.opposite
  have hsame := h.flat o.side.opposite
  rw [h.flat] at hflat
  have hown : (P.append o).ladder o.side = (P.ladder o.side).push o.price o := by
    unfold Projection.append
    cases o.side <;> rfl
  have hopp : (P.append o).ladder o.side.opposite = P.ladder o.side.opposite := by
    unfold Projection.append
    cases o.side <;> rfl
  rw [← hown] at hpush hflat
  rw [← hopp] at hother hsame
  refine ⟨?_, ?_⟩
  · intro s
    rcases s.eq_or_eq_opposite o.side with rfl | rfl
    · exact hpush
    · exact hother
  · intro s
    rcases s.eq_or_eq_opposite o.side with rfl | rfl
    · rw [PriorityBook.side_withSides_own]
      exact hflat
    · rw [PriorityBook.side_withSides_opposite]
      exact hsame

end Shows

/-! ## The trades of one command -/

/-- Who can meet in a command: the incoming order, the orders of its side and those it trades with, all
    with ids of their own. -/
structure Apart (taker : Order) (own opposite : List Order) : Prop where
  freshOwn : ∀ x ∈ own, x.id ≠ taker.id
  freshOpposite : ∀ y ∈ opposite, y.id ≠ taker.id
  disjoint : ∀ x ∈ own, ∀ y ∈ opposite, x.id ≠ y.id
  distinct : (opposite.map Order.id).Nodup
  sided : ∀ y ∈ opposite, y.side = taker.side.opposite
  positive : ∀ y ∈ opposite, y.remainingQty ≠ 0

namespace Apart

variable {taker maker : Order} {own rest : List Order}

/-- In a valid book the orders that meet are apart from a new one. -/
theorem of_valid {p : PriorityBook} (h : p.Valid) (hnew : ∀ x ∈ p.orders, x.id ≠ taker.id) :
    Apart taker (p.side taker.side) (p.side taker.side.opposite) := by
  refine ⟨?_, ?_, ?_, h.nodup_side _, h.sided _, h.positive _⟩
  · intro x hx
    exact hnew x (PriorityBook.mem_orders.mpr ⟨_, hx⟩)
  · intro y hy
    exact hnew y (PriorityBook.mem_orders.mpr ⟨_, hy⟩)
  · intro x hx y hy hid
    have hmem : y.id ∈ (p.side taker.side).map Order.id := List.mem_map.mpr ⟨x, hx, hid⟩
    exact h.not_mem_opposite hmem (List.mem_map.mpr ⟨y, hy, rfl⟩)

theorem tail (h : Apart taker own (maker :: rest)) : Apart taker own rest :=
  ⟨h.freshOwn, fun y hy => h.freshOpposite y (List.mem_cons_of_mem _ hy),
    fun x hx y hy => h.disjoint x hx y (List.mem_cons_of_mem _ hy), (List.nodup_cons.mp h.distinct).2,
    fun y hy => h.sided y (List.mem_cons_of_mem _ hy), fun y hy => h.positive y (List.mem_cons_of_mem _ hy)⟩

theorem maker_ne (h : Apart taker own (maker :: rest)) : ∀ x ∈ rest, x.id ≠ maker.id := by
  intro x hx hid
  exact (List.nodup_cons.mp h.distinct).1 (List.mem_map.mpr ⟨x, hx, hid⟩)

/-- The order that joined its side is none of the makers. -/
theorem restLeft_ne (h : Apart taker own (maker :: rest)) (left : Quantity) :
    ∀ x ∈ restLeft taker left own, x.id ≠ maker.id := by
  intro x hx
  rcases PriorityBook.mem_restLeft.mp hx with hx | ⟨-, rfl⟩
  · exact h.disjoint x hx maker List.mem_cons_self
  · exact (h.freshOpposite maker List.mem_cons_self).symm

end Apart

namespace Shows

variable {P : Projection} {p : PriorityBook} {taker maker : Order} {own rest : List Order}
  {left q : Quantity}

/-- **A trade event** with the front maker takes from both orders what it says. -/
theorem trade (h : Shows P (p.withSides taker.side (restLeft taker left own) (maker :: rest)))
    (hapart : Apart taker own (maker :: rest)) (hleft : left ≠ 0) :
    Shows (P.apply (.tradeExecuted ⟨maker.id, taker.id, maker.price, q⟩))
      (p.withSides taker.side (restLeft taker (left - q) own)
        ((maker.reduced maker.id q).toList ++ rest)) := by
  have hprice : ∀ id, ∀ x y : Order, x.reduced id q = some y → y.price = x.price :=
    fun _ _ _ hxy => reduced_price hxy
  refine ((h.rewrite (hprice maker.id)).rewrite (hprice taker.id)).congr ?_
  intro s
  rcases s.eq_or_eq_opposite taker.side with rfl | rfl
  · show ((PriorityBook.side _ taker.side).filterMap _).filterMap _ = _
    rw [PriorityBook.side_withSides_own, PriorityBook.side_withSides_own,
      reduced_of_ne (hapart.restLeft_ne left), reduced_restLeft hapart.freshOwn hleft]
  · show ((PriorityBook.side _ taker.side.opposite).filterMap _).filterMap _ = _
    rw [PriorityBook.side_withSides_opposite, PriorityBook.side_withSides_opposite, List.filterMap_cons]
    have hfront : ∀ x ∈ (maker.reduced maker.id q).toList, x.id ≠ taker.id := by
      intro x hx
      have hx := Option.mem_toList.mp hx
      unfold Order.reduced at hx
      rw [if_pos rfl] at hx
      split at hx
      · cases hx
      · cases hx
        exact hapart.freshOpposite maker List.mem_cons_self
    have hrest : ∀ x ∈ rest, x.id ≠ taker.id := hapart.tail.freshOpposite
    -- the second subtraction finds the taker on its own side only
    have hboth : ((maker.reduced maker.id q).toList ++ rest).filterMap
        (Order.reduced taker.id q) = (maker.reduced maker.id q).toList ++ rest := by
      rw [List.filterMap_append, reduced_of_ne hfront, reduced_of_ne hrest]
    rw [reduced_of_ne hapart.maker_ne]
    refine Eq.trans ?_ hboth
    cases maker.reduced maker.id q <;> rfl

/-- A trade event within the limit of the incoming order is applicable. -/
theorem applicable_trade (h : Shows P (p.withSides taker.side (restLeft taker left own) (maker :: rest)))
    (hapart : Apart taker own (maker :: rest)) (hleft : left ≠ 0)
    (hcross : taker.side.crosses taker.price maker.price) (hq : q ≠ 0)
    (hmaker : q ≤ maker.remainingQty) (htaker : q ≤ left) :
    P.Applicable (.tradeExecuted ⟨maker.id, taker.id, maker.price, q⟩) := by
  have hmem : maker ∈ P.orders := by
    rw [h.orders_eq, PriorityBook.mem_orders]
    refine ⟨taker.side.opposite, ?_⟩
    rw [PriorityBook.side_withSides_opposite]
    exact List.mem_cons_self
  have hmem' : { taker with remainingQty := left } ∈ P.orders := by
    rw [h.orders_eq, PriorityBook.mem_orders]
    refine ⟨taker.side, ?_⟩
    rw [PriorityBook.side_withSides_own]
    exact PriorityBook.mem_restLeft.mpr (Or.inr ⟨hleft, rfl⟩)
  have hpos : 1 ≤ q := by
    rw [UInt64.le_iff_toNat_le]
    have hne : q.toNat ≠ 0 := fun h0 => hq (UInt64.toNat_inj.mp h0)
    show 1 ≤ q.toNat
    omega
  exact ⟨maker, hmem, _, hmem', rfl, rfl, hapart.sided maker List.mem_cons_self, rfl, hcross, hpos,
    hmaker, htaker⟩

/-- **The trade events of a command** are applicable one after the other, and take from both sides what
    matching took. -/
theorem trades {xs ys : List Order} {left' : Quantity} {trades : List Trade}
    (hfills : Fills taker xs left ys left' trades)
    (h : Shows P (p.withSides taker.side (restLeft taker left own) xs)) (hapart : Apart taker own xs) :
    P.Legal (trades.map .tradeExecuted)
      ∧ Shows ((trades.map .tradeExecuted).foldl Projection.apply P)
        (p.withSides taker.side (restLeft taker left' own) ys) := by
  induction hfills generalizing P with
  | empty left => exact ⟨trivial, h⟩
  | stop _ => exact ⟨trivial, h⟩
  | @full maker rest rest' left left' trades hleft hcross hle _ ih =>
      have hq := hapart.positive maker List.mem_cons_self
      -- the maker has nothing left and is dropped; the taker keeps its place with less
      have happ := h.applicable_trade hapart hleft hcross hq (UInt64.le_refl _) hle
      have hnext := h.trade (q := maker.remainingQty) hapart hleft
      have hgone : (maker.reduced maker.id maker.remainingQty).toList = [] := by
        unfold Order.reduced
        rw [if_pos rfl, if_pos (UInt64.sub_self _)]
        rfl
      rw [hgone, List.nil_append] at hnext
      obtain ⟨hlegal, hshows⟩ := ih hnext hapart.tail
      exact ⟨⟨happ, hlegal⟩, hshows⟩
  | @part maker rest left hleft hcross hle =>
      -- the taker has nothing left and is dropped; the maker keeps its place with less
      have hmore : left ≤ maker.remainingQty := UInt64.le_of_lt (UInt64.not_le.mp hle)
      have happ := h.applicable_trade hapart hleft hcross hleft hmore (UInt64.le_refl _)
      have hnext := h.trade (q := left) hapart hleft
      have hsome : maker.remainingQty - left ≠ 0 := by grind
      have hless : (maker.reduced maker.id left).toList
          = [{ maker with remainingQty := maker.remainingQty - left }] := by
        unfold Order.reduced
        rw [if_pos rfl, if_neg hsome]
        rfl
      rw [hless, UInt64.sub_self] at hnext
      exact ⟨⟨happ, trivial⟩, hnext⟩

/-! ## Commands and runs -/

/-- The events of submitting an order: the order is appended whole, and its trades follow. -/
theorem submit {o : Order} (h : Shows P p) (hp : p.Valid) (h0 : o.remainingQty ≠ 0)
    (hnew : ∀ x ∈ p.orders, x.id ≠ o.id) :
    (P.append o).Legal ((p.submit o).2.map .tradeExecuted)
      ∧ Shows (((p.submit o).2.map .tradeExecuted).foldl Projection.apply (P.append o))
        (p.submit o).1 := by
  obtain ⟨left, hfills, hown⟩ := p.submit_spec o
  obtain ⟨hlegal, hshows⟩ := Shows.trades hfills (h.append h0) (Apart.of_valid hp hnew)
  refine ⟨hlegal, hshows.congr ?_⟩
  intro s
  rcases s.eq_or_eq_opposite o.side with rfl | rfl
  · rw [PriorityBook.side_withSides_own, hown]
  · rw [PriorityBook.side_withSides_opposite]

/-- **The events of a command** are applicable, and the projection shows what the command left. -/
theorem step {p' : PriorityBook} {c : ScenarioCommand} {res : CommandResult} (h : Shows P p)
    (hp : p.Valid) (hstep : p.Step c p' res) :
    P.Legal (callEvents c res) ∧ Shows ((callEvents c res).foldl Projection.apply P) p' := by
  have hlive : ∀ {id : OrderId} {old : Order}, p.find? id = some old → ∃ o ∈ P.orders, o.id = id := by
    intro id old hold
    obtain ⟨hid, hmem⟩ := PriorityBook.of_find? hold
    rw [h.orders_eq]
    exact ⟨old, hmem, hid⟩
  cases hstep with
  | rejected _ => cases c <;> exact ⟨trivial, h⟩
  | @added o h0 hnew =>
      have hfresh : ∀ x ∈ p.orders, x.id ≠ o.id := hp.fresh hnew
      have haccept : Shows P (p.accept o.id) := h.congr fun _ => rfl
      obtain ⟨hlegal, hshows⟩ := haccept.submit (hp.accept o.id) h0 hfresh
      refine ⟨⟨?_, hlegal⟩, hshows⟩
      show ∀ x ∈ P.orders, x.id ≠ o.id
      rw [h.orders_eq]
      exact hfresh
  | @cancelled id old hold => exact ⟨⟨hlive hold, trivial⟩, h.removeId id⟩
  | @modified id old price qty h0 hold =>
      -- the modified order is new to what is left without it
      have hfresh : ∀ x ∈ (p.without id).orders, x.id ≠ (Order.new id old.side price qty).id :=
        fun x hx => (PriorityBook.mem_orders_without.mp hx).2
      obtain ⟨hlegal, hshows⟩ := (h.removeId id).submit (hp.without id)
        (o := Order.new id old.side price qty) h0 hfresh
      have happly : P.apply (.orderModified id price qty)
          = (P.removeId id).append (Order.new id old.side price qty) := by
        have hfind : P.find? id = some old := (h.find?_eq id).trans hold
        simp only [Projection.apply, hfind]
      rw [← happly] at hlegal hshows
      exact ⟨⟨hlive hold, hlegal⟩, hshows⟩

/-- **The events of a run** are applicable, and the projection shows the book at the end. -/
theorem run (h : Shows P p) (hp : p.Valid) (cmds : List ScenarioCommand) :
    P.Legal (runEvents cmds (Machine.run PriorityBook.exec p cmds).2)
      ∧ Shows ((runEvents cmds (Machine.run PriorityBook.exec p cmds).2).foldl Projection.apply P)
        (Machine.run PriorityBook.exec p cmds).1 := by
  induction cmds generalizing P p with
  | nil => exact ⟨trivial, h⟩
  | cons c cmds ih =>
      obtain ⟨hlegal, hshows⟩ := h.step hp (p.exec_step c)
      obtain ⟨hlegal', hshows'⟩ := ih hshows (hp.exec c)
      rw [Machine.run_cons, runEvents_cons, List.foldl_append, Projection.legal_append]
      exact ⟨⟨hlegal, hlegal'⟩, hshows'⟩

theorem empty : Shows {} {} := by
  refine ⟨?_, ?_⟩
  · intro s l hl
    cases s <;> exact absurd hl List.not_mem_nil
  · intro s
    cases s <;> rfl

end Shows

/-- **The full event log alone determines the book.** In the log of a run in full mode every event is
    applicable when it is reached, and the projection of the log is the snapshot. -/
theorem log_determines_book (cmds : List ScenarioCommand) (hroom : OrderBook.NeverOverfull .full cmds) :
    ∃ b results, OrderBook.run .full cmds = .ok (b, results)
      ∧ (∀ before e after, b.events = before ++ e :: after →
          (Projection.project before).Applicable e)
      ∧ b.snapshot = .ok (Projection.project b.events).snapshot := by
  obtain ⟨b, hrun, hrep⟩ := run_represents hroom
  have hevents := OrderBook.run_full_events hrun
  obtain ⟨hlegal, hshows⟩ := Shows.empty.run PriorityBook.valid_empty cmds
  rw [← hevents] at hlegal hshows
  refine ⟨b, _, hrun, ?_, ?_⟩
  · intro before e after hsplit
    rw [hsplit] at hlegal
    exact hlegal.applicable
  -- ladders with the same orders, each on the level of its price, are equal
  · obtain ⟨L, hsnap, hL⟩ := hrep.snapshot_ladders
    have hladder : ∀ s, L s = (Projection.project b.events).ladder s := by
      intro s
      refine (hL s).1.ext_flat (hshows.keyed s) ?_
      rw [(hL s).2]
      exact (hshows.flat s).symm
    rw [hsnap, hladder, hladder]
    rfl

/-- The log of the session projects to the snapshot of its book. -/
theorem log_determines_book_session :
    ∃ b results, OrderBook.run .full session = .ok (b, results)
      ∧ b.snapshot = .ok (Projection.project b.events).snapshot := by
  obtain ⟨b, results, hrun, -, hsnap⟩ := log_determines_book session (by decide +kernel)
  exact ⟨b, results, hrun, hsnap⟩

end LimitOrderBook
