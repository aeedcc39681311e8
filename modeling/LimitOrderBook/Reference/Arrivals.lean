import LimitOrderBook.Reference.Invariant

/-!
# `Reference.Arrivals` — runs that only add orders

Runs in which orders are only added, as the scenarios of the simulator do. They have a closed form.

Orders that arrive under increasing ids and cross nothing all rest, each side in the order of price and then of id.
`Side.prior` is this order, and `Rested p orders` says that the book holds exactly these orders in it; `Rested.add` is
the step and `rested_run` the run. It rests on `submit_uncrossed`: an order that crosses nothing makes no trade.

Takers that each want what the first order of the other side has take the orders of that side one by one, from the
front. `submit_fullTrade` is one of them, and `run_takers` the run, with the trades that it returns and the orders
that are left.

The last part counts: a command adds at most one order to a book (`length_exec`), so a run with few commands never
overfills it (`length_run`).
-/

namespace LimitOrderBook

/-- `s.prior x y`: on side `s`, `x` trades before `y`, by price and then by id. -/
def Side.prior (s : Side) (x y : Order) : Prop := s.better x.price y.price ∨ x.price = y.price ∧ x.id < y.id

/-- Of two orders at most one is prior. -/
theorem Side.prior_asymm {s : Side} {x y : Order} (hxy : s.prior x y) : ¬s.prior y x := by
  intro hyx
  rcases hxy with hxy | ⟨hprice, hxy⟩
  · rcases hyx with hyx | ⟨hprice, -⟩
    · exact Std.Irrefl.irrefl (r := s.better) _ (IsTrans.trans _ _ _ hxy hyx)
    · exact Std.Irrefl.irrefl (r := s.better) _ (hprice ▸ hxy)
  · rcases hyx with hyx | ⟨-, hyx⟩
    · exact Std.Irrefl.irrefl (r := s.better) _ (hprice ▸ hyx)
    · exact absurd hyx (UInt64.lt_asymm hxy)

/-- Priority decides the order of a side. -/
theorem Side.eq_of_prior {s : Side} {xs ys : List Order} (hxs : xs.Pairwise s.prior) (hys : ys.Pairwise s.prior)
    (hperm : xs.Perm ys) : xs = ys :=
  List.Perm.eq_of_pairwise (fun _ _ _ _ hab hba => absurd hba (Side.prior_asymm hab)) hxs hys hperm

namespace PriorityBook

variable {p : PriorityBook} {o : Order} {s : Side}

/-! ## One order -/

/-- An order that crosses nothing rests as it is. -/
theorem submit_uncrossed (h0 : o.remainingQty ≠ 0)
    (h : ∀ m ∈ p.side o.side.opposite, ¬o.side.crosses o.price m.price) :
    p.submit o = (p.withSides o.side ((p.side o.side).orderedInsert o.side.ahead o) (p.side o.side.opposite),
      []) := by
  have hfill : fill o (p.side o.side.opposite) o.remainingQty = (p.side o.side.opposite, o.remainingQty, []) := by
    cases hside : p.side o.side.opposite with
    | nil => rfl
    | cons m rest =>
        rw [hside] at h
        rw [fill, if_pos (Or.inr (h m List.mem_cons_self))]
  unfold submit
  rw [hfill]
  dsimp only
  unfold restLeft
  rw [if_neg h0]

/-- A taker that wants what the first order of the other side has takes it. -/
theorem submit_fullTrade {maker : Order} {rest : List Order} (hside : p.side o.side.opposite = maker :: rest)
    (hcross : o.side.crosses o.price maker.price) (hqty : maker.remainingQty = o.remainingQty)
    (h0 : o.remainingQty ≠ 0) :
    p.submit o = (p.withSides o.side (p.side o.side) rest, [fullTrade o maker]) := by
  have hdone : fill o rest 0 = (rest, 0, []) := by
    cases rest with
    | nil => rfl
    | cons m rest => rw [fill, if_pos (Or.inl rfl)]
  have hfill : fill o (maker :: rest) o.remainingQty = (rest, 0, [fullTrade o maker]) := by
    rw [fill, if_neg (not_or.mpr ⟨h0, not_not_intro hcross⟩), if_pos (UInt64.le_of_eq hqty), hqty, UInt64.sub_self,
      hdone]
    dsimp only
    rw [← hqty]
    rfl
  unfold submit
  rw [hside, hfill]
  rfl

/-- Adding an order under an id that was not used submits it. -/
theorem exec_add_new (h0 : o.remainingQty ≠ 0) (hnew : o.id ∉ p.accepted) :
    p.exec (.add o) = (((p.accept o.id).submit o).1, .ok ((p.accept o.id).submit o).2) :=
  exec_add hnew h0 o.side o.price

/-! ## Orders that rest -/

/-- The book that is left when `orders` arrived one after the other and all of them rest. -/
structure Rested (p : PriorityBook) (orders : List Order) : Prop where
  perm : ∀ s, (p.side s).Perm (orders.filter fun o => o.side = s)
  prior : ∀ s, (p.side s).Pairwise s.prior
  accepted : ∀ id, id ∈ p.accepted ↔ ∃ o ∈ orders, o.id = id

variable {orders : List Order}

/-- At first no order has arrived. -/
theorem rested_empty : Rested {} [] := by
  refine ⟨fun s => List.Perm.refl _, fun s => List.Pairwise.nil, ?_⟩
  simp

/-- A side has the orders that arrived for it. -/
theorem Rested.mem_side (h : Rested p orders) : o ∈ p.side s ↔ o ∈ orders ∧ o.side = s := by
  rw [(h.perm s).mem_iff, List.mem_filter, decide_eq_true_eq]

/-- One more order that crosses nothing. -/
theorem Rested.add (h : Rested p orders) (h0 : o.remainingQty ≠ 0) (hlast : ∀ x ∈ orders, x.id < o.id)
    (huncrossed : ∀ x ∈ orders, x.side = o.side.opposite → ¬o.side.crosses o.price x.price) :
    (p.exec (.add o)).2 = .ok [] ∧ Rested (p.exec (.add o)).1 (orders ++ [o]) := by
  have hnew : o.id ∉ p.accepted := by
    intro hacc
    obtain ⟨x, hx, hid⟩ := (h.accepted o.id).mp hacc
    exact absurd hid (UInt64.ne_of_lt (hlast x hx))
  have hsubmit : (p.accept o.id).submit o
      = ((p.accept o.id).withSides o.side ((p.side o.side).orderedInsert o.side.ahead o) (p.side o.side.opposite),
        []) :=
    submit_uncrossed (p := p.accept o.id) h0 fun m hm =>
      huncrossed m (h.mem_side.mp hm).1 (h.mem_side.mp hm).2
  rw [exec_add_new h0 hnew, hsubmit]
  refine ⟨rfl, ?_, ?_, ?_⟩
  · intro s
    rw [List.filter_append]
    rcases s.eq_or_eq_opposite o.side with rfl | rfl
    · have hown : [o].filter (fun x => x.side = o.side) = [o] := List.filter_cons_of_pos (decide_eq_true rfl)
      rw [side_withSides_own, hown]
      refine (List.perm_orderedInsert _ _ _).trans ?_
      exact ((h.perm _).cons o).trans (List.perm_append_singleton o _).symm
    · have hother : [o].filter (fun x => x.side = o.side.opposite) = [] :=
        List.filter_cons_of_neg (by simp)
      rw [side_withSides_opposite, hother, List.append_nil]
      exact h.perm _
  · intro s
    rcases s.eq_or_eq_opposite o.side with rfl | rfl
    · rw [side_withSides_own]
      exact Ladder.arrival_orderedInsert (h.prior _) fun x hx => hlast x (h.mem_side.mp hx).1
    · rw [side_withSides_opposite]
      exact h.prior _
  · intro id
    rw [accepted_withSides, accepted_accept, Finset.mem_insert, h.accepted]
    simp [or_comm, eq_comm]

/-- **Orders that never cross all rest.** -/
theorem rested_run (hpos : ∀ o ∈ orders, o.remainingQty ≠ 0) (hids : orders.Pairwise fun x y => x.id < y.id)
    (huncrossed : ∀ x ∈ orders, ∀ y ∈ orders, y.side = x.side.opposite → ¬x.side.crosses x.price y.price) :
    (Machine.run exec {} (orders.map .add)).2 = orders.map (fun _ => .ok [])
      ∧ Rested (Machine.run exec {} (orders.map .add)).1 orders := by
  induction orders using List.reverseRecOn with
  | nil => exact ⟨rfl, rested_empty⟩
  | append_singleton orders o ih =>
      obtain ⟨hids, -, hlast⟩ := List.pairwise_append.mp hids
      have hmem : ∀ x ∈ orders, x ∈ orders ++ [o] := fun x hx => List.mem_append_left _ hx
      have hself : o ∈ orders ++ [o] := List.mem_append_right _ (List.mem_singleton_self o)
      obtain ⟨hresults, hrested⟩ := ih (fun x hx => hpos x (hmem x hx)) hids fun x hx y hy =>
        huncrossed x (hmem x hx) y (hmem y hy)
      obtain ⟨hresult, hrested⟩ := hrested.add (hpos o hself)
        (fun x hx => hlast x hx o (List.mem_singleton_self o))
        fun x hx => huncrossed o hself x (hmem x hx)
      rw [List.map_append, Machine.run_append, List.map_append, List.map_singleton, List.map_singleton,
        Machine.run_cons, Machine.run_nil]
      exact ⟨by rw [hresults, hresult], hrested⟩

/-! ## Orders that take -/

/-- **Takers take the other side from the front**, when each wants what every order there has. -/
theorem run_takers {quantity : Quantity} (h0 : quantity ≠ 0) {takers makers rest : List Order}
    (hside : p.side s.opposite = makers ++ rest) (hlength : takers.length = makers.length)
    (htakers : ∀ t ∈ takers, t.side = s ∧ t.remainingQty = quantity ∧ t.id ∉ p.accepted)
    (hids : takers.Pairwise fun x y => x.id < y.id)
    (hmakers : ∀ m ∈ makers, m.remainingQty = quantity)
    (hcross : ∀ t ∈ takers, ∀ m ∈ makers, s.crosses t.price m.price) :
    (Machine.run exec p (takers.map .add)).2 = List.zipWith (fun t m => .ok [fullTrade t m]) takers makers
      ∧ (Machine.run exec p (takers.map .add)).1.side s = p.side s
      ∧ (Machine.run exec p (takers.map .add)).1.side s.opposite = rest
      ∧ ∀ id, id ∈ (Machine.run exec p (takers.map .add)).1.accepted ↔ id ∈ p.accepted ∨ ∃ t ∈ takers, t.id = id := by
  induction takers generalizing p makers with
  | nil =>
      obtain rfl := List.eq_nil_of_length_eq_zero hlength.symm
      exact ⟨rfl, rfl, hside, by simp⟩
  | cons t takers ih =>
      cases makers with
      | nil => cases hlength
      | cons m makers =>
          obtain ⟨rfl, hqty, hnew⟩ := htakers t List.mem_cons_self
          obtain ⟨hlater, hids⟩ := List.pairwise_cons.mp hids
          have hm := hmakers m List.mem_cons_self
          have h0' : t.remainingQty ≠ 0 := hqty ▸ h0
          have hsubmit : (p.accept t.id).submit t
              = ((p.accept t.id).withSides t.side (p.side t.side) (makers ++ rest), [fullTrade t m]) :=
            submit_fullTrade (p := p.accept t.id) hside (hcross t List.mem_cons_self m List.mem_cons_self)
              (hm.trans hqty.symm) h0'
          rw [List.map_cons, Machine.run_cons, exec_add_new h0' hnew, hsubmit]
          have hrest := ih (p := (p.accept t.id).withSides t.side (p.side t.side) (makers ++ rest))
            (by rw [side_withSides_opposite]) (Nat.succ.inj hlength) ?_ hids
            (fun x hx => hmakers x (List.mem_cons_of_mem m hx))
            (fun x hx y hy => hcross x (List.mem_cons_of_mem t hx) y (List.mem_cons_of_mem m hy))
          · obtain ⟨hresults, hown, hopposite, haccepted⟩ := hrest
            refine ⟨congrArg _ hresults, hown.trans (side_withSides_own _ _ _ _), hopposite, ?_⟩
            intro id
            rw [haccepted, accepted_withSides, accepted_accept, Finset.mem_insert]
            simp [or_assoc, or_left_comm, eq_comm]
          · intro x hx
            obtain ⟨hxside, hxqty, hxnew⟩ := htakers x (List.mem_cons_of_mem t hx)
            refine ⟨hxside, hxqty, ?_⟩
            rw [accepted_withSides, accepted_accept, Finset.mem_insert, not_or]
            exact ⟨(UInt64.ne_of_lt (hlater x hx)).symm, hxnew⟩

/-! ## How many orders rest -/

theorem length_submit (p : PriorityBook) (o : Order) : (p.submit o).1.orders.length ≤ p.orders.length + 1 := by
  obtain ⟨left, hfills, hown⟩ := p.submit_spec o
  have hopposite := hfills.ids.length_le
  rw [List.length_map, List.length_map] at hopposite
  rw [length_orders _ o.side, length_orders p o.side, hown, length_restLeft]
  split_ifs <;> omega

/-- A command makes at most one more order rest. -/
theorem length_exec (p : PriorityBook) (c : ScenarioCommand) :
    (p.exec c).1.orders.length ≤ p.orders.length + 1 := by
  have hwithout : ∀ id, (p.without id).orders.length ≤ p.orders.length := by
    intro id
    rw [length_orders _ .buy, length_orders p .buy]
    exact Nat.add_le_add (List.length_filter_le _ _) (List.length_filter_le _ _)
  have hstep := p.exec_step c
  generalize (p.exec c).1 = p' at hstep
  generalize (p.exec c).2 = res at hstep
  cases hstep with
  | rejected _ => exact Nat.le_succ _
  | added h0 hnew => exact length_submit (p.accept _) _
  | @cancelled id old hold => exact (hwithout id).trans (Nat.le_succ _)
  | @modified id old price qty h0 hold => exact (length_submit _ _).trans (Nat.succ_le_succ (hwithout id))

/-- A run makes at most as many orders rest as it has commands. -/
theorem length_run (p : PriorityBook) (cmds : List ScenarioCommand) :
    (Machine.run exec p cmds).1.orders.length ≤ p.orders.length + cmds.length := by
  induction cmds generalizing p with
  | nil => exact le_refl _
  | cons c cmds ih =>
      have hone := p.length_exec c
      have hrest := ih (p.exec c).1
      rw [Machine.run_cons, List.length_cons]
      exact hrest.trans (by omega)

end PriorityBook
end LimitOrderBook
