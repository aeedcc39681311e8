import LimitOrderBook.Properties.Invisible
import LimitOrderBook.Reference.Depth

/-!
# `Properties.Allocation` — price-time allocation in closed form

Which makers an incoming order trades with, and how much with each, from the sums of the quantities ahead of them,
read off the snapshot before the call. The loops are not in it.

* **The closed form.** `allocation` gives the trades: a maker trades if the depth ahead of it is less than the
  quantity to trade, and it trades all it has or what is left. `levelsAfterTrades` gives the levels behind them, and
  `submission` the order that a command submits and the snapshot that it is submitted to. `Allocates` is the whole
  statement.
* **Matching allocates.** `Fills.allocation` and `Fills.afterTrades` are by induction on the matching, along the sums
  (`allocation_cons`): a maker that is filled leaves an allocation of what is left over.
* **The snapshot.** `allocates_submit` carries both to the snapshots before and after a submission, and
  `price_time_allocation` is the law for every successful add or modify in every run.
-/

namespace LimitOrderBook

/-! ## The closed form -/

/-- A trade as the values on it. -/
def Trade.values (t : Trade) : OrderId × OrderId × Price × Nat :=
  (t.makerOrderId, t.takerOrderId, t.price, t.quantity.toNat)

/-- **The allocation.** A maker trades if the depth ahead of it is less than the quantity to trade, and it
    trades all it has or what is left. -/
def allocation (taker : OrderId) (quantity : Nat) (makers : List Order) :
    List (OrderId × OrderId × Price × Nat) :=
  (makers.zipIdx.filter fun m => depth (makers.take m.2) < quantity).map fun m =>
    (m.1.id, taker, m.1.price, min m.1.remainingQty.toNat (quantity - depth (makers.take m.2)))

/-- An order after the trades, gone when they took all it had. -/
def afterTrades (trades : List Trade) (o : Order) : Option Order :=
  if tradedAsMaker o.id trades = o.remainingQty.toNat then none
  else some { o with remainingQty := o.remainingQty - UInt64.ofNat (tradedAsMaker o.id trades) }

/-- The levels of a side after the trades, without those left empty. -/
def levelsAfterTrades (trades : List Trade) (levels : List (Price × List Order)) :
    List (Price × List Order) :=
  (levels.map fun l => (l.1, l.2.filterMap (afterTrades trades))).filter fun l => l.2 ≠ []

/-- The orders that an incoming order may trade with, in snapshot order. -/
def BookSnapshot.makers (snap : BookSnapshot) (taker : Order) : List Order :=
  (snap.orders taker.side.opposite).filter fun m => taker.side.crosses taker.price m.price

/-- The order that a command submits, with the book it is submitted to: a modify takes the old order out
    first. -/
def submission (snap : BookSnapshot) : ScenarioCommand → Option (BookSnapshot × Order)
  | .add order => some (snap, order)
  | .cancel _ => none
  | .modify id newPrice newQuantity =>
      ((snap.orders .buy ++ snap.orders .sell).find? fun o => o.id = id).map fun old =>
        (snap.remove id, Order.new id old.side newPrice newQuantity)

/-- `taker`, submitted to a book that shows `before`, trades by the allocation and leaves `after`. -/
structure Allocates (before : BookSnapshot) (taker : Order) (trades : List Trade) (after : BookSnapshot) :
    Prop where
  allocated : trades.map Trade.values
    = allocation taker.id taker.remainingQty.toNat (before.makers taker)
  /-- Every maker is less what it traded, in its place, and gone when nothing is left of it. -/
  opposite : after.levels taker.side.opposite
    = levelsAfterTrades trades (before.levels taker.side.opposite)
  /-- What is left of the incoming order is last in the queue of its limit. -/
  own : after.levels taker.side =
    if depth (before.makers taker) < taker.remainingQty.toNat then
      Ladder.join taker.side.better taker.price
        { taker with
          remainingQty := UInt64.ofNat (taker.remainingQty.toNat - depth (before.makers taker)) }
        (before.levels taker.side)
    else before.levels taker.side
  rests : taker.id ∈ after.ids ↔ depth (before.makers taker) < taker.remainingQty.toNat

/-! ## The sums along the makers -/

@[simp] theorem allocation_nil (taker : OrderId) (quantity : Nat) : allocation taker quantity [] = [] := rfl

@[simp] theorem allocation_zero (taker : OrderId) (makers : List Order) : allocation taker 0 makers = [] := by
  simp [allocation]

/-- The first maker trades, and the others are allocated what it leaves. -/
theorem allocation_cons (taker : OrderId) {quantity : Nat} (hquantity : 0 < quantity) (maker : Order)
    (makers : List Order) :
    allocation taker quantity (maker :: makers)
      = (maker.id, taker, maker.price, min maker.remainingQty.toNat quantity)
        :: allocation taker (quantity - maker.remainingQty.toNat) makers := by
  unfold allocation
  rw [List.zipIdx_cons, List.zipIdx_succ, List.filter_cons_of_pos (by simpa [depth] using hquantity),
    List.map_cons, List.filter_map, List.map_map]
  refine congrArg₂ List.cons (by simp [depth]) ?_
  -- the depth ahead of a later maker counts the first one
  have hahead : ∀ i, depth ((maker :: makers).take (i + 1))
      = maker.remainingQty.toNat + depth (makers.take i) := by
    intro i
    rw [List.take_succ_cons, depth_cons]
  refine (congrArg _ (List.filter_congr ?_)).trans (List.map_congr_left ?_)
  · rintro ⟨m, i⟩ -
    simp only [Function.comp_apply, hahead, decide_eq_decide]
    omega
  · rintro ⟨m, i⟩ -
    simp only [Function.comp_apply, hahead, Prod.mk.injEq, true_and]
    omega

/-! ## Matching allocates -/

namespace Fills

variable {taker : Order} {xs ys : List Order} {left left' : Quantity} {trades : List Trade}

/-- Beyond an order that is out of reach there is no maker. -/
theorem makers_of_not_crosses {maker : Order} {rest : List Order}
    (hsorted : (maker :: rest).Pairwise fun x y => ¬taker.side.opposite.ahead y x)
    (hmaker : ¬taker.side.crosses taker.price maker.price) :
    ((maker :: rest).filter fun m => taker.side.crosses taker.price m.price) = [] := by
  obtain ⟨hhead, -⟩ := List.pairwise_cons.mp hsorted
  rw [List.filter_eq_nil_iff]
  intro x hx
  rw [decide_eq_true_eq]
  rcases List.mem_cons.mp hx with rfl | hx
  · exact hmaker
  · exact Side.not_crosses_of_not_better hmaker (hhead x hx)

/-- **Matching trades by the allocation**, and what it leaves is what the makers did not have. -/
theorem allocation (h : Fills taker xs left ys left' trades)
    (hsorted : xs.Pairwise fun x y => ¬taker.side.opposite.ahead y x) :
    trades.map Trade.values
        = LimitOrderBook.allocation taker.id left.toNat
            (xs.filter fun m => taker.side.crosses taker.price m.price)
      ∧ left'.toNat = left.toNat - depth (xs.filter fun m => taker.side.crosses taker.price m.price) := by
  induction h with
  | empty left => exact ⟨rfl, rfl⟩
  | @stop maker rest left hstop =>
      rcases hstop with rfl | hstop
      · exact ⟨(allocation_zero _ _).symm, (Nat.zero_sub _).symm⟩
      · rw [makers_of_not_crosses hsorted hstop]
        exact ⟨rfl, rfl⟩
  | @full maker rest rest' left left' trades hleft hcross hle _ ih =>
      obtain ⟨ihtrades, ihleft⟩ := ih (List.pairwise_cons.mp hsorted).2
      have hpos := toNat_pos hleft
      have hle' := UInt64.le_iff_toNat_le.mp hle
      rw [UInt64.toNat_sub_of_le _ _ hle] at ihtrades ihleft
      rw [List.filter_cons_of_pos (by simpa using hcross), allocation_cons _ hpos, depth_cons]
      refine ⟨?_, by omega⟩
      rw [List.map_cons, ihtrades, Nat.min_eq_left hle']
      rfl
  | @part maker rest left hleft hcross hle =>
      have hlt := UInt64.lt_iff_toNat_lt.mp (UInt64.not_le.mp hle)
      have hnone : left.toNat - maker.remainingQty.toNat = 0 := by omega
      rw [List.filter_cons_of_pos (by simpa using hcross), allocation_cons _ (toNat_pos hleft), depth_cons, hnone,
        allocation_zero, Nat.min_eq_right (Nat.le_of_lt hlt)]
      refine ⟨rfl, ?_⟩
      show 0 = _
      omega

end Fills

section AfterTrades

variable {taker : Order} {xs ys : List Order} {left left' : Quantity} {trades : List Trade}

/-- An order that traded nothing stays as it is. -/
theorem afterTrades_of_none {o : Order} (h : tradedAsMaker o.id trades = 0) (hpos : o.remainingQty ≠ 0) :
    afterTrades trades o = some o := by
  have hne : ¬0 = o.remainingQty.toNat := fun heq => Nat.ne_of_lt (toNat_pos hpos) heq
  unfold afterTrades
  rw [h, if_neg hne]
  simp

/-- A trade with another maker does not matter to it. -/
theorem afterTrades_cons_of_ne {t : Trade} {o : Order} (h : t.makerOrderId ≠ o.id) :
    afterTrades (t :: trades) o = afterTrades trades o := by
  unfold afterTrades
  rw [tradedAsMaker_cons_of_ne h]

/-- Orders that did not trade are as they were. -/
theorem filterMap_afterTrades_of_none (h : ∀ x ∈ xs, tradedAsMaker x.id trades = 0)
    (hpos : ∀ x ∈ xs, x.remainingQty ≠ 0) : xs.filterMap (afterTrades trades) = xs := by
  refine (List.filterMap_congr fun x hx => ?_).trans (List.filterMap_some)
  exact afterTrades_of_none (h x hx) (hpos x hx)

/-- **What matching leaves of a side** is each order less what it traded. -/
theorem Fills.afterTrades (h : Fills taker xs left ys left' trades) (hnd : (xs.map Order.id).Nodup)
    (hpos : ∀ x ∈ xs, x.remainingQty ≠ 0) : xs.filterMap (afterTrades trades) = ys := by
  induction h with
  | empty left => rfl
  | stop _ => exact filterMap_afterTrades_of_none (fun _ _ => rfl) hpos
  | @full maker rest rest' left left' trades hleft hcross hle hrest ih =>
      obtain ⟨hout, hnd'⟩ := List.nodup_cons.mp hnd
      have ih := ih hnd' fun x hx => hpos x (List.mem_cons_of_mem _ hx)
      have hgone : LimitOrderBook.afterTrades (fullTrade taker maker :: trades) maker = none := by
        have hnow : tradedAsMaker maker.id (fullTrade taker maker :: trades) = maker.remainingQty.toNat :=
          tradedAsMaker_cons_last (hrest.makers_ne hout)
        unfold LimitOrderBook.afterTrades
        rw [hnow, if_pos rfl]
      rw [List.filterMap_cons_none hgone, ← ih]
      apply List.filterMap_congr
      intro x hx
      apply afterTrades_cons_of_ne
      intro hid
      exact hout (List.mem_map.mpr ⟨x, hx, hid.symm⟩)
  | @part maker rest left hleft hcross hle =>
      obtain ⟨hout, -⟩ := List.nodup_cons.mp hnd
      have hlt := UInt64.lt_iff_toNat_lt.mp (UInt64.not_le.mp hle)
      have hnow : tradedAsMaker maker.id [⟨maker.id, taker.id, maker.price, left⟩] = left.toNat :=
        tradedAsMaker_cons_last (t := ⟨maker.id, taker.id, maker.price, left⟩) (by simp)
      have hstays : LimitOrderBook.afterTrades [⟨maker.id, taker.id, maker.price, left⟩] maker
          = some { maker with remainingQty := maker.remainingQty - left } := by
        unfold LimitOrderBook.afterTrades
        rw [hnow, if_neg (Nat.ne_of_lt hlt), UInt64.ofNat_toNat]
      rw [List.filterMap_cons_some hstays]
      refine congrArg _ (filterMap_afterTrades_of_none ?_ fun x hx => hpos x (List.mem_cons_of_mem _ hx))
      intro x hx
      apply tradedAsMaker_eq_zero
      intro t ht hid
      rw [List.mem_singleton.mp ht] at hid
      exact hout (List.mem_map.mpr ⟨x, hx, hid.symm⟩)

end AfterTrades

/-! ## The snapshot -/

theorem levels_remove (snap : BookSnapshot) (x : OrderId) (s : Side) :
    (snap.remove x).levels s = removeFrom x (snap.levels s) := by cases s <;> rfl

/-- The snapshot without an order shows the priority book without it. -/
theorem Depicts.remove {snap : BookSnapshot} {p : PriorityBook} (h : Depicts snap p) (x : OrderId) :
    Depicts (snap.remove x) (p.without x) := by
  obtain ⟨L, hlevels, hsides⟩ := h
  refine ⟨fun s => (L s).filterMap (Option.guard fun o => o.id ≠ x), ?_, ?_⟩
  · intro s
    rw [levels_remove, hlevels, levels_filterMap_ne]
  · intro s
    refine ⟨(hsides s).1.filterMap ?_, ?_⟩
    · intro o o' ho
      rw [(Option.guard_eq_some_iff.mp ho).1]
    · rw [Ladder.flat_filterMap, (hsides s).2, List.filterMap_eq_filter]
      rfl

/-- The snapshot has the order that the book finds. -/
theorem Depicts.find?_eq {snap : BookSnapshot} {p : PriorityBook} (h : Depicts snap p) (id : OrderId) :
    (snap.orders .buy ++ snap.orders .sell).find? (fun o => o.id = id) = p.find? id := by
  rw [h.orders_eq, h.orders_eq]
  rfl

/-- A modify submits the changed order to the book without the old one. -/
theorem Depicts.submission_modify {snap : BookSnapshot} {p : PriorityBook} (h : Depicts snap p) (id : OrderId)
    (price : Price) (qty : Quantity) :
    submission snap (.modify id price qty)
      = (p.find? id).map fun old => (snap.remove id, Order.new id old.side price qty) := by
  rw [← h.find?_eq]
  rfl

/-- A side that has not changed is shown as before. -/
theorem Depicts.levels_eq {before after : BookSnapshot} {p p' : PriorityBook} (h : Depicts before p)
    (h' : Depicts after p') {s : Side} (hs : p'.side s = p.side s) : after.levels s = before.levels s := by
  obtain ⟨L, hlevels, hsides⟩ := h
  obtain ⟨L', hlevels', hsides'⟩ := h'
  have hladder : L' s = L s := by
    refine (hsides' s).1.ext_flat (hsides s).1 ?_
    rw [(hsides' s).2, (hsides s).2, hs]
  rw [hlevels', hlevels, hladder]

/-- What is left of an order is shown at the end of its level. -/
theorem Depicts.levels_restLeft {before after : BookSnapshot} {p p' : PriorityBook} (h : Depicts before p)
    (h' : Depicts after p') {o : Order} {left : Quantity}
    (hown : p'.side o.side = restLeft o left (p.side o.side)) (hleft : left ≠ 0) :
    after.levels o.side
      = Ladder.join o.side.better o.price { o with remainingQty := left } (before.levels o.side) := by
  obtain ⟨L, hlevels, hsides⟩ := h
  obtain ⟨L', hlevels', hsides'⟩ := h'
  have hpush := (hsides o.side).1.flat_push { o with remainingQty := left }
  have hladder : L' o.side = (L o.side).push o.price { o with remainingQty := left } := by
    refine (hsides' _).1.ext_flat ((hsides o.side).1.push { o with remainingQty := left }) ?_
    rw [(hsides' _).2, hown, restLeft, if_neg hleft, hpush, (hsides _).2]
    rfl
  rw [hlevels', hlevels, hladder, Ladder.levels_push]

/-- **Submitting an order allocates.** -/
theorem allocates_submit {p : PriorityBook} {o : Order} {before after : BookSnapshot} (hp : p.Valid)
    (hnew : ∀ x ∈ p.orders, x.id ≠ o.id) (hbefore : Depicts before p) (hafter : Depicts after (p.submit o).1) :
    Allocates before o (p.submit o).2 after := by
  obtain ⟨left, hfills, hown⟩ := p.submit_spec o
  obtain ⟨hallocated, hleft⟩ := hfills.allocation (hp.sorted _)
  have hmakers : before.makers o
      = (p.side o.side.opposite).filter fun m => o.side.crosses o.price m.price := by
    unfold BookSnapshot.makers
    rw [hbefore.orders_eq]
  rw [← hmakers] at hallocated hleft
  have hids := hafter.ids_eq
  have hleft0 : left ≠ 0 ↔ depth (before.makers o) < o.remainingQty.toNat := by
    rw [← Nat.sub_pos_iff_lt, ← hleft]
    exact ⟨toNat_pos, fun h heq => by simp [heq] at h⟩
  refine ⟨hallocated, ?_, ?_, ?_⟩
  · obtain ⟨L, hlevels, hsides⟩ := hbefore
    obtain ⟨L', hlevels', hsides'⟩ := hafter
    have hladder : L' o.side.opposite
        = (L o.side.opposite).filterMap (afterTrades (p.submit o).2) := by
      refine (hsides' _).1.ext_flat ((hsides _).1.filterMap ?_) ?_
      · intro x y hxy
        unfold afterTrades at hxy
        split at hxy
        · cases hxy
        · cases hxy
          rfl
      · rw [(hsides' _).2, Ladder.flat_filterMap, (hsides _).2,
          hfills.afterTrades (hp.nodup_side _) (hp.positive _)]
    rw [hlevels', hlevels, hladder, Ladder.levels_filterMap]
    rfl
  · by_cases h0 : left = 0
    · rw [if_neg fun h => hleft0.mpr h h0]
      refine hbefore.levels_eq hafter ?_
      rw [hown, restLeft, if_pos h0]
    · rw [if_pos (hleft0.mp h0), hbefore.levels_restLeft hafter hown h0, ← hleft, UInt64.ofNat_toNat]
  · rw [hids, ← hleft0, List.mem_map]
    constructor
    · rintro ⟨x, hx, hid⟩
      obtain ⟨s, hx⟩ := PriorityBook.mem_orders.mp hx
      rcases s.eq_or_eq_opposite o.side with rfl | rfl
      · rw [hown, PriorityBook.mem_restLeft] at hx
        rcases hx with hx | ⟨h0, -⟩
        · exact absurd hid (hnew x (PriorityBook.mem_orders.mpr ⟨_, hx⟩))
        · exact h0
      · obtain ⟨y, hy, hplace⟩ := hfills.exists_of_mem hx
        have hid' : y.id = x.id := PriorityBook.place_id hplace
        exact absurd (hid'.trans hid) (hnew y (PriorityBook.mem_orders.mpr ⟨_, hy⟩))
    · intro h0
      refine ⟨{ o with remainingQty := left }, PriorityBook.mem_orders.mpr ⟨o.side, ?_⟩, rfl⟩
      rw [hown, PriorityBook.mem_restLeft]
      exact Or.inr ⟨h0, rfl⟩

theorem mem_orders_of_level {snap : BookSnapshot} {s : Side} {l : Price × List Order} (hl : l ∈ snap.levels s)
    {o : Order} (ho : o ∈ l.2) : o ∈ snap.orders .buy ++ snap.orders .sell := by
  have hmem : o ∈ snap.orders s := List.mem_flatMap.mpr ⟨l, hl, ho⟩
  cases s with
  | buy => exact List.mem_append_left _ hmem
  | sell => exact List.mem_append_right _ hmem

/-- An order that was submitted is the last one at its limit. -/
theorem Allocates.last {before after : BookSnapshot} {taker : Order} {trades : List Trade}
    (h : Allocates before taker trades after) (hnew : taker.id ∉ before.ids) (hnd : after.ids.Nodup)
    {l : Price × List Order} (hl : l ∈ after.levels taker.side) {o : Order} (ho : o ∈ l.2)
    (hid : o.id = taker.id) : l.1 = taker.price ∧ l.2.getLast? = some o := by
  have hold : l ∉ before.levels taker.side := by
    intro hold
    exact hnew (List.mem_map.mpr ⟨o, mem_orders_of_level hold ho, hid⟩)
  have hown := h.own ▸ hl
  split at hown
  · obtain ⟨hprice, hlast⟩ := (Ladder.mem_join hown).resolve_left hold
    refine ⟨hprice, hlast.trans (congrArg some ?_)⟩
    -- the two orders have one id
    have hmem := mem_orders_of_level hl (List.mem_of_getLast? hlast)
    exact List.inj_on_of_nodup_map hnd hmem (mem_orders_of_level hl ho) hid.symm
  · exact absurd hown hold

/-- **Price-time allocation in closed form.** After every run, a successful add or modify trades by the
    allocation, from the snapshot before the call (without the old order, for a modify), and its trades
    say what the snapshot after the call is. -/
theorem price_time_allocation (mode : EventMode) (cmds : List ScenarioCommand) (c : ScenarioCommand)
    (hroom : OrderBook.NeverOverfull mode (cmds ++ [c])) :
    ∃ b results snap b' res snap', OrderBook.run mode cmds = .ok (b, results) ∧ b.snapshot = .ok snap
      ∧ b.exec c = .ok (b', res) ∧ b'.snapshot = .ok snap'
      ∧ ((∀ id, c ≠ .cancel id) → ∀ trades, res = .ok trades →
          ∃ before taker, submission snap c = some (before, taker)
            ∧ Allocates before taker trades snap') := by
  obtain ⟨b, b', hrun, hrep, hexec, hrep'⟩ := run_represents_snoc hroom
  obtain ⟨snap, hsnap, -⟩ := hrep.snapshot_eq
  obtain ⟨snap', hsnap', -⟩ := hrep'.snapshot_eq
  refine ⟨b, _, snap, b', _, snap', hrun, hsnap, hexec, hsnap', ?_⟩
  intro hcancel trades htrades
  have hdepicts := hrep.depicts hsnap
  have hdepicts' := hrep'.depicts hsnap'
  have hvalid := priorityRun_valid cmds
  generalize (priorityRun cmds).1 = p at htrades hdepicts hdepicts' hvalid
  have hstep := p.exec_step c
  rw [htrades] at hstep
  generalize (p.exec c).1 = p' at hstep hdepicts'
  cases hstep with
  | @added o h0 hnew =>
      exact ⟨snap, o, rfl, allocates_submit (hvalid.accept o.id) (hvalid.fresh hnew) hdepicts hdepicts'⟩
  | @cancelled id old hold => exact absurd rfl (hcancel id)
  | @modified id old price qty h0 hold =>
      refine ⟨snap.remove id, Order.new id old.side price qty, ?_,
        allocates_submit (hvalid.without id) ?_ (hdepicts.remove id) hdepicts'⟩
      · rw [hdepicts.submission_modify, hold]
        rfl
      · intro x hx
        exact (PriorityBook.mem_orders_without.mp hx).2

/-- Order 1 of the session is modified into the asks: its one trade is the allocation. -/
theorem price_time_allocation_session :
    ∃ b results snap b' res snap', OrderBook.run .full (session.take 5) = .ok (b, results)
      ∧ b.snapshot = .ok snap ∧ b.exec (.modify 1 105 2) = .ok (b', res) ∧ b'.snapshot = .ok snap'
      ∧ res = .ok [⟨3, 1, 105, 2⟩]
      ∧ ∃ before taker, submission snap (.modify 1 105 2) = some (before, taker)
        ∧ Allocates before taker [⟨3, 1, 105, 2⟩] snap' := by
  obtain ⟨b, results, snap, b', res, snap', hrun, hsnap, hexec, hsnap', hallocates⟩ :=
    price_time_allocation .full (session.take 5) (.modify 1 105 2) (by decide +kernel)
  have hshown : (do
      let (b, _) ← OrderBook.run .full (session.take 5)
      let (_, res) ← b.exec (.modify 1 105 2)
      pure res) = .ok (.ok [⟨3, 1, 105, 2⟩]) := by decide +kernel
  rw [hrun, Machine.ok_bind] at hshown
  dsimp only at hshown
  rw [hexec, Machine.ok_bind] at hshown
  have hres : res = .ok [⟨3, 1, 105, 2⟩] := Except.ok.inj hshown
  exact ⟨b, results, snap, b', res, snap', hrun, hsnap, hexec, hsnap', hres, hallocates (by simp) _ hres⟩

end LimitOrderBook
