import LimitOrderBook.Properties.Allocation
import LimitOrderBook.Properties.Lifecycle
import LimitOrderBook.Refinement.Overflow

/-!
# `Properties.CachedDepth` — when the cached depth of a level is exact

A level caches the sum of its queue in a `u64` that wraps in a release build. This module says of which runs the
cached depths are exact after every prefix.

Only an order that comes to rest adds to a queue. So the cached depths stay exact as long as what comes to rest still
fits its queue, and what comes to rest can be read off the snapshot before the call: the quantity of the order less
the depth of the orders that it crosses (`RestFits`).

* **The priority book.** `DepthFits` says that every depth fits a `u64`, and `Fits` that a command leaves it so. A
  step is exact when it fits (`DepthFits.exec`), because matching only takes from a queue (`Fills.depthAt_le`).
* **The book.** `Represents.execExact` is the same of the arithmetic of a call of the source, from the lemmas of
  `Refinement.Overflow`.
* **Runs.** `OrderBook.TotalsExact` compares the cached depths of a book with its queues, and `Depicts.fits_iff` reads
  the condition off a snapshot. `cached_depth_exact_iff` has both directions, for every run.
-/

namespace LimitOrderBook

/-! ## The priority book -/

/-- The depth at one price. -/
def depthAt (orders : List Order) (price : Price) : Nat := depth (orders.filter fun o => o.price = price)

/-- What comes to rest of an incoming order fits the queue of its limit. -/
def RestFits (own opposite : List Order) (incoming : Order) : Prop :=
  let crossing := depth (opposite.filter fun m => incoming.side.crosses incoming.price m.price)
  crossing < incoming.remainingQty.toNat →
    depthAt own incoming.price + (incoming.remainingQty.toNat - crossing) < 2 ^ 64

instance (own opposite : List Order) (incoming : Order) : Decidable (RestFits own opposite incoming) := by
  unfold RestFits
  infer_instance

namespace PriorityBook

variable {p : PriorityBook} {o : Order}

/-- Every depth fits a `u64`. -/
def DepthFits (p : PriorityBook) : Prop := ∀ s price, depthAt (p.side s) price < 2 ^ 64

/-- What comes to rest in a command fits its queue. -/
def Fits (p : PriorityBook) : ScenarioCommand → Prop
  | .add order => order.remainingQty ≠ 0 → order.id ∉ p.accepted →
      RestFits (p.side order.side) (p.side order.side.opposite) order
  | .cancel _ => True
  | .modify id newPrice newQuantity => newQuantity ≠ 0 → ∀ old, p.find? id = some old →
      RestFits ((p.without id).side old.side) ((p.without id).side old.side.opposite)
        (Order.new id old.side newPrice newQuantity)

end PriorityBook

/-- Fewer orders have no more depth at any price. -/
theorem depthAt_sublist {xs ys : List Order} (h : xs.Sublist ys) (price : Price) :
    depthAt xs price ≤ depthAt ys price := depth_sublist (h.filter _)

/-- Matching adds to no depth. -/
theorem Fills.depthAt_le {taker : Order} {xs ys : List Order} {left left' : Quantity} {trades : List Trade}
    (h : Fills taker xs left ys left' trades) (price : Price) : depthAt ys price ≤ depthAt xs price := by
  induction h with
  | empty left => exact le_refl _
  | stop _ => exact le_refl _
  | @full maker rest _ _ _ _ _ _ _ _ ih => exact ih.trans (depthAt_sublist (List.sublist_cons_self _ _) price)
  | @part maker rest left hleft hcross hle =>
      have hless : left ≤ maker.remainingQty := UInt64.le_of_lt (UInt64.not_le.mp hle)
      have hsub := UInt64.toNat_sub_of_le _ _ hless
      unfold depthAt
      by_cases hprice : maker.price = price
      · rw [List.filter_cons_of_pos (by simpa using hprice), List.filter_cons_of_pos (by simpa using hprice),
          depth_cons, depth_cons]
        dsimp only
        omega
      · rw [List.filter_cons_of_neg (by simpa using hprice), List.filter_cons_of_neg (by simpa using hprice)]

/-- An order that comes to rest adds to the depth of its price alone. -/
theorem depthAt_restLeft (o : Order) {left : Quantity} (hleft : left ≠ 0) (own : List Order) (price : Price) :
    depthAt (restLeft o left own) price
      = depthAt own price + if o.price = price then left.toNat else 0 := by
  have hperm : (restLeft o left own).Perm ({ o with remainingQty := left } :: own) :=
    PriorityBook.perm_restLeft hleft
  unfold depthAt
  rw [depth_perm (hperm.filter _)]
  by_cases hprice : o.price = price
  · rw [List.filter_cons_of_pos (by simpa using hprice), depth_cons, if_pos hprice, Nat.add_comm]
  · rw [List.filter_cons_of_neg (by simpa using hprice), if_neg hprice]
    rfl

namespace PriorityBook

variable {p : PriorityBook} {o : Order} {c : ScenarioCommand}

/-- Removing an order adds to no depth. -/
theorem DepthFits.without (h : p.DepthFits) (id : OrderId) : (p.without id).DepthFits :=
  fun s price => (depthAt_sublist List.filter_sublist price).trans_lt (h s price)

/-- Submitting an order keeps the depths in range if what comes to rest fits. -/
theorem DepthFits.submit (h : p.DepthFits) (hp : p.Valid)
    (hrest : RestFits (p.side o.side) (p.side o.side.opposite) o) : (p.submit o).1.DepthFits := by
  obtain ⟨left, hfills, hown⟩ := p.submit_spec o
  obtain ⟨-, hleft⟩ := hfills.allocation (hp.sorted _)
  intro s price
  rcases s.eq_or_eq_opposite o.side with rfl | rfl
  · rw [hown]
    by_cases h0 : left = 0
    · rw [restLeft, if_pos h0]
      exact h _ _
    · have hpos := toNat_pos h0
      have hfits := hrest (by omega)
      have hold := h o.side price
      rw [depthAt_restLeft o h0]
      split_ifs with hprice
      · rw [← hprice, hleft]
        exact hfits
      · exact hold
  · exact (hfills.depthAt_le price).trans_lt (h _ _)

/-- **A command keeps the depths in range** if what comes to rest in it fits. -/
theorem DepthFits.exec (h : p.DepthFits) (hp : p.Valid) (hc : p.Fits c) : (p.exec c).1.DepthFits := by
  have hstep := p.exec_step c
  generalize (p.exec c).2 = res at hstep
  generalize (p.exec c).1 = p' at hstep
  cases hstep with
  | rejected _ => exact h
  | @added o h0 hnew =>
      have haccepted : (p.accept o.id).DepthFits := h
      exact haccepted.submit (hp.accept o.id) (hc h0 hnew)
  | @cancelled id old hold => exact h.without id
  | @modified id old price qty h0 hold =>
      exact (h.without id).submit (o := Order.new id old.side price qty) (hp.without id) (hc h0 old hold)

end PriorityBook

namespace ReferenceBook

variable {r : ReferenceBook}

/-- The depth of a queue is the depth at its price. -/
theorem depth_queue (hr : r.Placed) (s : Side) (price : Price) :
    depth (r.queue s price) = depthAt (r.flatten.side s) price := by
  unfold queue depthAt
  rw [(hr s).queueAt_eq_filter]
  rfl

/-- What is left after the sweep is what the crossing orders did not have. -/
theorem restFits_iff (hr : r.Placed) (hvalid : r.flatten.Valid) (incoming : Order) :
    RestFits (r.flatten.side incoming.side) (r.flatten.side incoming.side.opposite) incoming
      ↔ (r.swept incoming ≠ 0 →
          depth (r.queue incoming.side incoming.price) + (r.swept incoming).toNat < 2 ^ 64) := by
  have hfills := fill_fills incoming (r.flatten.side incoming.side.opposite) incoming.remainingQty
  have hflat : fill incoming (r.flatten.side incoming.side.opposite) incoming.remainingQty = _ :=
    sweepSide_flat (hr _)
  rw [hflat] at hfills
  obtain ⟨-, hleft⟩ := hfills.allocation (hvalid.sorted _)
  have hleft : (r.swept incoming).toNat = _ := hleft
  rw [depth_queue hr, hleft]
  refine imp_congr_left ?_
  constructor
  · intro hlt h0
    rw [h0] at hleft
    have hzero : (0 : Quantity).toNat = 0 := rfl
    omega
  · intro hne
    have hpos := toNat_pos hne
    omega

end ReferenceBook

namespace Represents

variable {b : OrderBook} {p : PriorityBook}

/-- **Submitting an order** is exact when what comes to rest of it fits. -/
theorem matchIncomingExact (h : Represents b p) (hp : p.Valid) (hfits : p.DepthFits) (o : Order)
    (hroom : (p.submit o).1.orders.length ≤ 2 ^ 32) :
    b.MatchIncomingExact o ↔ RestFits (p.side o.side) (p.side o.side.opposite) o := by
  obtain ⟨r, href, hplaced, rfl⟩ := h
  rw [ReferenceBook.flatten_submit hplaced] at hroom
  rw [ReferenceBook.restFits_iff hplaced hp]
  refine href.matchIncomingExact ?_ hroom
  intro s price
  rw [ReferenceBook.depth_queue hplaced]
  exact hfits s price

theorem removeOrderByIdExact (h : Represents b p) (hfits : p.DepthFits) (id : OrderId) :
    b.RemoveOrderByIdExact id := by
  obtain ⟨r, href, hplaced, rfl⟩ := h
  refine href.removeOrderByIdExact ?_ id
  intro s price
  rw [ReferenceBook.depth_queue hplaced]
  exact hfits s price

theorem accept (h : Represents b p) (o : Order) :
    Represents ({ b with seenOrderIds := insert o.id b.seenOrderIds }.recordOrderAccepted o) (p.accept o.id) := by
  obtain ⟨r, href, hplaced, rfl⟩ := h
  rw [OrderBook.recordOrderAccepted_eq]
  refine ⟨{ r with accepted := insert o.id r.accepted }, (href.accept o.id).log _, ?_, ?_⟩
  · intro s
    cases s with
    | buy => exact hplaced .buy
    | sell => exact hplaced .sell
  · refine PriorityBook.ext (funext ?_) rfl
    intro s
    cases s <;> rfl

theorem removeOrderById (h : Represents b p) {id : OrderId} {old : Order} (hold : p.find? id = some old) :
    ∃ b', b.removeOrderById id = .ok (b', some old) ∧ Represents b' (p.without id) := by
  obtain ⟨r, href, hplaced, rfl⟩ := h
  obtain ⟨b', hremove, href'⟩ := href.removeOrderById_some hold
  exact ⟨b', hremove, _, href', hplaced.without id, ReferenceBook.flatten_without r id⟩

theorem removeOrderById_none (h : Represents b p) {id : OrderId} (hnone : p.find? id = none) :
    b.removeOrderById id = .ok (b, none) := by
  obtain ⟨r, href, -, rfl⟩ := h
  exact href.removeOrderById_none hnone

theorem seen_eq (h : Represents b p) : b.seenOrderIds = p.accepted := by
  obtain ⟨r, href, -, rfl⟩ := h
  exact href.seen

/-- **A call does not wrap** exactly when what comes to rest in it fits. -/
theorem execExact (h : Represents b p) (hp : p.Valid) (hfits : p.DepthFits) (c : ScenarioCommand)
    (hroom : (p.exec c).1.orders.length ≤ 2 ^ 32) : b.ExecExact c ↔ p.Fits c := by
  cases c with
  | add o =>
      show b.AddOrderExact o ↔ (o.remainingQty ≠ 0 → o.id ∉ p.accepted → _)
      unfold OrderBook.AddOrderExact
      rw [h.seen_eq]
      refine forall₂_congr fun h0 hnew => ?_
      have hexec : p.exec (.add o) = (((p.accept o.id).submit o).1, .ok ((p.accept o.id).submit o).2) :=
        PriorityBook.exec_add hnew h0 o.side o.price
      rw [hexec] at hroom
      have haccepted : (p.accept o.id).DepthFits := hfits
      have hrep := h.accept o
      rw [h.seen_eq] at hrep
      exact hrep.matchIncomingExact (hp.accept o.id) haccepted o hroom
  | cancel id => exact iff_of_true (h.removeOrderByIdExact hfits id) trivial
  | modify id price qty =>
      show b.ModifyOrderExact id price qty ↔ (qty ≠ 0 → ∀ old, p.find? id = some old → _)
      unfold OrderBook.ModifyOrderExact
      refine forall_congr' fun h0 => ?_
      rw [and_iff_right (h.removeOrderByIdExact hfits id)]
      cases hfind : p.find? id with
      | none =>
          rw [h.removeOrderById_none hfind]
          simp
      | some old =>
          obtain ⟨b', hremove, hrep⟩ := h.removeOrderById hfind
          have hid : old.id = id := (PriorityBook.of_find? hfind).1
          rw [PriorityBook.exec_modify hfind h0] at hroom
          have hmatch := hrep.matchIncomingExact (hp.without id) (hfits.without id)
            (Order.new id old.side price qty) hroom
          rw [hremove]
          constructor
          · intro hexact old' hold'
            cases hold'
            have hexact := hexact b' old rfl
            rw [hid] at hexact
            exact hmatch.mp hexact
          · intro hrest b'' old' hremove'
            cases hremove'
            rw [hid]
            exact hmatch.mpr (hrest old rfl)

end Represents
/-! ## Runs -/

/-- Every level caches the sum of its queue, as a natural number. -/
def OrderBook.TotalsExact (b : OrderBook) : Prop :=
  ∀ (s : Side) (price : Price) (level : PriceLevel), (b.levels s)[price]? = some level →
    ∃ orders, b.levelOrders level = .ok orders ∧ level.totalQuantity.toNat = depth orders

/-- What comes to rest in a call fits the queue of its limit, from the snapshot before the call. -/
def ScenarioCommand.RestFits (snap : BookSnapshot) (c : ScenarioCommand) : Prop :=
  ∀ before incoming, submission snap c = some (before, incoming) →
    LimitOrderBook.RestFits (before.orders incoming.side) (before.orders incoming.side.opposite) incoming

/-- The cached depths are exact when every depth fits. -/
theorem Represents.totalsExact_iff {b : OrderBook} {p : PriorityBook} (h : Represents b p) :
    b.TotalsExact ↔ p.DepthFits := by
  obtain ⟨r, href, hplaced, rfl⟩ := h
  constructor
  · intro hexact s price
    rw [← ReferenceBook.depth_queue hplaced, ← href.holds.store.total_eq_iff]
    by_cases hnil : r.queue s price = []
    · rw [href.holds.store.eq_default hnil, hnil]
      rfl
    · obtain ⟨orders, horders, htotal⟩ := hexact s price _ (href.holds.getElem?_eq hnil)
      rw [href.holds.levelOrders_eq] at horders
      cases horders
      exact htotal
  · intro hfits s price level hlevel
    obtain rfl := OrderBook.levelAt_of_some hlevel
    refine ⟨r.queue s price, href.holds.levelOrders_eq s price, ?_⟩
    rw [href.holds.store.total_eq_iff, ReferenceBook.depth_queue hplaced]
    exact hfits s price

/-- Whether a command fits can be read off the snapshot and the accepted ids. -/
theorem Depicts.fits_iff {snap : BookSnapshot} {p : PriorityBook} (h : Depicts snap p)
    {accepted : List OrderId} (haccepted : ∀ id, id ∈ p.accepted ↔ id ∈ accepted) (c : ScenarioCommand) :
    (verdict accepted snap.ids c = none → c.RestFits snap) ↔ p.Fits c := by
  cases c with
  | add o =>
      have hverdict : verdict accepted snap.ids (.add o) = none ↔ o.remainingQty ≠ 0 ∧ o.id ∉ p.accepted := by
        rw [haccepted]
        simp only [verdict]
        split_ifs with h0 hid <;> simp [*]
      have hsubmission : (ScenarioCommand.add o).RestFits snap
          ↔ RestFits (p.side o.side) (p.side o.side.opposite) o := by
        rw [← h.orders_eq, ← h.orders_eq]
        constructor
        · exact fun hrest => hrest snap o rfl
        · rintro hrest before incoming hsome
          cases hsome
          exact hrest
      rw [hverdict, hsubmission, and_imp]
      exact Iff.rfl
  | cancel id =>
      refine iff_of_true ?_ trivial
      intro _ before incoming hsome
      cases hsome
  | modify id price qty =>
      have hverdict : verdict accepted snap.ids (.modify id price qty) = none
          ↔ qty ≠ 0 ∧ p.find? id ≠ none := by
        rw [ne_eq (p.find? id), PriorityBook.find?_eq_none_iff_ids, not_not, ← h.ids_eq]
        simp only [verdict]
        split_ifs with h0 hid <;> simp [*]
      rw [hverdict, and_imp]
      refine forall_congr' fun h0 => ?_
      unfold ScenarioCommand.RestFits
      rw [h.submission_modify]
      cases hfind : p.find? id with
      | none => simp
      | some old =>
          have hwithout := (h.remove id).orders_eq
          rw [Option.map_some]
          constructor
          · intro hrest old' hold'
            cases hold'
            have hrest := hrest (by simp) _ _ rfl
            rw [hwithout, hwithout] at hrest
            exact hrest
          · intro hrest _ before incoming hsome
            cases hsome
            rw [hwithout, hwithout]
            exact hrest old rfl

/-- **The cached depth is exact** in a run exactly when everything that comes to rest in it still fits the
    `u64` of its level. Then no quantity arithmetic wraps in any call, and in every state each level
    caches the sum of its queue; otherwise some call wraps or some total is wrong. -/
theorem cached_depth_exact_iff (mode : EventMode) (cmds : List ScenarioCommand)
    (hroom : OrderBook.NeverOverfull mode cmds) :
    (∀ done, done <+: cmds → ∃ b results, OrderBook.run mode done = .ok (b, results) ∧ b.TotalsExact
        ∧ ∀ c, done ++ [c] <+: cmds → b.ExecExact c)
      ↔ ∀ done c, done ++ [c] <+: cmds → ∃ b results snap, OrderBook.run mode done = .ok (b, results)
          ∧ b.snapshot = .ok snap
          ∧ (verdict (acceptedIds done results) snap.ids c = none → c.RestFits snap) := by
  have hstart : ∀ done c, done ++ [c] <+: cmds → done <+: cmds := fun done c h =>
    (List.prefix_append done [c]).trans h
  have hcount : ∀ done c, done ++ [c] <+: cmds →
      ((priorityRun done).1.exec c).1.orders.length ≤ 2 ^ 32 := by
    intro done c hdone
    have hlength := neverOverfull_iff_priority.mp hroom _ hdone
    rw [priorityRun_append, Machine.run_cons, Machine.run_nil] at hlength
    exact hlength
  constructor
  · intro hexact done c hdone
    obtain ⟨b, hrun, hrep⟩ := run_represents (hroom.of_prefix (hstart done c hdone))
    obtain ⟨snap, hsnap, -⟩ := hrep.snapshot_eq
    obtain ⟨b', results, hrun', htotals, hcalls⟩ := hexact done (hstart done c hdone)
    rw [hrun] at hrun'
    cases hrun'
    have hfits := hrep.totalsExact_iff.mp htotals
    have hc := (hrep.execExact (priorityRun_valid done) hfits c (hcount done c hdone)).mp (hcalls c hdone)
    exact ⟨b, _, snap, hrun, hsnap, ((hrep.depicts hsnap).fits_iff (PriorityBook.mem_accepted_priorityRun done) c).mpr hc⟩
  · intro hrests
    have hstep : ∀ done c, done ++ [c] <+: cmds → (priorityRun done).1.Fits c := by
      intro done c hdone
      obtain ⟨b, hrun, hrep⟩ := run_represents (hroom.of_prefix (hstart done c hdone))
      obtain ⟨b', results, snap, hrun', hsnap, hrest⟩ := hrests done c hdone
      rw [hrun] at hrun'
      cases hrun'
      exact ((hrep.depicts hsnap).fits_iff (PriorityBook.mem_accepted_priorityRun done) c).mp hrest
    -- the depths stay in range, call by call
    have hfits : ∀ done, done <+: cmds → (priorityRun done).1.DepthFits := by
      intro done
      induction done using List.reverseRecOn with
      | nil =>
          intro _ s price
          show 0 < 2 ^ 64
          omega
      | append_singleton done c ih =>
          intro hdone
          rw [priorityRun_append, Machine.run_cons, Machine.run_nil]
          exact (ih (hstart done c hdone)).exec (priorityRun_valid done) (hstep done c hdone)
    intro done hdone
    obtain ⟨b, hrun, hrep⟩ := run_represents (hroom.of_prefix hdone)
    refine ⟨b, _, hrun, hrep.totalsExact_iff.mpr (hfits done hdone), ?_⟩
    intro c hc
    exact (hrep.execExact (priorityRun_valid done) (hfits done hdone) c (hcount done c hc)).mpr (hstep done c hc)

/-- A queue with all that fits, a trade with it, and as much added as was traded. -/
theorem cached_depth_exact_iff_full_queue :
    ∃ b results,
      OrderBook.run .full [.add ⟨1, .buy, 100, 18446744073709551615⟩, .add ⟨2, .sell, 100, 1⟩] = .ok (b, results)
        ∧ b.TotalsExact ∧ b.ExecExact (.add ⟨3, .buy, 100, 1⟩) := by
  have hexact := (cached_depth_exact_iff .full
    [.add ⟨1, .buy, 100, 18446744073709551615⟩, .add ⟨2, .sell, 100, 1⟩, .add ⟨3, .buy, 100, 1⟩]
    (by decide +kernel)).mpr ?_
  · obtain ⟨b, results, hrun, htotals, hcalls⟩ := hexact
      [.add ⟨1, .buy, 100, 18446744073709551615⟩, .add ⟨2, .sell, 100, 1⟩] ⟨[.add ⟨3, .buy, 100, 1⟩], rfl⟩
    exact ⟨b, results, hrun, htotals, hcalls _ ⟨[], rfl⟩⟩
  have hstep : ∀ done c, OrderBook.NeverOverfull .full done → (priorityRun done).1.Fits c →
      ∃ b results snap, OrderBook.run .full done = .ok (b, results) ∧ b.snapshot = .ok snap
        ∧ (verdict (acceptedIds done results) snap.ids c = none → c.RestFits snap) := by
    intro done c hroom hfits
    obtain ⟨b, snap, hrun, hsnap, hdepicts⟩ := run_depicts hroom
    exact ⟨b, _, snap, hrun, hsnap, (hdepicts.fits_iff (PriorityBook.mem_accepted_priorityRun done) c).mpr hfits⟩
  intro done c hdone
  rcases done with _ | ⟨c₁, _ | ⟨c₂, _ | ⟨c₃, done⟩⟩⟩
  · obtain rfl : c = .add ⟨1, .buy, 100, 18446744073709551615⟩ := by simpa using hdone
    exact hstep _ _ (by decide +kernel) fun _ _ => by decide +kernel
  · obtain ⟨rfl, rfl⟩ : c₁ = .add ⟨1, .buy, 100, 18446744073709551615⟩ ∧ c = .add ⟨2, .sell, 100, 1⟩ := by
      simpa using hdone
    exact hstep _ _ (by decide +kernel) fun _ _ => by decide +kernel
  · obtain ⟨rfl, rfl, rfl⟩ : c₁ = .add ⟨1, .buy, 100, 18446744073709551615⟩ ∧ c₂ = .add ⟨2, .sell, 100, 1⟩
        ∧ c = .add ⟨3, .buy, 100, 1⟩ := by simpa using hdone
    exact hstep _ _ (by decide +kernel) fun _ _ => by decide +kernel
  · simp at hdone

/-- Two bids at one price whose quantities add up to `2 ^ 64`: the second call wraps, and the level of both
    has a cached total of zero. -/
theorem cached_depth_wraps :
    ∃ b b' level orders,
      OrderBook.run .full [.add ⟨1, .buy, 100, 18446744073709551615⟩] = .ok (b, [.ok []])
        ∧ ¬b.ExecExact (.add ⟨2, .buy, 100, 1⟩)
        ∧ OrderBook.run .full [.add ⟨1, .buy, 100, 18446744073709551615⟩, .add ⟨2, .buy, 100, 1⟩]
            = .ok (b', [.ok [], .ok []])
        ∧ (b'.levels .buy)[(100 : Price)]? = some level ∧ level.totalQuantity = 0
        ∧ b'.levelOrders level = .ok orders ∧ depth orders = 2 ^ 64
        ∧ ¬b'.TotalsExact := by
  have hroom : OrderBook.NeverOverfull .full [.add ⟨1, .buy, 100, 18446744073709551615⟩] := by decide +kernel
  have hroom' : OrderBook.NeverOverfull .full
      [.add ⟨1, .buy, 100, 18446744073709551615⟩, .add ⟨2, .buy, 100, 1⟩] := by decide +kernel
  obtain ⟨b, hrun, hrep⟩ := run_represents hroom
  obtain ⟨b', hrun', -⟩ := run_represents hroom'
  have hshown : (OrderBook.run .full [.add ⟨1, .buy, 100, 18446744073709551615⟩, .add ⟨2, .buy, 100, 1⟩]
      >>= fun r => ((r.1.levels .buy)[(100 : Price)]?.elim (.ok none)) fun level =>
        r.1.levelOrders level >>= fun orders => .ok (some (level.totalQuantity, orders)))
      = .ok (some (0, [⟨1, .buy, 100, 18446744073709551615⟩, ⟨2, .buy, 100, 1⟩])) := by decide +kernel
  rw [hrun', Machine.ok_bind] at hshown
  dsimp only at hshown
  cases hlevel : (b'.levels .buy)[(100 : Price)]? with
  | none =>
      rw [hlevel] at hshown
      cases hshown
  | some level =>
      rw [hlevel, Option.elim_some] at hshown
      obtain ⟨orders, horders, hpair⟩ := Machine.bind_eq_ok.mp hshown
      obtain ⟨htotal, rfl⟩ := Prod.mk.inj (Option.some.inj (Except.ok.inj hpair))
      have hresults : (priorityRun [.add ⟨1, .buy, 100, 18446744073709551615⟩]).2 = [.ok []] := by decide +kernel
      have hresults' : (priorityRun [.add ⟨1, .buy, 100, 18446744073709551615⟩, .add ⟨2, .buy, 100, 1⟩]).2
          = [.ok [], .ok []] := by decide +kernel
      rw [hresults] at hrun
      rw [hresults'] at hrun'
      refine ⟨b, b', level, _, hrun, ?_, hrun', hlevel, htotal, horders, by decide +kernel, ?_⟩
      · have hfits : (priorityRun [.add ⟨1, .buy, 100, 18446744073709551615⟩]).1.DepthFits := by
          intro s price
          refine (depth_sublist List.filter_sublist).trans_lt ?_
          cases s <;> decide +kernel
        rw [hrep.execExact (priorityRun_valid _) hfits _ (by decide +kernel)]
        intro hc
        exact absurd (hc (by decide) (by decide +kernel)) (by decide +kernel)
      · intro hexact
        obtain ⟨orders', horders', hsum⟩ := hexact .buy 100 level hlevel
        rw [horders] at horders'
        cases horders'
        rw [htotal] at hsum
        exact absurd hsum (by decide +kernel)

end LimitOrderBook
