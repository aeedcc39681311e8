import Mathlib.Algebra.Order.Field.Rat
import Mathlib.Data.Set.Finite.Lemmas
import Mathlib.Tactic.Positivity
import LimitOrderBook.Reference.Depth
import LimitOrderBook.Refinement.Positive
import LimitOrderBook.Metrics.BookMetrics
import LimitOrderBook.Metrics.TradeMetrics
import LimitOrderBook.Properties.EventModes
import LimitOrderBook.Properties.Representation

/-!
# `Properties.Metrics` — when the metrics are exact

The totals of the book metrics and of the trade metrics are sums of machine words, and no command limits what they add
up to. This module says when they are exact.

They are exact as long as they fit; past that the last total can wrap to zero, and the metrics then say that nothing
is there (`book_metrics_wrap`, `trade_metrics_wrap`). While the totals fit, nothing else goes wrong: no order and no
trade is empty, so a total is zero only when there is nothing to add, and a price times a quantity fits 128 bits with
the sum of the quantities to spare (`tradedNotional_lt`).

* **The book.** `BookMetricsExact` compares the metrics of a snapshot with the orders that rest in a book, as the
  arena stores them. `bookMetricsExact_of_lt` is one direction; in the other a metric that is exact fits its word.
* **The trades.** `TradeMetricsExact` compares the metrics of a list of trades with sums of natural numbers, and the
  average price with the prices of the trades.

Both results are equivalences, for every run in which the arena does not overfill and for every list of trades.
-/

namespace LimitOrderBook

open OrderBook

/-! ## Book metrics -/

/-- The quantities of some orders, as words of 64 bits. -/
def quantityWords (orders : List Order) : List (BitVec 64) :=
  (orders.map Order.remainingQty).map UInt64.toBitVec

/-- The metrics of a snapshot say what rests in the book, as natural numbers and exact ratios. -/
structure BookMetricsExact (b : OrderBook) (snap : BookSnapshot) : Prop where
  bidsFit : WordSum.Exact 0 (quantityWords (snap.orders .buy))
  asksFit : WordSum.Exact 0 (quantityWords (snap.orders .sell))
  sidesFit : (calculateBookMetrics snap).totalBidQuantity.toNat
    + (calculateBookMetrics snap).totalAskQuantity.toNat < 2 ^ 64
  bidTotal : (calculateBookMetrics snap).totalBidQuantity.toNat = depth (b.restingOn .buy)
  askTotal : (calculateBookMetrics snap).totalAskQuantity.toNat = depth (b.restingOn .sell)
  imbalance_none : (calculateBookMetrics snap).imbalance = none
    ↔ b.restingOn .buy = [] ∧ b.restingOn .sell = []
  imbalance_some : ∀ ratio, (calculateBookMetrics snap).imbalance = some ratio →
    ratio = (depth (b.restingOn .buy) : ℚ)
        / ((depth (b.restingOn .buy) : ℚ) + depth (b.restingOn .sell))
      ∧ 0 ≤ ratio ∧ ratio ≤ 1
      ∧ (ratio = 0 → b.restingOn .buy = []) ∧ (ratio = 1 → b.restingOn .sell = [])

section Depth

variable {orders : List Order}

theorem map_toNat_remainingQty (orders : List Order) :
    ((orders.map Order.remainingQty).map UInt64.toNat).sum = depth orders := by
  rw [List.map_map]
  rfl

/-- The additions are exact when the depth fits. -/
theorem exact_quantityWords : WordSum.Exact 0 (quantityWords orders) ↔ depth orders < 2 ^ 64 := by
  unfold quantityWords
  rw [WordSum.exact_iff, map_toNat_toBitVec, map_toNat_remainingQty]

/-- A total that fits is the depth. -/
theorem totalQuantity_eq_depth {levels : List (Price × List Order)}
    (h : depth (levels.flatMap Prod.snd) < 2 ^ 64) :
    (totalQuantity levels).toNat = depth (levels.flatMap Prod.snd) := by
  rw [← map_toNat_remainingQty] at h ⊢
  exact toNat_sum_of_lt h

/-- Orders with something left have nothing in all only when there are none. -/
theorem depth_eq_zero (h : ∀ o ∈ orders, o.remainingQty ≠ 0) : depth orders = 0 ↔ orders = [] := by
  constructor
  · intro h0
    refine List.eq_nil_iff_forall_not_mem.mpr ?_
    intro o ho
    have hle := le_depth ho
    have hpos := toNat_pos (h o ho)
    omega
  · rintro rfl
    rfl

end Depth

/-- Of two amounts, the share of the first: from none of the whole to all of it. -/
theorem share_bounds {bid ask : Nat} (h : bid + ask ≠ 0) :
    (0 : ℚ) ≤ (bid : ℚ) / ((bid : ℚ) + ask) ∧ (bid : ℚ) / ((bid : ℚ) + ask) ≤ 1
      ∧ ((bid : ℚ) / ((bid : ℚ) + ask) = 0 → bid = 0)
      ∧ ((bid : ℚ) / ((bid : ℚ) + ask) = 1 → ask = 0) := by
  have hwhole : (0 : ℚ) < (bid : ℚ) + ask := by exact_mod_cast Nat.pos_of_ne_zero h
  refine ⟨by positivity, ?_, ?_, ?_⟩
  · rw [div_le_one hwhole]
    exact le_add_of_nonneg_right (Nat.cast_nonneg ask)
  · intro h0
    rw [div_eq_zero_iff] at h0
    exact_mod_cast h0.resolve_right hwhole.ne'
  · intro h1
    rw [div_eq_one_iff_eq hwhole.ne'] at h1
    have hask : (ask : ℚ) = 0 := left_eq_add.mp h1
    exact_mod_cast hask

/-- The imbalance is the share of the buys, if there is anything to share. -/
theorem imbalance_eq (snap : BookSnapshot) :
    (calculateBookMetrics snap).imbalance
      = if totalQuantity snap.bids + totalQuantity snap.asks = 0 then none
        else some (((totalQuantity snap.bids).toNat : ℚ)
          / ((totalQuantity snap.bids + totalQuantity snap.asks).toNat : ℚ)) := rfl

/-- The metrics of a snapshot that lists what rests, without empty orders, are exact when the quantities fit one
    total. -/
theorem bookMetricsExact_of_lt {b : OrderBook} {snap : BookSnapshot}
    (hrests : ∀ s, (b.restingOn s).Perm (snap.orders s))
    (hpos : ∀ s, ∀ o ∈ snap.orders s, o.remainingQty ≠ 0)
    (h : depth (b.restingOn .buy) + depth (b.restingOn .sell) < 2 ^ 64) : BookMetricsExact b snap := by
  have hnone : ∀ s, depth (b.restingOn s) = 0 ↔ b.restingOn s = [] := by
    intro s
    exact depth_eq_zero fun o ho => hpos s o ((hrests s).mem_iff.mp ho)
  have hlisted : ∀ s, depth (snap.orders s) = depth (b.restingOn s) := fun s => depth_perm (hrests s).symm
  have hbids : depth (snap.orders .buy) < 2 ^ 64 := by
    rw [hlisted]
    exact (Nat.le_add_right _ _).trans_lt h
  have hasks : depth (snap.orders .sell) < 2 ^ 64 := by
    rw [hlisted]
    exact (Nat.le_add_left _ _).trans_lt h
  have hbid : (totalQuantity snap.bids).toNat = depth (b.restingOn .buy) :=
    (totalQuantity_eq_depth hbids).trans (hlisted .buy)
  have hask : (totalQuantity snap.asks).toNat = depth (b.restingOn .sell) :=
    (totalQuantity_eq_depth hasks).trans (hlisted .sell)
  have htotal : (totalQuantity snap.bids + totalQuantity snap.asks).toNat
      = depth (b.restingOn .buy) + depth (b.restingOn .sell) := by
    rw [toNat_add_of_lt (by rwa [hbid, hask]), hbid, hask]
  have hzero : totalQuantity snap.bids + totalQuantity snap.asks = 0
      ↔ depth (b.restingOn .buy) + depth (b.restingOn .sell) = 0 := by
    rw [← htotal]
    exact UInt64.toNat_inj.symm
  refine ⟨exact_quantityWords.mpr hbids, exact_quantityWords.mpr hasks, ?_, hbid, hask, ?_, ?_⟩
  · show (totalQuantity snap.bids).toNat + (totalQuantity snap.asks).toNat < 2 ^ 64
    rwa [hbid, hask]
  · rw [imbalance_eq, ← hnone .buy, ← hnone .sell]
    by_cases h0 : totalQuantity snap.bids + totalQuantity snap.asks = 0
    · rw [if_pos h0]
      exact iff_of_true rfl (Nat.add_eq_zero_iff.mp (hzero.mp h0))
    · rw [if_neg h0]
      exact iff_of_false (Option.some_ne_none _) fun hnone => h0 (hzero.mpr (Nat.add_eq_zero_iff.mpr hnone))
  · intro ratio hratio
    rw [imbalance_eq] at hratio
    by_cases h0 : totalQuantity snap.bids + totalQuantity snap.asks = 0
    · rw [if_pos h0] at hratio
      cases hratio
    · rw [if_neg h0, htotal, hbid, Nat.cast_add] at hratio
      cases hratio
      obtain ⟨hlow, hhigh, hfirst, hall⟩ := share_bounds fun hsum => h0 (hzero.mpr hsum)
      refine ⟨rfl, hlow, hhigh, ?_, ?_⟩
      · exact fun h0 => (hnone .buy).mp (hfirst h0)
      · exact fun h1 => (hnone .sell).mp (hall h1)

/-- **When book metrics are exact.** A run that never rests more than `2 ^ 32` orders ends in a book with a
    snapshot. The orders that rest in it are as many as the book counts, and the metrics of the snapshot are
    exact for them if and only if what they have left, on both sides together, adds up to less than `2 ^ 64`. -/
theorem book_metrics_exact (mode : EventMode) (cmds : List ScenarioCommand)
    (hroom : OrderBook.NeverOverfull mode cmds) :
    ∃ b results snap, OrderBook.run mode cmds = .ok (b, results) ∧ b.snapshot = .ok snap
      ∧ b.restingOrderCount = (b.restingOn .buy).length + (b.restingOn .sell).length
      ∧ (BookMetricsExact b snap
        ↔ depth (b.restingOn .buy) + depth (b.restingOn .sell) < 2 ^ 64) := by
  obtain ⟨b, hrun, hrep⟩ := run_represents hroom
  obtain ⟨snap, hsnap, hsides⟩ := hrep.snapshot_eq
  have hpos := snapshot_positive (tryRun_positive OrderArena.positive_empty hrun) hsnap
  have hperm : ∀ s, (b.restingOn s).Perm ((priorityRun cmds).1.side s) :=
    hrep.perm_restingOn (priorityRun_valid cmds)
  have hrests : ∀ s, (b.restingOn s).Perm (snap.orders s) := by
    intro s
    rw [hsides]
    exact hperm s
  refine ⟨b, _, snap, hrun, hsnap, ?_, ?_, bookMetricsExact_of_lt hrests hpos⟩
  · rw [hrep.restingOrderCount_eq, (hperm .buy).length_eq, (hperm .sell).length_eq]
    exact List.length_append
  · intro hexact
    rw [← hexact.bidTotal, ← hexact.askTotal]
    exact hexact.sidesFit

/-- Half way through the session both sides rest, and the metrics are exact. -/
theorem book_metrics_exact_session :
    ∃ b results snap, OrderBook.run .full (session.take 4) = .ok (b, results) ∧ b.snapshot = .ok snap
      ∧ b.restingOn .buy ≠ [] ∧ b.restingOn .sell ≠ [] ∧ BookMetricsExact b snap := by
  obtain ⟨b, results, snap, hrun, hsnap, -, hexact⟩ := book_metrics_exact .full (session.take 4) (by decide +kernel)
  have hshown : (OrderBook.run .full (session.take 4)).map
      (fun r => (r.1.restingOn .buy, r.1.restingOn .sell))
      = .ok ([⟨1, .buy, 100, 10⟩], [⟨2, .sell, 105, 4⟩, ⟨3, .sell, 105, 5⟩, ⟨4, .sell, 107, 1⟩]) := by
    decide +kernel
  rw [hrun] at hshown
  obtain ⟨hbuy, hsell⟩ := Prod.mk.inj (Except.ok.inj hshown)
  refine ⟨b, results, snap, hrun, hsnap, ?_, ?_, hexact.mpr ?_⟩
  · rw [hbuy]
    exact List.cons_ne_nil _ _
  · rw [hsell]
    exact List.cons_ne_nil _ _
  · rw [hbuy, hsell]
    decide +kernel

/-- Two bids whose quantities add up to `2 ^ 64`: their total is zero, and the imbalance says that nothing
    rests. -/
theorem book_metrics_wrap :
    ∃ b snap, OrderBook.run .full [.add ⟨1, .buy, 100, 18446744073709551615⟩, .add ⟨2, .buy, 99, 1⟩]
        = .ok (b, [.ok [], .ok []])
      ∧ b.snapshot = .ok snap ∧ (b.restingOn .buy).length = 2 ∧ depth (b.restingOn .buy) = 2 ^ 64
      ∧ (calculateBookMetrics snap).totalBidQuantity = 0 ∧ (calculateBookMetrics snap).imbalance = none
      ∧ ¬BookMetricsExact b snap := by
  have hwrap : (do
      let (b, results) ← OrderBook.run .full
        [.add ⟨1, .buy, 100, 18446744073709551615⟩, .add ⟨2, .buy, 99, 1⟩]
      let snap ← b.snapshot
      pure (results, snap, b.restingOn .buy) : Except Fault (List CommandResult × BookSnapshot × List Order))
      = .ok ([.ok [], .ok []],
        ⟨[(100, [⟨1, .buy, 100, 18446744073709551615⟩]), (99, [⟨2, .buy, 99, 1⟩])], []⟩,
        [⟨1, .buy, 100, 18446744073709551615⟩, ⟨2, .buy, 99, 1⟩]) := by
    decide +kernel
  obtain ⟨⟨b, results⟩, hrun, hwrap⟩ := Machine.bind_eq_ok.mp hwrap
  obtain ⟨snap, hsnap, hwrap⟩ := Machine.bind_eq_ok.mp hwrap
  obtain ⟨rfl, hshown⟩ := Prod.mk.inj (Except.ok.inj hwrap)
  obtain ⟨rfl, hrests⟩ := Prod.mk.inj hshown
  have hnone : (calculateBookMetrics ⟨[(100, [⟨1, .buy, 100, 18446744073709551615⟩]),
      (99, [⟨2, .buy, 99, 1⟩])], []⟩).imbalance = none := by decide +kernel
  refine ⟨b, _, hrun, hsnap, by rw [hrests]; rfl, by rw [hrests]; decide +kernel, by decide +kernel, hnone, ?_⟩
  intro hexact
  have hempty := (hexact.imbalance_none.mp hnone).1
  rw [hrests] at hempty
  cases hempty

/-! ## Trade metrics -/

/-- The quantity that trades moved. -/
def tradedQuantity (trades : List Trade) : Nat := (trades.map fun t => t.quantity.toNat).sum

/-- The value that trades moved, each at its price. -/
def tradedNotional (trades : List Trade) : Nat := (trades.map fun t => t.price.toNat * t.quantity.toNat).sum

/-- The metrics of some trades say what they moved, as natural numbers and an exact quotient. -/
structure TradeMetricsExact (trades : List Trade) : Prop where
  quantityFits : WordSum.Exact 0 ((trades.map Trade.quantity).map UInt64.toBitVec)
  notionalFits : WordSum.Exact 0 (trades.map Trade.notional)
  totalQuantity : (calculateTradeMetrics trades).totalTradedQuantity.toNat = tradedQuantity trades
  totalNotional : (calculateTradeMetrics trades).totalNotional.toNat = tradedNotional trades
  vwap_none : (calculateTradeMetrics trades).vwap = none ↔ trades = []
  vwap_some : ∀ vwap, (calculateTradeMetrics trades).vwap = some vwap →
    vwap = (tradedNotional trades : ℚ) / tradedQuantity trades
      ∧ ∃ low ∈ trades, ∃ high ∈ trades, (∀ t ∈ trades, low.price ≤ t.price ∧ t.price ≤ high.price)
        ∧ (low.price.toNat : ℚ) ≤ vwap ∧ vwap ≤ (high.price.toNat : ℚ)

section Trades

variable {trades : List Trade}

theorem map_toNat_quantity (trades : List Trade) :
    ((trades.map Trade.quantity).map UInt64.toNat).sum = tradedQuantity trades := by
  rw [List.map_map]
  rfl

theorem map_toNat_notional (trades : List Trade) :
    ((trades.map Trade.notional).map BitVec.toNat).sum = tradedNotional trades := by
  rw [List.map_map]
  exact congrArg List.sum (List.map_congr_left fun t _ => t.toNat_notional)

theorem tradedQuantity_cons (t : Trade) (trades : List Trade) :
    tradedQuantity (t :: trades) = t.quantity.toNat + tradedQuantity trades := by
  simp [tradedQuantity]

theorem tradedNotional_cons (t : Trade) (trades : List Trade) :
    tradedNotional (t :: trades) = t.price.toNat * t.quantity.toNat + tradedNotional trades := by
  simp [tradedNotional]

/-- Trades that each moved something moved nothing in all only when there are none. -/
theorem tradedQuantity_eq_zero (h : ∀ t ∈ trades, t.quantity ≠ 0) :
    tradedQuantity trades = 0 ↔ trades = [] := by
  cases trades with
  | nil => exact iff_of_true rfl rfl
  | cons t trades =>
      have hpos := toNat_pos (h t List.mem_cons_self)
      refine iff_of_false ?_ (List.cons_ne_nil t trades)
      rw [tradedQuantity_cons]
      omega

/-- Trades at `low` or above moved at least the value that their quantity has at `low`. -/
theorem le_tradedNotional {low : Nat} (h : ∀ t ∈ trades, low ≤ t.price.toNat) :
    low * tradedQuantity trades ≤ tradedNotional trades := by
  induction trades with
  | nil => exact le_refl 0
  | cons t trades ih =>
      rw [tradedQuantity_cons, tradedNotional_cons, Nat.mul_add]
      exact Nat.add_le_add (Nat.mul_le_mul_right _ (h t List.mem_cons_self))
        (ih fun u hu => h u (List.mem_cons_of_mem _ hu))

/-- No more was paid than the highest price for everything. -/
theorem tradedNotional_le {high : Nat} (h : ∀ t ∈ trades, t.price.toNat ≤ high) :
    tradedNotional trades ≤ high * tradedQuantity trades := by
  induction trades with
  | nil => exact le_refl 0
  | cons t trades ih =>
      rw [tradedQuantity_cons, tradedNotional_cons, Nat.mul_add]
      exact Nat.add_le_add (Nat.mul_le_mul_right _ (h t List.mem_cons_self))
        (ih fun u hu => h u (List.mem_cons_of_mem _ hu))

/-- Some trade has the lowest price, and some trade the highest. -/
theorem exists_price_bounds (h : trades ≠ []) :
    ∃ low ∈ trades, ∃ high ∈ trades, ∀ t ∈ trades, low.price ≤ t.price ∧ t.price ≤ high.price := by
  have hfinite : {t | t ∈ trades}.Finite := List.finite_toSet trades
  have hsome : {t | t ∈ trades}.Nonempty := List.exists_mem_of_ne_nil trades h
  obtain ⟨low, hlow, hmin⟩ := Set.exists_min_image _ (fun t => t.price.toNat) hfinite hsome
  obtain ⟨high, hhigh, hmax⟩ := Set.exists_max_image _ (fun t => t.price.toNat) hfinite hsome
  exact ⟨low, hlow, high, hhigh, fun t ht => ⟨hmin t ht, hmax t ht⟩⟩

/-- The notional of trades whose quantity fits 64 bits fits 128 bits. -/
theorem tradedNotional_lt (h : tradedQuantity trades < 2 ^ 64) : tradedNotional trades < 2 ^ 128 := by
  calc
    tradedNotional trades ≤ (2 ^ 64 - 1) * tradedQuantity trades :=
      tradedNotional_le fun t _ => Nat.le_pred_of_lt t.price.toNat_lt
    _ ≤ (2 ^ 64 - 1) * (2 ^ 64 - 1) := Nat.mul_le_mul_left _ (Nat.le_pred_of_lt h)
    _ < 2 ^ 128 := by decide

/-- The average price is the notional over the quantity, if there is any. -/
theorem vwap_eq (trades : List Trade) :
    (calculateTradeMetrics trades).vwap
      = if (trades.map Trade.quantity).sum = 0 then none
        else some (((trades.map Trade.notional).sum.toNat : ℚ)
          / ((trades.map Trade.quantity).sum.toNat : ℚ)) := rfl

/-- Of trades that each moved something the metrics are exact when their quantities fit one total. -/
theorem tradeMetricsExact_of_lt (hpos : ∀ t ∈ trades, t.quantity ≠ 0) (h : tradedQuantity trades < 2 ^ 64) :
    TradeMetricsExact trades := by
  have hquantity : (trades.map Trade.quantity).sum.toNat = tradedQuantity trades := by
    rw [← map_toNat_quantity] at h ⊢
    exact toNat_sum_of_lt h
  have hnotional : (trades.map Trade.notional).sum.toNat = tradedNotional trades := by
    have hlt := tradedNotional_lt h
    rw [← map_toNat_notional] at hlt ⊢
    exact WordSum.toNat_sum_of_lt hlt
  have hzero : (trades.map Trade.quantity).sum = 0 ↔ trades = [] := by
    rw [← tradedQuantity_eq_zero hpos, ← hquantity]
    exact UInt64.toNat_inj.symm
  refine ⟨?_, ?_, hquantity, hnotional, ?_, ?_⟩
  · rw [WordSum.exact_iff, map_toNat_toBitVec, map_toNat_quantity]
    exact h
  · rw [WordSum.exact_iff, map_toNat_notional]
    exact tradedNotional_lt h
  · rw [vwap_eq, ← hzero]
    by_cases h0 : (trades.map Trade.quantity).sum = 0
    · rw [if_pos h0]
      exact iff_of_true rfl h0
    · rw [if_neg h0]
      exact iff_of_false (Option.some_ne_none _) h0
  · intro vwap hvwap
    rw [vwap_eq] at hvwap
    by_cases h0 : (trades.map Trade.quantity).sum = 0
    · rw [if_pos h0] at hvwap
      cases hvwap
    · rw [if_neg h0, hquantity, hnotional] at hvwap
      cases hvwap
      have hsome : trades ≠ [] := fun hnil => h0 (hzero.mpr hnil)
      have hmoved : (0 : ℚ) < tradedQuantity trades :=
        Nat.cast_pos.mpr (Nat.pos_of_ne_zero fun h0 => hsome ((tradedQuantity_eq_zero hpos).mp h0))
      obtain ⟨low, hlow, high, hhigh, hbounds⟩ := exists_price_bounds hsome
      refine ⟨rfl, low, hlow, high, hhigh, hbounds, ?_, ?_⟩
      · rw [le_div_iff₀ hmoved]
        exact_mod_cast le_tradedNotional fun t ht => (hbounds t ht).1
      · rw [div_le_iff₀ hmoved]
        exact_mod_cast tradedNotional_le fun t ht => (hbounds t ht).2

end Trades

/-- **When trade metrics are exact.** The metrics of the trades of a scenario that returns are exact if and
    only if the quantities of the trades add up to less than `2 ^ 64`. -/
theorem trade_metrics_exact (cmds : List ScenarioCommand) (result : ScenarioResult)
    (hscenario : runScenario cmds = .ok (.ok result)) :
    TradeMetricsExact result.trades ↔ tradedQuantity result.trades < 2 ^ 64 := by
  obtain ⟨results, hrun, htrades, -⟩ := runScenarioFrom_run hscenario
  obtain ⟨-, hpos⟩ := tryRun_positive OrderArena.positive_empty hrun
  rw [List.nil_append] at htrades
  rw [← htrades] at hpos
  constructor
  · intro hexact
    rw [← hexact.totalQuantity]
    exact UInt64.toNat_lt _
  · exact tradeMetricsExact_of_lt hpos

/-- A buy that takes a sell at 100 whole and a part of one at 102: three fifths of what it pays for is at 100. -/
theorem trade_metrics_exact_scenario :
    ∃ result, runScenario [.add ⟨1, .sell, 100, 3⟩, .add ⟨2, .sell, 102, 9⟩, .add ⟨3, .buy, 102, 5⟩]
        = .ok (.ok result)
      ∧ result.trades = [⟨1, 3, 100, 3⟩, ⟨2, 3, 102, 2⟩]
      ∧ (calculateTradeMetrics result.trades).vwap = some (504 / 5)
      ∧ TradeMetricsExact result.trades := by
  have htrades : (runScenario [.add ⟨1, .sell, 100, 3⟩, .add ⟨2, .sell, 102, 9⟩, .add ⟨3, .buy, 102, 5⟩]).map
      (fun res => res.map ScenarioResult.trades) = .ok (.ok [⟨1, 3, 100, 3⟩, ⟨2, 3, 102, 2⟩]) := by decide +kernel
  obtain ⟨result, hscenario, htrades⟩ := Machine.of_map_map_ok htrades
  refine ⟨result, hscenario, htrades, ?_, (trade_metrics_exact _ result hscenario).mpr ?_⟩
  · rw [htrades]
    decide +kernel
  · rw [htrades]
    decide +kernel

/-- Twice half of `2 ^ 64` changes hands: the total is zero, and there is no average price. -/
theorem trade_metrics_wrap :
    ∃ result, runScenario [.add ⟨1, .sell, 100, 9223372036854775808⟩, .add ⟨2, .buy, 100, 9223372036854775808⟩,
          .add ⟨3, .sell, 100, 9223372036854775808⟩, .add ⟨4, .buy, 100, 9223372036854775808⟩]
        = .ok (.ok result)
      ∧ result.trades = [⟨1, 2, 100, 9223372036854775808⟩, ⟨3, 4, 100, 9223372036854775808⟩]
      ∧ (calculateTradeMetrics result.trades).totalTradedQuantity = 0
      ∧ (calculateTradeMetrics result.trades).vwap = none
      ∧ ¬TradeMetricsExact result.trades := by
  have htrades : (runScenario [.add ⟨1, .sell, 100, 9223372036854775808⟩,
      .add ⟨2, .buy, 100, 9223372036854775808⟩, .add ⟨3, .sell, 100, 9223372036854775808⟩,
      .add ⟨4, .buy, 100, 9223372036854775808⟩]).map (fun res => res.map ScenarioResult.trades)
      = .ok (.ok [⟨1, 2, 100, 9223372036854775808⟩, ⟨3, 4, 100, 9223372036854775808⟩]) := by decide +kernel
  obtain ⟨result, hscenario, htrades⟩ := Machine.of_map_map_ok htrades
  have hnone : (calculateTradeMetrics result.trades).vwap = none := by
    rw [htrades]
    decide +kernel
  refine ⟨result, hscenario, htrades, ?_, hnone, ?_⟩
  · rw [htrades]
    decide +kernel
  · intro hexact
    have hnil := hexact.vwap_none.mp hnone
    rw [htrades] at hnil
    cases hnil

end LimitOrderBook
