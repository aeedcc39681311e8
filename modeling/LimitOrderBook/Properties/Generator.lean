import Mathlib.Data.List.Sort
import LimitOrderBook.Properties.EventModes
import LimitOrderBook.Reference.Arrivals
import LimitOrderBook.Refinement.Run
import LimitOrderBook.Simulator.Generator

/-!
# `Properties.Generator` — what the synthetic workloads do

What the synthetic workloads of the generator do when they are run. Both are stated for any configuration that `Fits`:
the ids and prices stay within 64 bits, and there is something in every order.

* **Prices.** A level of the configuration is an offset from the base price, with no two levels at one price
  (`toNat_buyPrice`, `toNat_sellPrice`).
* **Two sides.** The two-sided workload keeps its buys at the base price or below and its sells above, so all its
  orders rest (`Fits.twoSided_uncrossed`, with `rested_run`). Buys whose offset exceeds the base price are at price 0;
  they do not cross either.
* **Crossing.** The crossing workload first rests its sells, spread over the levels in turn, and then sends buys that
  each take one of them: the cheapest level first, and within a level in the order in which they arrived
  (`sweepOrder`). An odd count leaves one buy, which rests. `Fits.crossing_run` puts the three parts together.

Runs of a workload never overfill the book, by their length.
-/

namespace LimitOrderBook

open OrderBook

namespace GeneratorConfig

/-- A workload of at most `2 ^ 32` orders whose ids and prices fit 64 bits, with something in every order and
    a tick to tell levels apart. -/
structure Fits (config : GeneratorConfig) : Prop where
  orderCount_le : config.orderCount ≤ 2 ^ 32
  quantity_ne : config.quantity ≠ 0
  tickSize_ne : config.tickSize ≠ 0
  ids_lt : config.startOrderId.toNat + config.orderCount < 2 ^ 64
  prices_lt : config.basePrice.toNat + config.levels * config.tickSize.toNat < 2 ^ 64

variable {config : GeneratorConfig} {i j : Nat}

theorem levels_pos (config : GeneratorConfig) : 0 < config.levels := Nat.le_max_right _ 1

namespace Fits

theorem toNat_orderId (h : config.Fits) (hi : i < config.orderCount) :
    (config.orderId i).toNat = config.startOrderId.toNat + i := by
  have hids := h.ids_lt
  unfold orderId
  rw [UInt64.toNat_add, UInt64.toNat_ofNat', Nat.mod_eq_of_lt (b := 2 ^ 64) (a := i) (by omega)]
  exact Nat.mod_eq_of_lt (by omega)

/-- Ids increase along the workload. -/
theorem orderId_lt (h : config.Fits) (hij : i < j) (hj : j < config.orderCount) :
    config.orderId i < config.orderId j := by
  rw [UInt64.lt_iff_toNat_lt, h.toNat_orderId hj, h.toNat_orderId (hij.trans hj)]
  omega

theorem tickSize_pos (h : config.Fits) : 0 < config.tickSize.toNat := toNat_pos h.tickSize_ne

theorem levels_mul_lt (h : config.Fits) : config.levels * config.tickSize.toNat < 2 ^ 64 :=
  (Nat.le_add_left _ _).trans_lt h.prices_lt

theorem levels_lt (h : config.Fits) : config.levels < 2 ^ 64 :=
  (Nat.le_mul_of_pos_right _ h.tickSize_pos).trans_lt h.levels_mul_lt

theorem toNat_offset (h : config.Fits) (i : Nat) :
    (config.offset i).toNat = (i % config.levels + 1) * config.tickSize.toNat := by
  have hlevel : i % config.levels + 1 ≤ config.levels := Nat.mod_lt i config.levels_pos
  have hlevels := h.levels_lt
  have hmul := (Nat.mul_le_mul_right config.tickSize.toNat hlevel).trans_lt h.levels_mul_lt
  have hword : (UInt64.ofNat (i % config.levels) + 1).toNat = i % config.levels + 1 := by
    have hone : (1 : UInt64).toNat = 1 := rfl
    rw [UInt64.toNat_add, hone, UInt64.toNat_ofNat',
      Nat.mod_eq_of_lt (b := 2 ^ 64) (a := i % config.levels) (by omega)]
    exact Nat.mod_eq_of_lt (by omega)
  unfold offset
  rw [UInt64.toNat_mul, hword]
  exact Nat.mod_eq_of_lt hmul

/-- No offset is zero. -/
theorem offset_pos (h : config.Fits) (i : Nat) : 0 < (config.offset i).toNat := by
  rw [h.toNat_offset]
  exact Nat.mul_pos (Nat.succ_pos _) h.tickSize_pos

/-- The last level has the greatest offset. -/
theorem offset_le (h : config.Fits) (i : Nat) :
    (config.offset i).toNat ≤ config.levels * config.tickSize.toNat := by
  rw [h.toNat_offset]
  exact Nat.mul_le_mul_right _ (Nat.mod_lt i config.levels_pos)

/-- The price of a sell. -/
theorem toNat_sellPrice (h : config.Fits) (i : Nat) :
    (config.basePrice + config.offset i).toNat
      = config.basePrice.toNat + (i % config.levels + 1) * config.tickSize.toNat := by
  have hle := h.offset_le i
  have hlt := h.prices_lt
  rw [toNat_add_of_lt (by omega), h.toNat_offset]

/-- The price of a crossing buy. -/
theorem toNat_buyPrice (h : config.Fits) (i : Nat) :
    (config.crossingBuy i).price.toNat
      = config.basePrice.toNat + config.levels * config.tickSize.toNat := by
  have hlt := h.prices_lt
  have hlevels := h.levels_lt
  have hmul : (UInt64.ofNat config.levels * config.tickSize).toNat
      = config.levels * config.tickSize.toNat := by
    rw [UInt64.toNat_mul, UInt64.toNat_ofNat', Nat.mod_eq_of_lt (b := 2 ^ 64) (a := config.levels) hlevels]
    exact Nat.mod_eq_of_lt h.levels_mul_lt
  show (config.basePrice + UInt64.ofNat config.levels * config.tickSize).toNat = _
  rw [toNat_add_of_lt (by rw [hmul]; exact hlt), hmul]

end Fits
end GeneratorConfig

/-! ## Runs of a workload -/

/-- A run of few commands never rests more orders than there are slots. -/
theorem neverOverfull_of_length {mode : EventMode} {cmds : List ScenarioCommand} (h : cmds.length ≤ 2 ^ 32) :
    OrderBook.NeverOverfull mode cmds := by
  rw [neverOverfull_iff_priority]
  intro done hdone
  have hlength : (priorityRun done).1.orders.length ≤ ({} : PriorityBook).orders.length + done.length :=
    PriorityBook.length_run {} done
  have hle := hdone.length_le
  have hempty : ({} : PriorityBook).orders.length = 0 := rfl
  omega

/-- A workload in which every call succeeds is a scenario that ends, in a book with the snapshot of the
    priority book. -/
theorem runScenario_of_priorityRun {cmds : List ScenarioCommand} (h : cmds.length ≤ 2 ^ 32)
    (hok : ∀ res ∈ (priorityRun cmds).2, res.isOk = true) :
    ∃ result snap, runScenario cmds = .ok (.ok result) ∧ result.trades = returnedTrades (priorityRun cmds).2
      ∧ result.book.restingOrderCount = (priorityRun cmds).1.orders.length
      ∧ result.book.snapshot = .ok snap ∧ Depicts snap (priorityRun cmds).1 := by
  have hnever : OrderBook.NeverOverfull .full cmds := neverOverfull_of_length h
  obtain ⟨b, hrun, hrep⟩ := run_represents hnever
  obtain ⟨snap, hsnap, -⟩ := hrep.snapshot_eq
  exact ⟨⟨b, _, b.events⟩, snap, runScenarioFrom_of_run hrun hok, List.nil_append _, hrep.restingOrderCount_eq,
    hsnap, hrep.depicts hsnap⟩

/-- Commands that rest return no trades. -/
theorem returnedTrades_rested (orders : List Order) :
    returnedTrades (orders.map fun _ => (.ok [] : CommandResult)) = [] := by
  induction orders with
  | nil => rfl
  | cons o orders ih => exact ih

/-! ## The two-sided workload -/

namespace GeneratorConfig

variable {config : GeneratorConfig}

/-- The orders of the two-sided workload. -/
def twoSided (config : GeneratorConfig) : List Order := (List.range config.orderCount).map config.twoSidedOrder

theorem generateTwoSidedOrders_eq (config : GeneratorConfig) :
    generateTwoSidedOrders config = config.twoSided.map .add := by
  unfold generateTwoSidedOrders twoSided
  rw [List.map_map]
  rfl

/-- At even positions there are buys. -/
theorem twoSidedOrder_even {i : Nat} (hi : i % 2 = 0) (config : GeneratorConfig) :
    config.twoSidedOrder i
      = Order.new (config.orderId i) .buy (saturatingSub config.basePrice (config.offset i)) config.quantity := by
  unfold twoSidedOrder
  rw [if_pos hi]

/-- At odd positions there are sells. -/
theorem twoSidedOrder_odd {i : Nat} (hi : ¬i % 2 = 0) (config : GeneratorConfig) :
    config.twoSidedOrder i
      = Order.new (config.orderId i) .sell (config.basePrice + config.offset i) config.quantity := by
  unfold twoSidedOrder
  rw [if_neg hi]

theorem twoSidedOrder_side (config : GeneratorConfig) (i : Nat) :
    (config.twoSidedOrder i).side = if i % 2 = 0 then .buy else .sell := rfl

theorem saturatingSub_le (x y : UInt64) : saturatingSub x y ≤ x := by
  unfold saturatingSub
  split
  next h =>
    rw [UInt64.le_iff_toNat_le, UInt64.toNat_sub_of_le _ _ h]
    exact Nat.sub_le _ _
  next => exact UInt64.zero_le

/-- Buys are at the base price or below, and sells above. -/
theorem Fits.twoSidedOrder_price (h : config.Fits) (i : Nat) :
    ((config.twoSidedOrder i).side = .buy → (config.twoSidedOrder i).price ≤ config.basePrice)
      ∧ ((config.twoSidedOrder i).side = .sell → config.basePrice < (config.twoSidedOrder i).price) := by
  by_cases hi : i % 2 = 0
  · rw [twoSidedOrder_even hi]
    exact ⟨fun _ => saturatingSub_le _ _, fun hside => by cases hside⟩
  · rw [twoSidedOrder_odd hi]
    refine ⟨fun hside => (by cases hside), fun _ => ?_⟩
    have hpos := h.offset_pos i
    have hle := h.offset_le i
    have hlt := h.prices_lt
    show config.basePrice < config.basePrice + config.offset i
    rw [UInt64.lt_iff_toNat_lt, toNat_add_of_lt (by omega)]
    omega

/-- The ids of the workload increase. -/
theorem Fits.twoSided_ids (h : config.Fits) : config.twoSided.Pairwise fun x y => x.id < y.id := by
  unfold twoSided
  rw [List.pairwise_map]
  refine List.pairwise_lt_range.imp_of_mem ?_
  intro i j _ hj hij
  exact h.orderId_lt hij (List.mem_range.mp hj)

/-- The two sides of the workload stay apart. -/
theorem Fits.twoSided_uncrossed (h : config.Fits) :
    ∀ x ∈ config.twoSided, ∀ y ∈ config.twoSided, y.side = x.side.opposite →
      ¬x.side.crosses x.price y.price := by
  intro x hx y hy hside
  obtain ⟨i, -, rfl⟩ := List.mem_map.mp hx
  obtain ⟨j, -, rfl⟩ := List.mem_map.mp hy
  obtain ⟨hibuy, hisell⟩ := h.twoSidedOrder_price i
  obtain ⟨hjbuy, hjsell⟩ := h.twoSidedOrder_price j
  cases hi : (config.twoSidedOrder i).side with
  | buy =>
      rw [hi] at hside
      have hlt := UInt64.lt_of_le_of_lt (hibuy hi) (hjsell hside)
      exact UInt64.not_le.mpr hlt
  | sell =>
      rw [hi] at hside
      have hlt := UInt64.lt_of_le_of_lt (hjbuy hside) (hisell hi)
      exact UInt64.not_le.mpr hlt

/-- Every other index is even. -/
theorem length_evens (n : Nat) :
    ((List.range n).filter fun i => i % 2 = 0).length = (n + 1) / 2
      ∧ ((List.range n).filter fun i => ¬i % 2 = 0).length = n / 2 := by
  induction n with
  | zero => exact ⟨rfl, rfl⟩
  | succ n ih =>
      obtain ⟨heven, hodd⟩ := ih
      rw [List.range_succ, List.filter_append, List.filter_append, List.length_append, List.length_append, heven,
        hodd]
      by_cases hn : n % 2 = 0
      · rw [List.filter_cons_of_pos (by simpa using hn), List.filter_cons_of_neg (by simpa using hn)]
        simp only [List.filter_nil, List.length_cons, List.length_nil]
        omega
      · rw [List.filter_cons_of_neg (by simpa using hn), List.filter_cons_of_pos (by simpa using hn)]
        simp only [List.filter_nil, List.length_cons, List.length_nil]
        omega

theorem length_twoSided (config : GeneratorConfig) :
    (config.twoSided.filter fun o => o.side = .buy).length = (config.orderCount + 1) / 2
      ∧ (config.twoSided.filter fun o => o.side = .sell).length = config.orderCount / 2 := by
  obtain ⟨heven, hodd⟩ := length_evens config.orderCount
  unfold twoSided
  rw [List.filter_map, List.filter_map, List.length_map, List.length_map]
  refine ⟨?_, ?_⟩
  · rw [← heven]
    congr 1
    refine List.filter_congr ?_
    intro i _
    by_cases hi : i % 2 = 0 <;> simp [twoSidedOrder_side, hi]
  · rw [← hodd]
    congr 1
    refine List.filter_congr ?_
    intro i _
    by_cases hi : i % 2 = 0 <;> simp [twoSidedOrder_side, hi]

end GeneratorConfig

/-- A level of a snapshot is a part of its side. -/
theorem sublist_orders {snap : BookSnapshot} {s : Side} {l : Price × List Order} (hl : l ∈ snap.levels s) :
    l.2.Sublist (snap.orders s) := by
  obtain ⟨front, back, hsplit⟩ := List.append_of_mem hl
  unfold BookSnapshot.orders
  rw [hsplit, List.flatMap_append, List.flatMap_cons]
  exact (List.sublist_append_left _ _).trans (List.sublist_append_right _ _)

/-- The queues of a side in priority order are in the order of their ids. -/
theorem Depicts.level_ids {snap : BookSnapshot} {p : PriorityBook} (h : Depicts snap p) {s : Side}
    (hprior : (p.side s).Pairwise s.prior) {l : Price × List Order} (hl : l ∈ snap.levels s) :
    l.2.Pairwise fun x y => x.id < y.id := by
  have hqueue : l.2.Pairwise s.prior := (h.orders_eq s ▸ hprior).sublist (sublist_orders hl)
  obtain ⟨L, hlevels, hsides⟩ := h
  rw [hlevels] at hl
  refine hqueue.imp_of_mem ?_
  intro x y hx hy hxy
  rcases hxy with hbetter | ⟨-, hid⟩
  · rw [(hsides s).1 l hl x hx, (hsides s).1 l hl y hy] at hbetter
    exact absurd hbetter (Std.Irrefl.irrefl (r := s.better) _)
  · exact hid

/-- **The two-sided workload never trades.** The scenario ends without a trade, in a snapshot with every order
    of the workload on its side, in full: half of them (rounded up) are buys, at the base price or below, and
    half (rounded down) are sells, above it; each queue is in the order of the ids. -/
theorem two_sided_never_trades (config : GeneratorConfig) (hfits : config.Fits) :
    ∃ result snap, runScenario (generateTwoSidedOrders config) = .ok (.ok result) ∧ result.trades = []
      ∧ result.book.snapshot = .ok snap
      ∧ (∀ s, (snap.orders s).Perm
          (((List.range config.orderCount).map config.twoSidedOrder).filter fun o => o.side = s))
      ∧ (snap.orders .buy).length = (config.orderCount + 1) / 2
      ∧ (snap.orders .sell).length = config.orderCount / 2
      ∧ (∀ o ∈ snap.orders .buy, o.price ≤ config.basePrice)
      ∧ (∀ o ∈ snap.orders .sell, config.basePrice < o.price)
      ∧ ∀ s, ∀ l ∈ snap.levels s, l.2.Pairwise fun x y => x.id < y.id := by
  have hpos : ∀ o ∈ config.twoSided, o.remainingQty ≠ 0 := by
    intro o ho
    obtain ⟨i, -, rfl⟩ := List.mem_map.mp ho
    exact hfits.quantity_ne
  obtain ⟨hresults, hrested⟩ := PriorityBook.rested_run hpos hfits.twoSided_ids hfits.twoSided_uncrossed
  rw [← config.generateTwoSidedOrders_eq] at hresults hrested
  have hok : ∀ res ∈ (priorityRun (generateTwoSidedOrders config)).2, res.isOk = true := by
    intro res hres
    rw [hresults] at hres
    obtain ⟨o, -, rfl⟩ := List.mem_map.mp hres
    rfl
  have hlength : (generateTwoSidedOrders config).length ≤ 2 ^ 32 := by
    unfold generateTwoSidedOrders
    rw [List.length_map, List.length_range]
    exact hfits.orderCount_le
  obtain ⟨result, snap, hscenario, htrades, -, hsnap, hdepicts⟩ := runScenario_of_priorityRun hlength hok
  rw [hresults, returnedTrades_rested] at htrades
  have hperm : ∀ s, (snap.orders s).Perm (config.twoSided.filter fun o => o.side = s) := by
    intro s
    rw [hdepicts.orders_eq]
    exact hrested.perm s
  obtain ⟨hbuys, hsells⟩ := config.length_twoSided
  refine ⟨result, snap, hscenario, htrades, hsnap, hperm, (hperm .buy).length_eq.trans hbuys,
    (hperm .sell).length_eq.trans hsells, ?_, ?_, fun s l hl => hdepicts.level_ids (hrested.prior s) hl⟩
  · intro o ho
    obtain ⟨hmem, hside⟩ := List.mem_filter.mp ((hperm .buy).subset ho)
    obtain ⟨i, -, rfl⟩ := List.mem_map.mp hmem
    exact (hfits.twoSidedOrder_price i).1 (of_decide_eq_true hside)
  · intro o ho
    obtain ⟨hmem, hside⟩ := List.mem_filter.mp ((hperm .sell).subset ho)
    obtain ⟨i, -, rfl⟩ := List.mem_map.mp hmem
    exact (hfits.twoSidedOrder_price i).2 (of_decide_eq_true hside)

/-- Five orders on two levels around a base price that is below the first level's distance. -/
theorem two_sided_never_trades_five :
    ∃ result snap, runScenario (generateTwoSidedOrders ⟨5, 1, 3, 2, 2, 7⟩) = .ok (.ok result)
      ∧ result.trades = [] ∧ result.book.snapshot = .ok snap ∧ (snap.orders .buy).length = 3 := by
  obtain ⟨result, snap, hscenario, htrades, hsnap, -, hbuys, -⟩ :=
    two_sided_never_trades ⟨5, 1, 3, 2, 2, 7⟩ ⟨by decide, by decide, by decide, by decide, by decide⟩
  exact ⟨result, snap, hscenario, htrades, hsnap, hbuys⟩

/-! ## The crossing workload -/

/-- `i` falls on an earlier level than `j`, the indices taking the levels in turn, or on the same one and is not
    larger. -/
def SweepsBefore (levels i j : Nat) : Prop := i % levels < j % levels ∨ i % levels = j % levels ∧ i ≤ j

instance (levels : Nat) : DecidableRel (SweepsBefore levels) := fun i j => by
  unfold SweepsBefore
  infer_instance

instance (levels : Nat) : Std.Total (SweepsBefore levels) where
  total i j := by
    unfold SweepsBefore
    omega

instance (levels : Nat) : IsTrans Nat (SweepsBefore levels) where
  trans i j k := by
    unfold SweepsBefore
    omega

/-- The indices below `count`, sorted by level and then by size. -/
def sweepOrder (levels count : Nat) : List Nat := (List.range count).insertionSort (SweepsBefore levels)

/-- Every sell is swept once. -/
theorem sweepOrder_perm (levels count : Nat) : (sweepOrder levels count).Perm (List.range count) :=
  List.perm_insertionSort _ _

/-- They are swept level by level, and by age within a level. -/
theorem sweepOrder_pairwise (levels count : Nat) :
    (sweepOrder levels count).Pairwise fun i j => i % levels < j % levels ∨ i % levels = j % levels ∧ i < j := by
  have hsorted : (sweepOrder levels count).Pairwise (SweepsBefore levels) := List.pairwise_insertionSort _ _
  have hnodup : (sweepOrder levels count).Pairwise (· ≠ ·) :=
    (sweepOrder_perm levels count).nodup_iff.mpr List.nodup_range
  refine (hsorted.and hnodup).imp ?_
  rintro i j ⟨hlevel | ⟨hlevel, hle⟩, hne⟩
  · exact Or.inl hlevel
  · exact Or.inr ⟨hlevel, Nat.lt_of_le_of_ne hle hne⟩

namespace GeneratorConfig

variable {config : GeneratorConfig}

/-- The sells of the crossing workload. -/
def crossingSells (config : GeneratorConfig) : List Order :=
  (List.range (config.orderCount / 2)).map config.crossingSell

/-- The buys of the crossing workload that find a sell. -/
def crossingBuys (config : GeneratorConfig) : List Order :=
  (List.range' (config.orderCount / 2) (config.orderCount / 2)).map config.crossingBuy

/-- The buy that an odd workload has left. -/
def crossingLast (config : GeneratorConfig) : List Order :=
  if config.orderCount % 2 = 0 then [] else [config.crossingBuy (config.orderCount - 1)]

/-- The crossing workload has three parts. -/
theorem generateCrossingOrders_eq (config : GeneratorConfig) :
    generateCrossingOrders config
      = config.crossingSells.map .add ++ (config.crossingBuys.map .add ++ config.crossingLast.map .add) := by
  have hlast : (List.range' (config.orderCount / 2 + config.orderCount / 2) (config.orderCount % 2)).map
      config.crossingBuy = config.crossingLast := by
    unfold crossingLast
    rcases Nat.mod_two_eq_zero_or_one config.orderCount with h | h
    · rw [h]
      rfl
    · have hindex : config.orderCount / 2 + config.orderCount / 2 = config.orderCount - 1 := by omega
      rw [h, hindex]
      rfl
  have hsplit : config.orderCount - config.orderCount / 2 = config.orderCount / 2 + config.orderCount % 2 := by
    omega
  unfold generateCrossingOrders crossingSells crossingBuys
  dsimp only
  rw [← hlast, hsplit, ← List.range'_append_1, List.map_append, List.map_map, List.map_map, List.map_map]
  rfl

theorem mem_crossingSells {o : Order} (ho : o ∈ config.crossingSells) :
    ∃ i < config.orderCount / 2, config.crossingSell i = o := by
  obtain ⟨i, hi, rfl⟩ := List.mem_map.mp ho
  exact ⟨i, List.mem_range.mp hi, rfl⟩

theorem mem_crossingBuys {o : Order} (ho : o ∈ config.crossingBuys) :
    ∃ i, config.orderCount / 2 ≤ i ∧ i < config.orderCount / 2 + config.orderCount / 2
      ∧ config.crossingBuy i = o := by
  obtain ⟨i, hi, rfl⟩ := List.mem_map.mp ho
  obtain ⟨hfirst, hlast⟩ := List.mem_range'_1.mp hi
  exact ⟨i, hfirst, hlast, rfl⟩

/-- After the first half the asks are the sells in sweep order, and there are no bids. -/
theorem Fits.sells_rest (h : config.Fits) :
    (priorityRun (config.crossingSells.map .add)).2 = config.crossingSells.map (fun _ => .ok [])
      ∧ (priorityRun (config.crossingSells.map .add)).1.side .sell
        = (sweepOrder config.levels (config.orderCount / 2)).map config.crossingSell
      ∧ (priorityRun (config.crossingSells.map .add)).1.side .buy = []
      ∧ ∀ id, id ∈ (priorityRun (config.crossingSells.map .add)).1.accepted
        ↔ ∃ o ∈ config.crossingSells, o.id = id := by
  have hsell : ∀ o ∈ config.crossingSells, o.side = .sell := by
    intro o ho
    obtain ⟨i, -, rfl⟩ := mem_crossingSells ho
    rfl
  have hpos : ∀ o ∈ config.crossingSells, o.remainingQty ≠ 0 := by
    intro o ho
    obtain ⟨i, -, rfl⟩ := mem_crossingSells ho
    exact h.quantity_ne
  have hids : config.crossingSells.Pairwise fun x y => x.id < y.id := by
    unfold crossingSells
    rw [List.pairwise_map]
    refine List.pairwise_lt_range.imp_of_mem ?_
    intro i j _ hj hij
    have hj := List.mem_range.mp hj
    exact h.orderId_lt hij (by omega)
  have huncrossed : ∀ x ∈ config.crossingSells, ∀ y ∈ config.crossingSells, y.side = x.side.opposite →
      ¬x.side.crosses x.price y.price := by
    intro x hx y hy hside
    rw [hsell x hx, hsell y hy] at hside
    cases hside
  obtain ⟨hresults, hrested⟩ := PriorityBook.rested_run hpos hids huncrossed
  refine ⟨hresults, ?_, ?_, hrested.accepted⟩
  · -- both lists have the sells, in priority order
    refine Side.eq_of_prior (hrested.prior .sell) ?_ ?_
    · rw [List.pairwise_map]
      refine (sweepOrder_pairwise config.levels (config.orderCount / 2)).imp_of_mem ?_
      intro i j _ hj hij
      have hj := List.mem_range.mp ((sweepOrder_perm _ _).mem_iff.mp hj)
      rcases hij with hlevel | ⟨hlevel, hij⟩
      · refine Or.inl ?_
        show config.basePrice + config.offset i < config.basePrice + config.offset j
        rw [UInt64.lt_iff_toNat_lt, h.toNat_sellPrice, h.toNat_sellPrice]
        exact Nat.add_lt_add_left (Nat.mul_lt_mul_of_pos_right (Nat.succ_lt_succ hlevel) h.tickSize_pos) _
      · refine Or.inr ⟨?_, h.orderId_lt hij (by omega)⟩
        show config.basePrice + config.offset i = config.basePrice + config.offset j
        unfold offset
        rw [hlevel]
    · have hall : config.crossingSells.filter (fun o => o.side = .sell) = config.crossingSells :=
        List.filter_eq_self.mpr fun o ho => decide_eq_true (hsell o ho)
      exact (hall ▸ hrested.perm .sell).trans ((sweepOrder_perm _ _).symm.map _)
  · have hnone : config.crossingSells.filter (fun o => o.side = .buy) = [] := by
      refine List.filter_eq_nil_iff.mpr ?_
      intro o ho
      rw [hsell o ho]
      decide
    exact List.Perm.eq_nil (hnone ▸ hrested.perm .buy)

/-- The buys of the second half take the sells in sweep order. -/
theorem Fits.buys_take (h : config.Fits) {p : PriorityBook}
    (hasks : p.side .sell = (sweepOrder config.levels (config.orderCount / 2)).map config.crossingSell)
    (haccepted : ∀ id, id ∈ p.accepted ↔ ∃ o ∈ config.crossingSells, o.id = id) :
    (Machine.run PriorityBook.exec p (config.crossingBuys.map .add)).2
        = List.zipWith (fun t m => .ok [fullTrade t m]) config.crossingBuys
          ((sweepOrder config.levels (config.orderCount / 2)).map config.crossingSell)
      ∧ (Machine.run PriorityBook.exec p (config.crossingBuys.map .add)).1.side .buy = p.side .buy
      ∧ (Machine.run PriorityBook.exec p (config.crossingBuys.map .add)).1.side .sell = []
      ∧ ∀ id, id ∈ (Machine.run PriorityBook.exec p (config.crossingBuys.map .add)).1.accepted
        ↔ id ∈ p.accepted ∨ ∃ t ∈ config.crossingBuys, t.id = id := by
  have hside : p.side Side.buy.opposite
      = (sweepOrder config.levels (config.orderCount / 2)).map config.crossingSell ++ [] := by
    rw [List.append_nil]
    exact hasks
  refine PriorityBook.run_takers h.quantity_ne hside ?_ ?_ ?_ ?_ ?_
  · unfold crossingBuys
    rw [List.length_map, List.length_map, List.length_range', (sweepOrder_perm _ _).length_eq,
      List.length_range]
  · intro t ht
    obtain ⟨k, hfirst, hlast, rfl⟩ := mem_crossingBuys ht
    refine ⟨rfl, rfl, ?_⟩
    rw [haccepted]
    rintro ⟨o, ho, hid⟩
    obtain ⟨i, hi, rfl⟩ := mem_crossingSells ho
    have hlt : config.orderId i < config.orderId k := h.orderId_lt (by omega) (by omega)
    exact absurd hid (UInt64.ne_of_lt hlt)
  · unfold crossingBuys
    rw [List.pairwise_map]
    refine (List.pairwise_lt_range' 1).imp_of_mem ?_
    intro i j _ hj hij
    obtain ⟨-, hj⟩ := List.mem_range'_1.mp hj
    exact h.orderId_lt hij (by omega)
  · intro m hm
    obtain ⟨i, -, rfl⟩ := List.mem_map.mp hm
    rfl
  · intro t ht m hm
    obtain ⟨k, -, -, rfl⟩ := mem_crossingBuys ht
    obtain ⟨i, -, rfl⟩ := List.mem_map.mp hm
    show config.basePrice + config.offset i ≤ (config.crossingBuy k).price
    rw [UInt64.le_iff_toNat_le, h.toNat_sellPrice, h.toNat_buyPrice, ← h.toNat_offset]
    exact Nat.add_le_add_left (h.offset_le i) _

/-- The buy that an odd workload has left rests. -/
theorem Fits.last_rests (h : config.Fits) {p : PriorityBook} (hbids : p.side .buy = []) (hasks : p.side .sell = [])
    (hnew : ∀ o ∈ config.crossingLast, o.id ∉ p.accepted) :
    (Machine.run PriorityBook.exec p (config.crossingLast.map .add)).2 = config.crossingLast.map (fun _ => .ok [])
      ∧ (Machine.run PriorityBook.exec p (config.crossingLast.map .add)).1.side .buy = config.crossingLast
      ∧ (Machine.run PriorityBook.exec p (config.crossingLast.map .add)).1.side .sell = [] := by
  unfold crossingLast at hnew ⊢
  by_cases heven : config.orderCount % 2 = 0
  · rw [if_pos heven]
    exact ⟨rfl, hbids, hasks⟩
  · rw [if_neg heven] at hnew ⊢
    have h0 : (config.crossingBuy (config.orderCount - 1)).remainingQty ≠ 0 := h.quantity_ne
    have hexec := PriorityBook.exec_add_new h0 (hnew _ (List.mem_singleton_self _))
    rw [PriorityBook.submit_uncrossed h0] at hexec
    · rw [List.map_singleton, List.map_singleton, Machine.run_cons, hexec]
      refine ⟨rfl, ?_, hasks⟩
      show (p.side .buy).orderedInsert _ _ = _
      rw [hbids]
      rfl
    · intro m hm
      have hm : m ∈ p.side .sell := hm
      rw [hasks] at hm
      cases hm

/-- The whole run of the crossing workload. -/
theorem Fits.crossing_run (h : config.Fits) :
    (priorityRun (generateCrossingOrders config)).2
        = config.crossingSells.map (fun _ => .ok [])
          ++ (List.zipWith (fun t m => .ok [fullTrade t m]) config.crossingBuys
              ((sweepOrder config.levels (config.orderCount / 2)).map config.crossingSell)
            ++ config.crossingLast.map (fun _ => .ok []))
      ∧ (priorityRun (generateCrossingOrders config)).1.side .buy = config.crossingLast
      ∧ (priorityRun (generateCrossingOrders config)).1.side .sell = [] := by
  obtain ⟨hsells, hasks, hbids, haccepted⟩ := h.sells_rest
  obtain ⟨hbuys, hbids', hasks', haccepted'⟩ := h.buys_take hasks haccepted
  rw [hbids] at hbids'
  rw [generateCrossingOrders_eq, priorityRun_append, Machine.run_append]
  dsimp only
  have hnew : ∀ o ∈ config.crossingLast, o.id ∉ (Machine.run PriorityBook.exec
      (priorityRun (config.crossingSells.map .add)).1 (config.crossingBuys.map .add)).1.accepted := by
    intro o ho hmem
    unfold crossingLast at ho
    split at ho
    · cases ho
    next hodd =>
      obtain rfl := List.mem_singleton.mp ho
      -- its index is larger than any before
      rcases (haccepted' _).mp hmem with hmem | ⟨t, ht, hid⟩
      · obtain ⟨o, ho, hid⟩ := (haccepted _).mp hmem
        obtain ⟨i, hi, rfl⟩ := mem_crossingSells ho
        exact absurd hid (UInt64.ne_of_lt (h.orderId_lt (by omega) (by omega)))
      · obtain ⟨i, -, hi, rfl⟩ := mem_crossingBuys ht
        exact absurd hid (UInt64.ne_of_lt (h.orderId_lt (by omega) (by omega)))
  obtain ⟨hlast, hbids'', hasks''⟩ := h.last_rests hbids' hasks' hnew
  rw [hsells, hbuys, hlast]
  exact ⟨rfl, hbids'', hasks''⟩

end GeneratorConfig

/-- Takers that return one trade each return their trades in order. -/
theorem returnedTrades_takers (takers makers : List Order) :
    returnedTrades (List.zipWith (fun t m => (.ok [fullTrade t m] : CommandResult)) takers makers)
      = List.zipWith fullTrade takers makers := by
  induction takers generalizing makers with
  | nil => rfl
  | cons t takers ih =>
      cases makers with
      | nil => rfl
      | cons m makers => exact congrArg _ (ih makers)

/-- **The crossing workload trades as advertised.** Half of the orders (rounded down) are sells; there is a
    trade for each of them, of the workload's quantity: the takers are the buys in turn, and the makers are the
    sells by level and then by index, each at its own price, `(index mod levels) + 1` ticks above the base
    price. Of an odd workload the last buy is left, in full, and of an even one nothing. -/
theorem crossing_trades_as_advertised (config : GeneratorConfig) (hfits : config.Fits) :
    ∃ result snap, runScenario (generateCrossingOrders config) = .ok (.ok result)
      ∧ result.trades.length = config.orderCount / 2
      ∧ result.trades = List.zipWith
          (fun buy sell => ⟨config.orderId sell, config.orderId buy, config.basePrice + config.offset sell,
            config.quantity⟩)
          (List.range' (config.orderCount / 2) (config.orderCount / 2))
          (sweepOrder config.levels (config.orderCount / 2))
      ∧ result.book.restingOrderCount = config.orderCount % 2
      ∧ result.book.snapshot = .ok snap ∧ snap.orders .sell = []
      ∧ snap.orders .buy
        = (if config.orderCount % 2 = 0 then [] else [config.crossingBuy (config.orderCount - 1)])
      ∧ (∀ i, (config.basePrice + config.offset i).toNat
          = config.basePrice.toNat + (i % config.levels + 1) * config.tickSize.toNat)
      ∧ ∀ i, (config.crossingBuy i).price.toNat
          = config.basePrice.toNat + config.levels * config.tickSize.toNat := by
  obtain ⟨hresults, hbids, hasks⟩ := hfits.crossing_run
  have hok : ∀ res ∈ (priorityRun (generateCrossingOrders config)).2, res.isOk = true := by
    intro res hres
    rw [hresults] at hres
    rcases List.mem_append.mp hres with hres | hres
    · obtain ⟨o, -, rfl⟩ := List.mem_map.mp hres
      rfl
    · rcases List.mem_append.mp hres with hres | hres
      · rw [← List.map_uncurry_zip_eq_zipWith] at hres
        obtain ⟨x, -, rfl⟩ := List.mem_map.mp hres
        rfl
      · obtain ⟨o, -, rfl⟩ := List.mem_map.mp hres
        rfl
  have hlength : (generateCrossingOrders config).length ≤ 2 ^ 32 := by
    unfold generateCrossingOrders
    dsimp only
    rw [List.length_append, List.length_map, List.length_map, List.length_range, List.length_range']
    have hcount := hfits.orderCount_le
    omega
  obtain ⟨result, snap, hscenario, htrades, hcount, hsnap, hdepicts⟩ := runScenario_of_priorityRun hlength hok
  have hsweep : (sweepOrder config.levels (config.orderCount / 2)).length = config.orderCount / 2 := by
    rw [(sweepOrder_perm _ _).length_eq, List.length_range]
  rw [hresults, returnedTrades_append, returnedTrades_append, returnedTrades_rested, returnedTrades_rested,
    returnedTrades_takers, List.nil_append, List.append_nil] at htrades
  unfold GeneratorConfig.crossingBuys at htrades
  rw [List.zipWith_map] at htrades
  refine ⟨result, snap, hscenario, ?_, htrades, ?_, hsnap, ?_, ?_, hfits.toNat_sellPrice, hfits.toNat_buyPrice⟩
  · rw [htrades, List.length_zipWith, List.length_range', hsweep, Nat.min_self]
  · rw [hcount, PriorityBook.length_orders _ .buy, hbids]
    show config.crossingLast.length + ((priorityRun (generateCrossingOrders config)).1.side .sell).length = _
    rw [hasks]
    unfold GeneratorConfig.crossingLast
    split
    next heven => exact heven.symm
    next hodd => exact (Nat.mod_two_ne_zero.mp hodd).symm
  · rw [hdepicts.orders_eq, hasks]
  · rw [hdepicts.orders_eq, hbids]
    rfl

/-- Seven orders on two levels: the sells at the nearer level go first, and the last buy is left. -/
theorem crossing_trades_as_advertised_seven :
    ∃ result snap, runScenario (generateCrossingOrders ⟨7, 1, 100, 1, 2, 5⟩) = .ok (.ok result)
      ∧ result.trades = [⟨1, 4, 101, 5⟩, ⟨3, 5, 101, 5⟩, ⟨2, 6, 102, 5⟩]
      ∧ result.book.snapshot = .ok snap ∧ snap.orders .buy = [⟨7, .buy, 102, 5⟩] := by
  obtain ⟨result, snap, hscenario, -, htrades, -, hsnap, -, hbuys, -⟩ :=
    crossing_trades_as_advertised ⟨7, 1, 100, 1, 2, 5⟩ ⟨by decide, by decide, by decide, by decide, by decide⟩
  refine ⟨result, snap, hscenario, ?_, hsnap, hbuys⟩
  rw [htrades]
  decide +kernel

end LimitOrderBook
