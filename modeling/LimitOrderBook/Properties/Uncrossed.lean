import LimitOrderBook.Refinement.Run
import LimitOrderBook.Metrics.BookMetrics

/-!
# `Properties.Uncrossed` — the book is never crossed or locked

The book is never crossed or locked. No bid reaches an ask after any run (the last part of `Valid`), so the best bid
is below the best ask (`Valid.best_lt`), and the spread of a snapshot is there exactly when both sides are, and is at
least one (`one_le_sub`).
-/

namespace LimitOrderBook

namespace PriorityBook

variable {p : PriorityBook} {bid ask : Price}

/-- The first bid is below the first ask. -/
theorem Valid.best_lt (h : p.Valid) (hbid : (p.side .buy).head?.map Order.price = some bid)
    (hask : (p.side .sell).head?.map Order.price = some ask) : bid < ask := by
  obtain ⟨x, hx, hxbid⟩ := Option.map_eq_some_iff.mp hbid
  obtain ⟨y, hy, hyask⟩ := Option.map_eq_some_iff.mp hask
  have hcross : ¬Side.buy.crosses x.price y.price :=
    h.uncrossed .buy x (List.mem_of_mem_head? hx) y (List.mem_of_mem_head? hy)
  rw [hxbid, hyask] at hcross
  exact UInt64.not_le.mp hcross

/-- A side has a best price when it holds an order. -/
theorem isSome_best {s : Side} : ((p.side s).head?.map Order.price).isSome ↔ p.side s ≠ [] := by
  cases p.side s <;> simp

end PriorityBook

/-- A positive difference is at least one. -/
theorem one_le_sub {bid ask : Price} (h : bid < ask) : 1 ≤ ask - bid := by
  rw [UInt64.le_iff_toNat_le, UInt64.toNat_sub_of_le _ _ (UInt64.le_of_lt h)]
  rw [UInt64.lt_iff_toNat_lt] at h
  show 1 ≤ ask.toNat - bid.toNat
  omega

/-- **The book is never crossed or locked.** After every run the best bid is below the best ask; the
    spread of the snapshot is there exactly when both sides hold an order, and it is then the best ask
    less the best bid, at least one. -/
theorem never_crossed (mode : EventMode) (cmds : List ScenarioCommand)
    (hroom : OrderBook.NeverOverfull mode cmds) :
    ∃ b results snap, OrderBook.run mode cmds = .ok (b, results) ∧ b.snapshot = .ok snap
      ∧ (∀ bid ask, b.bestBid = some bid → b.bestAsk = some ask → bid < ask)
      ∧ ((calculateBookMetrics snap).spread.isSome ↔ snap.orders .buy ≠ [] ∧ snap.orders .sell ≠ [])
      ∧ ∀ spread, (calculateBookMetrics snap).spread = some spread →
          ∃ bid ask, b.bestBid = some bid ∧ b.bestAsk = some ask ∧ spread = ask - bid ∧ 1 ≤ spread := by
  obtain ⟨b, hrun, hrep⟩ := run_represents hroom
  obtain ⟨snap, hsnap, horders⟩ := hrep.snapshot_eq
  obtain ⟨hbid, hask⟩ := hrep.best_eq_first hsnap
  -- the best prices are those of the first orders, and no bid reaches an ask
  have hlt : ∀ bid ask, b.bestBid = some bid → b.bestAsk = some ask → bid < ask := by
    intro bid ask hb ha
    rw [hrep.bestBid_eq] at hb
    rw [hrep.bestAsk_eq] at ha
    exact (priorityRun_valid cmds).best_lt hb ha
  refine ⟨b, _, snap, hrun, hsnap, hlt, ?_, ?_⟩
  · rw [horders, horders, ← PriorityBook.isSome_best, ← PriorityBook.isSome_best, ← hrep.bestBid_eq,
      ← hrep.bestAsk_eq, Option.isSome_iff_exists, Option.isSome_iff_exists, Option.isSome_iff_exists]
    constructor
    · rintro ⟨spread, hspread⟩
      obtain ⟨bid, ask, hb, ha, -, -⟩ := spread_eq_some.mp hspread
      exact ⟨⟨bid, hbid.trans hb⟩, ⟨ask, hask.trans ha⟩⟩
    · rintro ⟨⟨bid, hb⟩, ⟨ask, ha⟩⟩
      refine ⟨ask - bid, spread_eq_some.mpr ⟨bid, ask, hbid.symm.trans hb, hask.symm.trans ha, ?_, rfl⟩⟩
      exact UInt64.le_of_lt (hlt bid ask hb ha)
  · intro spread hspread
    obtain ⟨bid, ask, hb, ha, -, rfl⟩ := spread_eq_some.mp hspread
    have hb := hbid.trans hb
    have ha := hask.trans ha
    exact ⟨bid, ask, hb, ha, rfl, one_le_sub (hlt bid ask hb ha)⟩

/-- Half way through the session both sides hold orders, five apart. -/
theorem never_crossed_session :
    ∃ b results snap, OrderBook.run .full (session.take 4) = .ok (b, results) ∧ b.snapshot = .ok snap
      ∧ (calculateBookMetrics snap).spread = some 5 := by
  have hfive : (do
      let (b, _) ← OrderBook.run .full (session.take 4)
      let snap ← b.snapshot
      pure (calculateBookMetrics snap).spread : Except Fault (Option Price)) = .ok (some 5) := by
    decide +kernel
  obtain ⟨b, results, snap, hrun, hsnap, -, -, -⟩ :=
    never_crossed .full (session.take 4) (by decide +kernel)
  rw [hrun, Machine.ok_bind] at hfive
  dsimp only at hfive
  rw [hsnap] at hfive
  exact ⟨b, results, snap, hrun, hsnap, Except.ok.inj hfive⟩

end LimitOrderBook
