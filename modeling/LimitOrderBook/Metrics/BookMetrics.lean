import Mathlib.Data.Rat.Defs
import LimitOrderBook.Domain

/-!
# `Metrics.BookMetrics` — market data read off a snapshot (`src/metrics/book_metrics.rs`)

Analytics only: nothing in the book calls it. The mid price and the imbalance are the exact ratios that
the source rounds to `f64`; the sums of quantities wrap as they do in a release build.
-/

namespace LimitOrderBook

structure BookMetrics where
  bestBid : Option Price
  bestAsk : Option Price
  spread : Option Price
  midPrice : Option ℚ
  totalBidQuantity : Quantity
  totalAskQuantity : Quantity
  bidPriceLevels : Nat
  askPriceLevels : Nat
  imbalance : Option ℚ
deriving DecidableEq

/-- The quantity on one side of a snapshot. -/
def totalQuantity (levels : List (Price × List Order)) : Quantity :=
  ((levels.flatMap Prod.snd).map Order.remainingQty).sum

/-- Calculate market data metrics from a snapshot. -/
def calculateBookMetrics (snapshot : BookSnapshot) : BookMetrics :=
  let bestBid := snapshot.bids.head?.map Prod.fst
  let bestAsk := snapshot.asks.head?.map Prod.fst
  let spread :=
    match bestBid, bestAsk with
    | some bid, some ask => if bid ≤ ask then some (ask - bid) else none
    | _, _ => none
  let midPrice :=
    match bestBid, bestAsk with
    | some bid, some ask => some (((bid.toNat : ℚ) + (ask.toNat : ℚ)) / 2)
    | _, _ => none
  let totalBidQuantity := totalQuantity snapshot.bids
  let totalAskQuantity := totalQuantity snapshot.asks
  let total := totalBidQuantity + totalAskQuantity
  let imbalance :=
    if total = 0 then none else some ((totalBidQuantity.toNat : ℚ) / (total.toNat : ℚ))
  { bestBid := bestBid
    bestAsk := bestAsk
    spread := spread
    midPrice := midPrice
    totalBidQuantity := totalBidQuantity
    totalAskQuantity := totalAskQuantity
    bidPriceLevels := snapshot.bids.length
    askPriceLevels := snapshot.asks.length
    imbalance := imbalance }

/-- The spread is there when both sides are quoted and the ask is not below the bid. -/
theorem spread_eq_some {snapshot : BookSnapshot} {spread : Price} :
    (calculateBookMetrics snapshot).spread = some spread
      ↔ ∃ bid ask, snapshot.bids.head?.map Prod.fst = some bid
        ∧ snapshot.asks.head?.map Prod.fst = some ask ∧ bid ≤ ask ∧ spread = ask - bid := by
  unfold calculateBookMetrics
  dsimp only
  cases snapshot.bids.head?.map Prod.fst with
  | none => simp
  | some bid =>
      cases snapshot.asks.head?.map Prod.fst with
      | none => simp
      | some ask =>
          by_cases h : bid ≤ ask
          · simp [h, eq_comm]
          · simp [h]

end LimitOrderBook
