import Mathlib.Data.Rat.Defs
import LimitOrderBook.Domain

/-!
# `Metrics.TradeMetrics` — a summary of trades (`src/metrics/trade_metrics.rs`)

The two totals wrap at 64 and at 128 bits, as they do in a release build. The volume-weighted average price
is the exact quotient of the totals, which the source rounds to `f64`.
-/

namespace LimitOrderBook

structure TradeMetrics where
  tradeCount : Nat
  totalTradedQuantity : Quantity
  totalNotional : BitVec 128
  lastTradePrice : Option Price
  vwap : Option ℚ
deriving DecidableEq

/-- A machine word as a `u128`. -/
def asU128 (x : UInt64) : BitVec 128 := x.toBitVec.setWidth 128

/-- Price times quantity, in `u128`. -/
def Trade.notional (t : Trade) : BitVec 128 := asU128 t.price * asU128 t.quantity

/-- Calculate execution metrics from generated trades. -/
def calculateTradeMetrics (trades : List Trade) : TradeMetrics :=
  let totalTradedQuantity := (trades.map Trade.quantity).sum
  let totalNotional := (trades.map Trade.notional).sum
  let vwap :=
    if totalTradedQuantity = 0 then none
    else some ((totalNotional.toNat : ℚ) / (totalTradedQuantity.toNat : ℚ))
  { tradeCount := trades.length
    totalTradedQuantity := totalTradedQuantity
    totalNotional := totalNotional
    lastTradePrice := trades.getLast?.map Trade.price
    vwap := vwap }

/-- A price times a quantity fits 128 bits. -/
theorem Trade.toNat_notional (t : Trade) : t.notional.toNat = t.price.toNat * t.quantity.toNat := by
  have hprice := t.price.toNat_lt
  have hquantity := t.quantity.toNat_lt
  have hwide : ∀ x : UInt64, (asU128 x).toNat = x.toNat := by
    intro x
    have hx := x.toNat_lt
    unfold asU128
    rw [BitVec.toNat_setWidth]
    exact Nat.mod_eq_of_lt (hx.trans (by decide))
  have hlt : t.price.toNat * t.quantity.toNat < 2 ^ 128 :=
    (Nat.mul_lt_mul'' hprice hquantity).trans_eq (by decide)
  unfold notional
  rw [BitVec.toNat_mul, hwide, hwide, Nat.mod_eq_of_lt hlt]

end LimitOrderBook
