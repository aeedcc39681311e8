import Mathlib.Algebra.Order.BigOperators.Group.List
import Mathlib.Algebra.Order.Group.Nat
import Mathlib.Data.Int.ModEq
import LimitOrderBook.Domain
import LimitOrderBook.Lib.WordSum

/-!
# `Reference.Depth` — sums of quantities

Quantities are machine words whose sums wrap. What a law says about a sum it says about the values: `depth` adds up
the quantities of a list of orders as natural numbers. The sum of the words is the depth modulo `2 ^ 64`
(`toNat_sum_modEq`), and is the depth when that fits (`toNat_sum_of_lt`).
-/

namespace LimitOrderBook

/-- The quantity that orders have left, as a natural number. -/
def depth (orders : List Order) : Nat := (orders.map fun o => o.remainingQty.toNat).sum

/-! ## Quantities and their values -/

section Quantities

variable {q r : Quantity}

theorem toNat_pos (h : q ≠ 0) : 0 < q.toNat := UInt64.lt_iff_toNat_lt.mp (UInt64.pos_iff_ne_zero.mpr h)

/-- A sum that fits is the sum of the values. -/
theorem toNat_add_of_lt (h : q.toNat + r.toNat < 2 ^ 64) : (q + r).toNat = q.toNat + r.toNat := by
  rw [UInt64.toNat_add, Nat.mod_eq_of_lt h]

theorem add_ne_zero (h : q.toNat + r.toNat < 2 ^ 64) (hr : r ≠ 0) : q + r ≠ 0 := by
  intro h0
  have hadd := toNat_add_of_lt h
  have hpos := toNat_pos hr
  rw [h0] at hadd
  have hzero : (0 : Quantity).toNat = 0 := rfl
  omega

theorem toBitVec_sum (qs : List Quantity) : qs.sum.toBitVec = (qs.map UInt64.toBitVec).sum := by
  induction qs with
  | nil => rfl
  | cons q qs ih => rw [List.sum_cons, List.map_cons, List.sum_cons, UInt64.toBitVec_add, ih]

theorem map_toNat_toBitVec (qs : List Quantity) :
    (qs.map UInt64.toBitVec).map BitVec.toNat = qs.map UInt64.toNat := by
  rw [List.map_map]
  rfl

/-- A sum of machine words is the sum of their values, modulo `2 ^ 64`. -/
theorem toNat_sum_modEq (qs : List Quantity) :
    qs.sum.toNat ≡ (qs.map UInt64.toNat).sum [MOD 2 ^ 64] := by
  have hsum := WordSum.toNat_sum_modEq (qs.map UInt64.toBitVec)
  rw [map_toNat_toBitVec, ← toBitVec_sum] at hsum
  exact hsum

/-- A sum of machine words that fits is the sum of their values. -/
theorem toNat_sum_of_lt {qs : List Quantity} (h : (qs.map UInt64.toNat).sum < 2 ^ 64) :
    qs.sum.toNat = (qs.map UInt64.toNat).sum :=
  Nat.ModEq.eq_of_lt_of_lt (toNat_sum_modEq qs) qs.sum.toNat_lt h

end Quantities

/-! ## The depth of a list of orders -/

section Depth

variable {xs ys : List Order} {o : Order}

theorem depth_cons (o : Order) (orders : List Order) :
    depth (o :: orders) = o.remainingQty.toNat + depth orders := by
  simp [depth]

/-- The order of the list does not matter. -/
theorem depth_perm (h : xs.Perm ys) : depth xs = depth ys := (h.map _).sum_nat

/-- Fewer orders have no more. -/
theorem depth_sublist (h : xs.Sublist ys) : depth xs ≤ depth ys :=
  (h.map _).sum_le_sum fun _ _ => Nat.zero_le _

/-- An order has no more than the list it is in. -/
theorem le_depth (h : o ∈ xs) : o.remainingQty.toNat ≤ depth xs := by
  have hone := depth_sublist (List.singleton_sublist.mpr h)
  rw [depth_cons] at hone
  omega

end Depth
end LimitOrderBook
