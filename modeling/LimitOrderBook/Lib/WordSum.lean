import Mathlib.Data.BitVec
import Mathlib.Data.Int.ModEq
import Mathlib.Tactic.Common

/-!
# `Lib.WordSum` — sums of machine words

A sum of words of `w` bits wraps at `2 ^ w`. `Exact` says that no addition of the sum wraps, added up one
word after the other; that is so exactly when the sum of the values is below `2 ^ w`, and then the sum is the
sum of the values.
-/

namespace WordSum

variable {w : Nat} {acc : BitVec w} {xs : List (BitVec w)}

/-- No addition wraps when the words are added to `acc`, one after the other. -/
def Exact : BitVec w → List (BitVec w) → Prop
  | _, [] => True
  | acc, x :: xs => acc.toNat + x.toNat < 2 ^ w ∧ Exact (acc + x) xs

instance decidableExact : (acc : BitVec w) → (xs : List (BitVec w)) → Decidable (Exact acc xs)
  | _, [] => .isTrue trivial
  | acc, x :: xs =>
      have := decidableExact (acc + x) xs
      inferInstanceAs (Decidable (acc.toNat + x.toNat < 2 ^ w ∧ Exact (acc + x) xs))

theorem exact_iff_add : Exact acc xs ↔ acc.toNat + (xs.map BitVec.toNat).sum < 2 ^ w := by
  induction xs generalizing acc with
  | nil => exact iff_of_true trivial acc.isLt
  | cons x xs ih =>
      unfold Exact
      rw [List.map_cons, List.sum_cons, ← Nat.add_assoc]
      constructor
      · rintro ⟨hlt, hrest⟩
        have hsum := ih.mp hrest
        rwa [BitVec.toNat_add, Nat.mod_eq_of_lt hlt] at hsum
      · intro hsum
        have hlt : acc.toNat + x.toNat < 2 ^ w := (Nat.le_add_right _ _).trans_lt hsum
        refine ⟨hlt, ih.mpr ?_⟩
        rwa [BitVec.toNat_add, Nat.mod_eq_of_lt hlt]

/-- **No addition of a sum wraps** exactly when the sum of the values fits. -/
theorem exact_iff : Exact 0 xs ↔ (xs.map BitVec.toNat).sum < 2 ^ w := by
  have h0 : (0 : BitVec w).toNat = 0 := Nat.zero_mod _
  rw [exact_iff_add, h0, Nat.zero_add]

theorem toNat_sum_modEq (xs : List (BitVec w)) : xs.sum.toNat ≡ (xs.map BitVec.toNat).sum [MOD 2 ^ w] := by
  induction xs with
  | nil => exact Nat.mod_modEq 0 _
  | cons x xs ih =>
      rw [List.sum_cons, List.map_cons, List.sum_cons, BitVec.toNat_add]
      exact (Nat.mod_modEq _ _).trans (ih.add_left _)

/-- A sum that fits is the sum of the values. -/
theorem toNat_sum_of_lt (h : (xs.map BitVec.toNat).sum < 2 ^ w) : xs.sum.toNat = (xs.map BitVec.toNat).sum :=
  Nat.ModEq.eq_of_lt_of_lt (toNat_sum_modEq xs) xs.sum.isLt h

end WordSum
