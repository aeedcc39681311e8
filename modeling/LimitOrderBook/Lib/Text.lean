import Mathlib.Data.List.DropRight
import Mathlib.Data.List.TakeWhile
import Mathlib.Data.UInt

/-!
# `Lib.Text` — ASCII case and surrounding white space

Upper and lower case of ASCII letters tell the same characters apart (`toUpper_inj_iff`), and raising a character
makes it neither lower case nor anything but a letter that it was. Trimming a list is dropping what a predicate holds
of from both ends; it commutes with a map that the predicate does not see (`trim_map`), and a trimmed list stays as
it is (`trim_trim`). Together they are what a normal form of trimming and raising needs.
-/

namespace Text

/-! ## ASCII case -/

section Case

variable {c d : Char}

theorem toNat_toUpper (c : Char) :
    c.toUpper.toNat = if 97 ≤ c.toNat ∧ c.toNat ≤ 122 then c.toNat - 32 else c.toNat := by
  have hletter : ('a'.val ≤ c.val ∧ c.val ≤ 'z'.val) ↔ 97 ≤ c.toNat ∧ c.toNat ≤ 122 := by
    rw [UInt32.le_iff_toNat_le, UInt32.le_iff_toNat_le]
    exact Iff.rfl
  unfold Char.toUpper
  by_cases h : 97 ≤ c.toNat ∧ c.toNat ≤ 122
  · rw [dif_pos (hletter.mpr h), if_pos h]
    -- adding the distance wraps, which subtracts it
    have hdistance : ('A'.val - 'a'.val).toNat = 2 ^ 32 - 32 := by decide
    have hval : c.val.toNat = c.toNat := rfl
    show (c.val + ('A'.val - 'a'.val)).toNat = c.toNat - 32
    rw [UInt32.toNat_add, hdistance]
    omega
  · rw [dif_neg (mt hletter.mp h), if_neg h]

theorem toNat_toLower (c : Char) :
    c.toLower.toNat = if 65 ≤ c.toNat ∧ c.toNat ≤ 90 then c.toNat + 32 else c.toNat := by
  have hletter : (c.val ≥ 'A'.val ∧ c.val ≤ 'Z'.val) ↔ 65 ≤ c.toNat ∧ c.toNat ≤ 90 := by
    rw [ge_iff_le, UInt32.le_iff_toNat_le, UInt32.le_iff_toNat_le]
    exact Iff.rfl
  unfold Char.toLower
  by_cases h : 65 ≤ c.toNat ∧ c.toNat ≤ 90
  · rw [dif_pos (hletter.mpr h), if_pos h]
    have hdistance : ('a'.val - 'A'.val).toNat = 32 := by decide
    have hval : c.val.toNat = c.toNat := rfl
    show (c.val + ('a'.val - 'A'.val)).toNat = c.toNat + 32
    rw [UInt32.toNat_add, hdistance]
    omega
  · rw [dif_neg (mt hletter.mp h), if_neg h]

/-- Characters that are one in upper case are one in lower case. -/
theorem toUpper_inj_iff : c.toUpper = d.toUpper ↔ c.toLower = d.toLower := by
  rw [← Char.toNat_inj, ← Char.toNat_inj, toNat_toUpper, toNat_toUpper, toNat_toLower, toNat_toLower]
  split_ifs <;> omega

/-- Raising twice is raising once. -/
theorem toUpper_toUpper (c : Char) : c.toUpper.toUpper = c.toUpper := by
  rw [← Char.toNat_inj, toNat_toUpper, toNat_toUpper]
  split_ifs <;> omega

theorem isLower_iff : c.isLower = true ↔ 97 ≤ c.toNat ∧ c.toNat ≤ 122 := by
  show (decide ('a'.val ≤ c.val) && decide (c.val ≤ 'z'.val)) = true ↔ _
  rw [Bool.and_eq_true, decide_eq_true_eq, decide_eq_true_eq, UInt32.le_iff_toNat_le, UInt32.le_iff_toNat_le]
  exact Iff.rfl

theorem isUpper_iff : c.isUpper = true ↔ 65 ≤ c.toNat ∧ c.toNat ≤ 90 := by
  show decide ('A'.val ≤ c.val ∧ c.val ≤ 'Z'.val) = true ↔ _
  rw [decide_eq_true_eq, UInt32.le_iff_toNat_le, UInt32.le_iff_toNat_le]
  exact Iff.rfl

theorem isAlphanum_eq (c : Char) : c.isAlphanum = (c.isUpper || c.isLower || c.isDigit) := rfl

/-- Upper case changes lower-case letters only. -/
theorem toUpper_eq_self (h : c.isLower = false) : c.toUpper = c := by
  rw [← Char.toNat_inj, toNat_toUpper, if_neg]
  rw [← isLower_iff, h]
  exact Bool.false_ne_true

/-- The upper case of a lower-case letter is an upper-case letter. -/
theorem isUpper_toUpper (h : c.isLower = true) : c.toUpper.isUpper = true := by
  have hlower := isLower_iff.mp h
  rw [isUpper_iff, toNat_toUpper, if_pos hlower]
  omega

/-- Nothing in upper case is a lower-case letter. -/
theorem isLower_toUpper (c : Char) : c.toUpper.isLower = false := by
  rw [← Bool.not_eq_true, isLower_iff, toNat_toUpper]
  split_ifs <;> omega

/-- Two texts are the same in upper case if they are the same in lower case. -/
theorem map_toUpper_inj_iff {s t : List Char} :
    s.map Char.toUpper = t.map Char.toUpper ↔ s.map Char.toLower = t.map Char.toLower := by
  induction s generalizing t with
  | nil => cases t <;> simp
  | cons c s ih =>
      cases t with
      | nil => simp
      | cons d t => rw [List.map_cons, List.map_cons, List.cons.injEq, toUpper_inj_iff, ih, List.map_cons,
          List.map_cons, List.cons.injEq]

end Case

/-! ## Trimming -/

section Trim

variable {α β : Type} {p : α → Bool} {l : List α}

/-- Drop what `p` holds of from both ends. -/
def trim (p : α → Bool) (l : List α) : List α := (l.dropWhile p).rdropWhile p

/-- A map that the predicate does not see goes through trimming. -/
theorem trim_map {q : β → Bool} {f : α → β} (h : ∀ a, q (f a) = p a) (l : List α) :
    trim q (l.map f) = (trim p l).map f := by
  have hcomp : q ∘ f = p := funext h
  unfold trim List.rdropWhile
  rw [List.dropWhile_map, hcomp, ← List.map_reverse, List.dropWhile_map, hcomp, List.map_reverse]

/-- What is trimmed does not begin with something to drop. -/
theorem dropWhile_trim (p : α → Bool) (l : List α) : (trim p l).dropWhile p = trim p l := by
  rw [List.dropWhile_eq_self_iff]
  intro hlength
  -- trimming at the end leaves the first item where it is
  have hinitial : trim p l <+: l.dropWhile p := List.rdropWhile_prefix p _
  have hhead : 0 < (l.dropWhile p).length := hlength.trans_le hinitial.length_le
  rw [hinitial.getElem hlength]
  exact List.dropWhile_get_zero_not p l hhead

/-- Trimming twice is trimming once. -/
theorem trim_trim (p : α → Bool) (l : List α) : trim p (trim p l) = trim p l := by
  show ((trim p l).dropWhile p).rdropWhile p = trim p l
  rw [dropWhile_trim]
  exact List.rdropWhile_idempotent p _

end Trim
end Text
