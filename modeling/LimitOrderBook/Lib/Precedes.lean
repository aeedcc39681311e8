import Mathlib.Data.List.Nodup

/-!
# `Lib.Precedes` — which of two items of a list comes first

`Precedes l x y` says that `x` stands somewhere ahead of `y` in `l`. It survives whatever a queue does
without moving its items: growing anywhere, dropping other items, and losing a front part.
-/

variable {α : Type} {l m : List α} {x y : α}

/-- `x` stands ahead of `y` in `l`. -/
def Precedes (l : List α) (x y : α) : Prop := [x, y].Sublist l

instance [DecidableEq α] (l : List α) (x y : α) : Decidable (Precedes l x y) :=
  inferInstanceAs (Decidable ([x, y].Sublist l))

namespace Precedes

theorem mem_left (h : Precedes l x y) : x ∈ l := h.subset List.mem_cons_self

theorem mem_right (h : Precedes l x y) : y ∈ l := h.subset (List.mem_cons_of_mem x List.mem_cons_self)

/-- Items may join anywhere. -/
theorem sublist (h : Precedes l x y) (hl : l.Sublist m) : Precedes m x y := h.trans hl

/-- Other items may leave. -/
theorem filter (h : Precedes l x y) {P : α → Bool} (hx : P x = true) (hy : P y = true) :
    Precedes (l.filter P) x y := by
  have hpair : [x, y].filter P = [x, y] := by simp [hx, hy]
  unfold Precedes
  rw [← hpair]
  exact List.Sublist.filter P h

theorem map {β : Type} (h : Precedes l x y) (f : α → β) : Precedes (l.map f) (f x) (f y) :=
  List.Sublist.map f h

/-- A front part may leave as long as the first of the two items stays. -/
theorem of_suffix (h : Precedes l x y) (hnd : l.Nodup) (hm : m <:+ l) (hx : x ∈ m) :
    Precedes m x y := by
  obtain ⟨front, rfl⟩ := hm
  obtain ⟨k₁, k₂, hpair, h₁, h₂⟩ := List.sublist_append_iff.mp h
  cases k₁ with
  | nil =>
      rw [List.nil_append] at hpair
      unfold Precedes
      rw [hpair]
      exact h₂
  | cons z k₁ =>
      -- then `x` would also be in the part that left
      obtain ⟨rfl, -⟩ := List.cons.inj hpair
      exact absurd hx (List.disjoint_of_nodup_append hnd (h₁.subset List.mem_cons_self))

/-- Whatever precedes an item is in front of it. -/
theorem mem_front {front back : List α} (h : Precedes (front ++ y :: back) x y)
    (hnd : (front ++ y :: back).Nodup) : x ∈ front := by
  by_contra hx
  rcases List.mem_append.mp h.mem_left with hfront | hback
  · exact hx hfront
  have htail : Precedes (y :: back) x y := h.of_suffix hnd (List.suffix_append _ _) hback
  have hnd' : (y :: back).Nodup := hnd.of_append_right
  cases htail with
  | cons _ hrest => exact (List.nodup_cons.mp hnd').1 (Precedes.mem_right hrest)
  | cons_cons _ hrest => exact (List.nodup_cons.mp hnd').1 (hrest.subset List.mem_cons_self)

end Precedes
