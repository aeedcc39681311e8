import Mathlib.Data.List.Sort
import Mathlib.Order.Defs.Unbundled

/-!
# `Lib.Ladder` — keyed FIFO queues in a strict order of keys

A `Ladder r α` is a list of levels, each a key with a queue of items, strictly sorted by `r` and with no
empty queue; both facts are fields, so a ladder out of order or with an empty level cannot be built.

A ladder is read in two ways. `queueAt` is the function from keys to queues: it determines the ladder
(`ext_queueAt`), and an operation on one queue is stated by it. `flat` is the list of all items, level after level:
when every item knows its key (`Keyed`) it determines the ladder as well (`Keyed.ext_flat`), and a law about priority
is stated by it. `Keyed.queueAt_eq_filter` leads from one view to the other.

The operations are given with what they do to both views. `setQueue` replaces a queue and drops the level of an empty
one; `push` appends an item to the queue of its key, which in the flat list is a stable insertion
(`Keyed.flat_push`); `filterMap`, `map` and `mapOn` go through all items; `sweep` works through the levels from the
best one until a level leaves something over.
-/

variable {κ α β : Type} {r : κ → κ → Prop}

/-- Levels sorted by key, best first, each with a queue that is not empty. -/
@[ext] structure Ladder (r : κ → κ → Prop) (α : Type) where
  levels : List (κ × List α)
  sorted : levels.Pairwise fun a b => r a.1 b.1
  filled : ∀ l ∈ levels, l.2 ≠ []

namespace Ladder

/-! ## Lists of levels -/

/-- The level of a key: none when the queue is empty. -/
def level (k : κ) (xs : List α) : List (κ × List α) := if xs.isEmpty then [] else [(k, xs)]

@[simp] theorem level_nil (k : κ) : level k ([] : List α) = [] := rfl

@[simp] theorem level_cons (k : κ) (x : α) (xs : List α) : level k (x :: xs) = [(k, x :: xs)] := rfl

theorem mem_level {k : κ} {xs : List α} {l : κ × List α} :
    l ∈ level k xs ↔ xs ≠ [] ∧ l = (k, xs) := by
  cases xs <;> simp

/-- The queue of a key in a list of levels, empty when the key is absent. -/
def lookup [DecidableEq κ] : List (κ × List α) → κ → List α
  | [], _ => []
  | (k', xs) :: rest, k => if k' = k then xs else lookup rest k

/-- Set the queue of a key in a sorted list of levels. -/
def put (r : κ → κ → Prop) [DecidableRel r] (k : κ) (xs : List α) :
    List (κ × List α) → List (κ × List α)
  | [] => level k xs
  | (k', ys) :: rest =>
      if r k k' then level k xs ++ (k', ys) :: rest
      else if r k' k then (k', ys) :: put r k xs rest
      else level k xs ++ rest

/-- Append an item at the back of the queue of a key, in the levels themselves. -/
def join (r : κ → κ → Prop) [DecidableRel r] [DecidableEq κ] (k : κ) (x : α) :
    List (κ × List α) → List (κ × List α)
  | [] => [(k, [x])]
  | (k', xs) :: rest =>
      if k' = k then (k', xs ++ [x]) :: rest
      else if r k k' then (k, [x]) :: (k', xs) :: rest
      else (k', xs) :: join r k x rest

/-- A level after joining is an old one, or the item is the last of it. -/
theorem mem_join [DecidableRel r] [DecidableEq κ] {k : κ} {x : α} {L : List (κ × List α)} {l : κ × List α}
    (h : l ∈ join r k x L) : l ∈ L ∨ l.1 = k ∧ l.2.getLast? = some x := by
  induction L with
  | nil =>
      obtain rfl := List.mem_singleton.mp h
      exact Or.inr ⟨rfl, rfl⟩
  | cons m rest ih =>
      obtain ⟨k', ys⟩ := m
      unfold join at h
      split at h
      · rcases List.mem_cons.mp h with rfl | h
        · rename_i hk
          exact Or.inr ⟨hk, List.getLast?_concat⟩
        · exact Or.inl (List.mem_cons_of_mem _ h)
      · split at h
        · rcases List.mem_cons.mp h with rfl | h
          · exact Or.inr ⟨rfl, rfl⟩
          · exact Or.inl h
        · rcases List.mem_cons.mp h with rfl | h
          · exact Or.inl List.mem_cons_self
          · exact (ih h).imp_left (List.mem_cons_of_mem _)

theorem mem_put [DecidableRel r] {k : κ} {xs : List α} {L : List (κ × List α)} {l : κ × List α}
    (h : l ∈ put r k xs L) : (xs ≠ [] ∧ l = (k, xs)) ∨ l ∈ L := by
  induction L with
  | nil => exact Or.inl (mem_level.mp h)
  | cons m rest ih =>
      obtain ⟨k', ys⟩ := m
      simp only [put] at h
      split at h
      · rcases List.mem_append.mp h with h | h
        · exact Or.inl (mem_level.mp h)
        · exact Or.inr h
      · split at h
        · rcases List.mem_cons.mp h with h | h
          · exact Or.inr (h ▸ List.mem_cons_self)
          · exact (ih h).imp id (List.mem_cons_of_mem _)
        · rcases List.mem_append.mp h with h | h
          · exact Or.inl (mem_level.mp h)
          · exact Or.inr (List.mem_cons_of_mem _ h)

/-- A level put before levels that its key precedes. -/
theorem sorted_level_append {k : κ} {xs : List α} {L : List (κ × List α)}
    (hL : L.Pairwise fun a b => r a.1 b.1) (hk : ∀ l ∈ L, r k l.1) :
    (level k xs ++ L).Pairwise fun a b => r a.1 b.1 := by
  cases xs with
  | nil => exact hL
  | cons x xs => exact List.pairwise_cons.mpr ⟨hk, hL⟩

theorem flatMap_level (k : κ) (xs : List α) : (level k xs).flatMap Prod.snd = xs := by
  cases xs <;> simp

theorem ne_of_rel [IsStrictTotalOrder κ r] {a b : κ} (h : r a b) : a ≠ b :=
  fun he => Std.Irrefl.irrefl (r := r) b (he ▸ h)

/-- A key without a level has an empty queue. -/
theorem lookup_eq_nil [DecidableEq κ] {k : κ} {L : List (κ × List α)} (h : ∀ l ∈ L, l.1 ≠ k) :
    lookup L k = [] := by
  induction L with
  | nil => rfl
  | cons m rest ih =>
      obtain ⟨k', ys⟩ := m
      have hne : k' ≠ k := h (k', ys) List.mem_cons_self
      simp [lookup, hne, ih fun l hl => h l (List.mem_cons_of_mem _ hl)]

theorem lookup_level_append [DecidableEq κ] {k j : κ} {xs : List α} {L : List (κ × List α)}
    (hL : ∀ l ∈ L, l.1 ≠ k) :
    lookup (level k xs ++ L) j = if j = k then xs else lookup L j := by
  by_cases hj : j = k
  · subst hj
    cases xs with
    | nil => simp [lookup_eq_nil hL]
    | cons x xs => simp [lookup]
  · have hj' : ¬k = j := fun h => hj h.symm
    cases xs <;> simp [lookup, hj, hj']

/-- The levels of a sorted list are the keys with their queues. -/
theorem mem_iff_lookup [IsStrictTotalOrder κ r] [DecidableEq κ] {L : List (κ × List α)}
    (hL : L.Pairwise fun a b => r a.1 b.1) (hf : ∀ l ∈ L, l.2 ≠ []) {k : κ} {xs : List α} :
    (k, xs) ∈ L ↔ xs ≠ [] ∧ lookup L k = xs := by
  induction L with
  | nil => simp [lookup, eq_comm]
  | cons m rest ih =>
      obtain ⟨k', ys⟩ := m
      obtain ⟨hhead, hrest⟩ := List.pairwise_cons.mp hL
      have hys : ys ≠ [] := hf (k', ys) List.mem_cons_self
      have ih := ih hrest fun l hl => hf l (List.mem_cons_of_mem _ hl)
      by_cases hk : k' = k
      · subst hk
        have hout : (k', xs) ∉ rest := fun hm => ne_of_rel (r := r) (hhead _ hm) rfl
        simp only [List.mem_cons, Prod.mk.injEq, true_and, hout, or_false, lookup, if_true]
        exact ⟨fun h => ⟨h.symm ▸ hys, h.symm⟩, fun h => h.2.symm⟩
      · simp [lookup, hk, ih, Ne.symm hk]

section Put

variable [DecidableRel r] [IsStrictTotalOrder κ r] {k : κ} {xs : List α} {L : List (κ × List α)}

/-- Putting a queue keeps the order of the keys. -/
theorem put_sorted (hL : L.Pairwise fun a b => r a.1 b.1) :
    (put r k xs L).Pairwise fun a b => r a.1 b.1 := by
  induction L with
  | nil =>
      have h : List.Pairwise (fun a b => r a.1 b.1) (level k xs ++ []) :=
        sorted_level_append List.Pairwise.nil (by simp)
      simpa [put] using h
  | cons m rest ih =>
      obtain ⟨k', ys⟩ := m
      obtain ⟨hhead, hrest⟩ := List.pairwise_cons.mp hL
      simp only [put]
      split
      next hk =>
        refine sorted_level_append hL fun l hl => ?_
        rcases List.mem_cons.mp hl with rfl | hl
        · exact hk
        · exact IsTrans.trans _ _ _ hk (hhead l hl)
      next hk =>
        split
        next hk' =>
          refine List.pairwise_cons.mpr ⟨fun l hl => ?_, ih hrest⟩
          rcases mem_put hl with ⟨-, rfl⟩ | hl
          · exact hk'
          · exact hhead l hl
        next hk' =>
          have heq : k = k' := Std.Trichotomous.trichotomous k k' hk hk'
          subst heq
          exact sorted_level_append hrest hhead

/-- The queue that is put is found at its key, and the others as before. -/
theorem lookup_put [DecidableEq κ] {j : κ} (hL : L.Pairwise fun a b => r a.1 b.1) :
    lookup (put r k xs L) j = if j = k then xs else lookup L j := by
  induction L with
  | nil =>
      have h : lookup (level k xs ++ []) j = if j = k then xs else [] :=
        lookup_level_append (by simp)
      simpa [put, lookup] using h
  | cons m rest ih =>
      obtain ⟨k', ys⟩ := m
      obtain ⟨hhead, hrest⟩ := List.pairwise_cons.mp hL
      simp only [put]
      split
      next hk =>
        refine lookup_level_append fun l hl => ?_
        rcases List.mem_cons.mp hl with rfl | hl
        · exact (ne_of_rel (r := r) hk).symm
        · exact (ne_of_rel (r := r) (IsTrans.trans _ _ _ hk (hhead l hl))).symm
      next hk =>
        split
        next hk' =>
          have hne : k' ≠ k := ne_of_rel (r := r) hk'
          simp only [lookup, ih hrest]
          by_cases hj : k' = j
          · have hjk : ¬j = k := fun h => hne (hj.trans h)
            simp [hj, hjk]
          · simp [hj]
        next hk' =>
          have heq : k = k' := Std.Trichotomous.trichotomous k k' hk hk'
          subst heq
          rw [lookup_level_append fun l hl => (ne_of_rel (r := r) (hhead l hl)).symm]
          by_cases hj : j = k
          · simp [hj]
          · have hj' : ¬k = j := fun h => hj h.symm
            simp [hj, hj', lookup]

end Put

/-! ## The two views of a ladder -/

/-- All items, best level first, in queue order. -/
def flat (L : Ladder r α) : List α := L.levels.flatMap Prod.snd

/-- The key of the best level. -/
def best (L : Ladder r α) : Option κ := L.levels.head?.map Prod.fst

def empty : Ladder r α := ⟨[], List.Pairwise.nil, by simp⟩

@[simp] theorem flat_empty : (empty : Ladder r α).flat = [] := rfl

/-- Every item knows the key of the level it is on. -/
def Keyed (key : α → κ) (L : Ladder r α) : Prop := ∀ l ∈ L.levels, ∀ x ∈ l.2, key x = l.1

section Views

variable [DecidableEq κ]

/-- The queue of a key. -/
def queueAt (L : Ladder r α) (k : κ) : List α := lookup L.levels k

variable [IsStrictTotalOrder κ r] {L M : Ladder r α} {key : α → κ} {k : κ} {x : α}

theorem mem_levels {xs : List α} : (k, xs) ∈ L.levels ↔ xs ≠ [] ∧ L.queueAt k = xs :=
  mem_iff_lookup L.sorted L.filled

omit [DecidableEq κ] in
/-- Sorted lists of levels with the same members are equal. -/
theorem levels_unique {A B : List (κ × List α)} (hA : A.Pairwise fun a b => r a.1 b.1)
    (hB : B.Pairwise fun a b => r a.1 b.1) (h : ∀ l, l ∈ A ↔ l ∈ B) : A = B := by
  have hnodup : ∀ {N : List (κ × List α)}, (N.Pairwise fun a b => r a.1 b.1) → N.Nodup :=
    fun hN => hN.imp fun hab he => ne_of_rel (r := r) hab (congrArg Prod.fst he)
  refine List.Perm.eq_of_pairwise (fun a b _ _ hab hba => ?_) hA hB
    ((List.perm_ext_iff_of_nodup (hnodup hA) (hnodup hB)).mpr h)
  exact absurd (IsTrans.trans _ _ _ hab hba) (Std.Irrefl.irrefl (r := r) _)

/-- A ladder is determined by its queues. -/
theorem ext_queueAt (h : ∀ k, L.queueAt k = M.queueAt k) : L = M := by
  apply Ladder.ext
  refine levels_unique L.sorted M.sorted fun l => ?_
  obtain ⟨k, xs⟩ := l
  rw [mem_levels, mem_levels, h]

theorem keyed_iff : L.Keyed key ↔ ∀ k, ∀ x ∈ L.queueAt k, key x = k := by
  constructor
  · intro h k x hx
    have hne : L.queueAt k ≠ [] := fun he => by simp [he] at hx
    exact h (k, L.queueAt k) (mem_levels.mpr ⟨hne, rfl⟩) x hx
  · intro h l hl x hx
    obtain ⟨k, xs⟩ := l
    exact h k x (by rw [(mem_levels.mp hl).2]; exact hx)

theorem mem_flat : x ∈ L.flat ↔ ∃ k, x ∈ L.queueAt k := by
  unfold flat
  rw [List.mem_flatMap]
  constructor
  · rintro ⟨⟨k, xs⟩, hl, hx⟩
    exact ⟨k, by rw [(mem_levels.mp hl).2]; exact hx⟩
  · rintro ⟨k, hx⟩
    have hne : L.queueAt k ≠ [] := fun he => by simp [he] at hx
    exact ⟨(k, L.queueAt k), mem_levels.mpr ⟨hne, rfl⟩, hx⟩

/-- The queue of a key is what the ladder's items with that key are, in order. -/
theorem Keyed.queueAt_eq_filter (hL : L.Keyed key) (k : κ) :
    L.queueAt k = L.flat.filter fun x => key x = k := by
  obtain ⟨levels, sorted, filled⟩ := L
  unfold queueAt flat
  unfold Keyed at hL
  dsimp only at hL ⊢
  clear filled
  induction levels with
  | nil => rfl
  | cons m rest ih =>
      obtain ⟨k', ys⟩ := m
      obtain ⟨hhead, hrest⟩ := List.pairwise_cons.mp sorted
      have hys : ∀ y ∈ ys, key y = k' := hL (k', ys) List.mem_cons_self
      have ih := ih hrest fun l hl => hL l (List.mem_cons_of_mem _ hl)
      rw [List.flatMap_cons, List.filter_append, ← ih]
      by_cases hk : k' = k
      · subst hk
        have hall : ys.filter (fun x => decide (key x = k')) = ys :=
          List.filter_eq_self.mpr fun y hy => by simp [hys y hy]
        have hnone : lookup rest k' = [] :=
          lookup_eq_nil fun l hl => (ne_of_rel (r := r) (hhead l hl)).symm
        simp [lookup, hall, hnone]
      · have hnone : ys.filter (fun x => decide (key x = k)) = [] :=
          List.filter_eq_nil_iff.mpr fun y hy => by simp [hys y hy, hk]
        simp [lookup, hk, hnone]

/-- A ladder whose items know their keys is determined by its items in order. -/
theorem Keyed.ext_flat (hL : L.Keyed key) (hM : M.Keyed key) (h : L.flat = M.flat) : L = M :=
  ext_queueAt fun k => by rw [hL.queueAt_eq_filter, hM.queueAt_eq_filter, h]

omit [DecidableEq κ] [IsStrictTotalOrder κ r] in
/-- The best key is the key of the first item. -/
theorem Keyed.best_eq (hL : L.Keyed key) : L.best = L.flat.head?.map key := by
  obtain ⟨levels, sorted, filled⟩ := L
  unfold Keyed at hL
  unfold best flat
  dsimp only at hL ⊢
  cases levels with
  | nil => rfl
  | cons m rest =>
      obtain ⟨k, xs⟩ := m
      obtain ⟨x, xs', rfl⟩ := List.exists_cons_of_ne_nil (filled (k, xs) List.mem_cons_self)
      have hx : key x = k := hL (k, x :: xs') List.mem_cons_self x List.mem_cons_self
      simp [hx]

end Views

/-! ## Stable insertion by key -/

section Insertion

variable [DecidableRel r] [IsStrictTotalOrder κ r] {key : α → κ} {l : List α} {x : α}

omit [IsStrictTotalOrder κ r] in
/-- An item that precedes every other comes first. -/
theorem orderedInsert_of_forall (h : ∀ y ∈ l, r (key x) (key y)) :
    l.orderedInsert (fun a b => r (key a) (key b)) x = x :: l := by
  cases l with
  | nil => rfl
  | cons y l => rw [List.orderedInsert_cons, if_pos (h y List.mem_cons_self)]

/-- Insertion keeps the order. -/
theorem sorted_orderedInsert (h : l.Pairwise fun a b => ¬r (key b) (key a)) (x : α) :
    (l.orderedInsert (fun a b => r (key a) (key b)) x).Pairwise fun a b => ¬r (key b) (key a) := by
  induction l with
  | nil => simp
  | cons y l ih =>
      obtain ⟨hhead, hl⟩ := List.pairwise_cons.mp h
      by_cases hxy : r (key x) (key y)
      · rw [List.orderedInsert_cons, if_pos hxy]
        refine List.pairwise_cons.mpr ⟨?_, h⟩
        intro z hz hzx
        have hzy : r (key z) (key y) := IsTrans.trans _ _ _ hzx hxy
        rcases List.mem_cons.mp hz with rfl | hz
        · exact Std.Irrefl.irrefl (r := r) _ hzy
        · exact hhead z hz hzy
      · rw [List.orderedInsert_cons, if_neg hxy]
        refine List.pairwise_cons.mpr ⟨?_, ih hl⟩
        intro z hz
        rcases (List.mem_orderedInsert _).mp hz with rfl | hz
        · exact hxy
        · exact hhead z hz

/-- An item that came after all others keeps the order by key, and among equal keys by arrival. -/
theorem arrival_orderedInsert {t : α → α → Prop}
    (h : l.Pairwise fun a b => r (key a) (key b) ∨ key a = key b ∧ t a b) (hlast : ∀ y ∈ l, t y x) :
    (l.orderedInsert (fun a b => r (key a) (key b)) x).Pairwise
      fun a b => r (key a) (key b) ∨ key a = key b ∧ t a b := by
  induction l with
  | nil => exact List.pairwise_singleton _ x
  | cons y l ih =>
      obtain ⟨hhead, hl⟩ := List.pairwise_cons.mp h
      by_cases hxy : r (key x) (key y)
      · rw [List.orderedInsert_cons, if_pos hxy]
        refine List.pairwise_cons.mpr ⟨?_, h⟩
        intro z hz
        rcases List.mem_cons.mp hz with rfl | hz
        · exact Or.inl hxy
        · rcases hhead z hz with hyz | ⟨hyz, -⟩
          · exact Or.inl (IsTrans.trans _ _ _ hxy hyz)
          · exact Or.inl (hyz ▸ hxy)
      · rw [List.orderedInsert_cons, if_neg hxy]
        refine List.pairwise_cons.mpr ⟨?_, ih hl fun z hz => hlast z (List.mem_cons_of_mem y hz)⟩
        intro z hz
        rcases (List.mem_orderedInsert _).mp hz with rfl | hz
        · by_cases hyz : r (key y) (key z)
          · exact Or.inl hyz
          · exact Or.inr ⟨Std.Trichotomous.trichotomous _ _ hyz hxy, hlast y List.mem_cons_self⟩
        · exact hhead z hz

/-- Inserting and then filtering is filtering and then inserting. -/
theorem filter_orderedInsert (P : α → Bool) (h : l.Pairwise fun a b => ¬r (key b) (key a)) (x : α) :
    (l.orderedInsert (fun a b => r (key a) (key b)) x).filter P
      = if P x then (l.filter P).orderedInsert (fun a b => r (key a) (key b)) x else l.filter P := by
  induction l with
  | nil => by_cases hx : P x <;> simp [hx]
  | cons y l ih =>
      obtain ⟨hhead, hl⟩ := List.pairwise_cons.mp h
      by_cases hxy : r (key x) (key y)
      · rw [List.orderedInsert_cons, if_pos hxy]
        have hall : ∀ z ∈ (y :: l).filter P, r (key x) (key z) := by
          intro z hz
          rcases List.mem_cons.mp (List.mem_of_mem_filter hz) with rfl | hz
          · exact hxy
          · by_cases hyz : r (key y) (key z)
            · exact IsTrans.trans _ _ _ hxy hyz
            · rw [← Std.Trichotomous.trichotomous (r := r) (key y) (key z) hyz (hhead z hz)]
              exact hxy
        rw [orderedInsert_of_forall hall, List.filter_cons]
      · rw [List.orderedInsert_cons, if_neg hxy, List.filter_cons, List.filter_cons, ih hl]
        by_cases hy : P y <;> by_cases hx : P x <;> simp [hy, hx, hxy]

/-- Items with two keys are inserted in either order. -/
theorem orderedInsert_comm {y : α} (hne : key x ≠ key y) (l : List α) :
    (l.orderedInsert (fun a b => r (key a) (key b)) x).orderedInsert (fun a b => r (key a) (key b)) y
      = (l.orderedInsert (fun a b => r (key a) (key b)) y).orderedInsert
          (fun a b => r (key a) (key b)) x := by
  wlog hxy : r (key x) (key y) generalizing x y with hswap
  · have hyx : r (key y) (key x) := by
      by_contra hyx
      exact hne (Std.Trichotomous.trichotomous (r := r) _ _ hxy hyx)
    exact (hswap hne.symm hyx).symm
  have hyx : ¬r (key y) (key x) := asymm hxy
  induction l with
  | nil => simp [hxy, hyx]
  | cons z l ih =>
      by_cases hyz : r (key y) (key z)
      · -- both go before `z`, and `x` before `y`
        have hxz : r (key x) (key z) := IsTrans.trans _ _ _ hxy hyz
        simp [hxz, hyz, hxy, hyx]
      · by_cases hxz : r (key x) (key z)
        · simp [hxz, hyz, hyx]
        · simp [hxz, hyz, ih]

end Insertion

/-! ## Operations -/

section Put

variable [DecidableRel r] [IsStrictTotalOrder κ r] [DecidableEq κ]

/-- Set the queue of a key; an empty queue takes the level away. -/
def setQueue (L : Ladder r α) (k : κ) (xs : List α) : Ladder r α where
  levels := put r k xs L.levels
  sorted := put_sorted L.sorted
  filled := fun l hl => (mem_put hl).elim (fun h => h.2 ▸ h.1) (L.filled l)

/-- Append an item at the back of a key's queue, opening the level when it is not there. -/
def push (L : Ladder r α) (k : κ) (x : α) : Ladder r α := L.setQueue k (L.queueAt k ++ [x])

variable {L : Ladder r α} {key : α → κ} {k j : κ} {x : α} {xs : List α}

/-- Setting a queue, read by keys. -/
theorem queueAt_setQueue : (L.setQueue k xs).queueAt j = if j = k then xs else L.queueAt j :=
  lookup_put L.sorted

/-- Pushing an item, read by keys. -/
theorem queueAt_push : (L.push k x).queueAt j = L.queueAt j ++ if j = k then [x] else [] := by
  rw [push, queueAt_setQueue]
  by_cases hj : j = k <;> simp [hj]

/-- An item pushed at its own key keeps the ladder keyed. -/
theorem Keyed.push (hL : L.Keyed key) (x : α) : (L.push (key x) x).Keyed key := by
  refine keyed_iff.mpr fun k y hy => ?_
  rw [queueAt_push, List.mem_append] at hy
  rcases hy with hy | hy
  · exact keyed_iff.mp hL k y hy
  · split at hy
    next hk => rw [List.mem_singleton.mp hy, hk]
    next => exact absurd hy (by simp)

/-- Appending an item changes one level, or opens it. -/
theorem levels_push : (L.push k x).levels = join r k x L.levels := by
  obtain ⟨levels, sorted, filled⟩ := L
  unfold push setQueue queueAt
  dsimp only
  clear filled
  induction levels with
  | nil => rfl
  | cons m rest ih =>
      obtain ⟨k', ys⟩ := m
      obtain ⟨hhead, hrest⟩ := List.pairwise_cons.mp sorted
      have ih := ih hrest
      by_cases hk : k' = k
      · subst hk
        have hirr : ¬r k' k' := Std.Irrefl.irrefl (r := r) k'
        have hne : ¬(ys ++ [x]).isEmpty = true := by simp
        simp only [put, lookup, join, if_true, hirr, if_false, level, hne]
        rfl
      · by_cases hlt : r k k'
        · -- the new level comes before this one, and the key is on no later one
          have hnone : lookup rest k = [] := lookup_eq_nil fun l hl =>
            (ne_of_rel (r := r) (IsTrans.trans _ _ _ hlt (hhead l hl))).symm
          simp [put, lookup, join, hk, hlt, hnone]
        · have hgt : r k' k := by
            by_contra hgt
            exact hk (Std.Trichotomous.trichotomous (r := r) k' k hgt hlt)
          simp only [put, lookup, join, hk, hlt, hgt, if_true, if_false]
          rw [ih]

/-- Setting a queue changes the number of items by what the queue changes by. -/
theorem length_flat_setQueue :
    (L.setQueue k xs).flat.length + (L.queueAt k).length = L.flat.length + xs.length := by
  obtain ⟨levels, sorted, filled⟩ := L
  unfold flat setQueue queueAt
  dsimp only
  clear filled
  induction levels with
  | nil => simp [put, lookup, flatMap_level]
  | cons m rest ih =>
      obtain ⟨k', ys⟩ := m
      obtain ⟨hhead, hrest⟩ := List.pairwise_cons.mp sorted
      by_cases hlt : r k k'
      · have hne : k' ≠ k := (ne_of_rel (r := r) hlt).symm
        have hnone : lookup rest k = [] := lookup_eq_nil fun l hl =>
          (ne_of_rel (r := r) (IsTrans.trans _ _ _ hlt (hhead l hl))).symm
        simp only [put, hlt, if_true, lookup, hne, if_false, hnone, List.flatMap_append, flatMap_level,
          List.flatMap_cons, List.length_append, List.length_nil]
        omega
      · by_cases hgt : r k' k
        · have hne : k' ≠ k := ne_of_rel (r := r) hgt
          have ih := ih hrest
          simp only [put, hlt, hgt, if_true, if_false, lookup, hne, List.flatMap_cons,
            List.length_append]
          omega
        · have heq : k = k' := Std.Trichotomous.trichotomous _ _ hlt hgt
          subst heq
          have hirr : ¬r k k := Std.Irrefl.irrefl (r := r) k
          simp only [put, hirr, if_true, if_false, lookup, List.flatMap_append, flatMap_level,
            List.flatMap_cons, List.length_append]
          omega

omit [DecidableEq κ] in
/-- Setting the queue of the best level leaves the other levels as they are. -/
theorem levels_setQueue_best {rest : List (κ × List α)} (h : L.levels = (k, xs) :: rest)
    (ys : List α) : (L.setQueue k ys).levels = level k ys ++ rest := by
  show put r k ys L.levels = _
  rw [h]
  simp [put, Std.Irrefl.irrefl (r := r) k]

omit [IsStrictTotalOrder κ r] [DecidableEq κ] in
/-- An item is inserted after every item its key does not precede. -/
theorem orderedInsert_append {zs : List α} {R : α → α → Prop} [DecidableRel R]
    (h : ∀ y ∈ xs, ¬R x y) : (xs ++ zs).orderedInsert R x = xs ++ zs.orderedInsert R x := by
  induction xs with
  | nil => rfl
  | cons y xs ih =>
      rw [List.cons_append, List.orderedInsert_cons, if_neg (h y List.mem_cons_self),
        ih fun z hz => h z (List.mem_cons_of_mem _ hz), List.cons_append]

/-- **Appending to a level is a stable insertion by key** into the items in order. -/
theorem Keyed.flat_push (hL : L.Keyed key) (x : α) :
    (L.push (key x) x).flat = L.flat.orderedInsert (fun a b => r (key a) (key b)) x := by
  obtain ⟨levels, sorted, filled⟩ := L
  unfold Keyed at hL
  simp only [flat, Ladder.push, setQueue, queueAt] at hL ⊢
  induction levels with
  | nil => simp [put, lookup]
  | cons m rest ih =>
      obtain ⟨k', ys⟩ := m
      obtain ⟨hhead, hrest⟩ := List.pairwise_cons.mp sorted
      have hys : ∀ y ∈ ys, key y = k' := hL (k', ys) List.mem_cons_self
      have hkeyed : ∀ l ∈ rest, ∀ y ∈ l.2, key y = l.1 := fun l hl => hL l (List.mem_cons_of_mem _ hl)
      have hfilled : ∀ l ∈ rest, l.2 ≠ [] := fun l hl => filled l (List.mem_cons_of_mem _ hl)
      have ih := ih hrest hfilled hkeyed
      by_cases hlt : r (key x) k'
      · -- the new level comes first, and so does the item
        have hne : k' ≠ key x := (ne_of_rel (r := r) hlt).symm
        have hnone : lookup rest (key x) = [] := lookup_eq_nil fun l hl =>
          (ne_of_rel (r := r) (IsTrans.trans _ _ _ hlt (hhead l hl))).symm
        obtain ⟨y, ys', rfl⟩ := List.exists_cons_of_ne_nil (filled (k', ys) List.mem_cons_self)
        simp [put, lookup, hlt, hne, hnone, hys y List.mem_cons_self]
      · by_cases hgt : r k' (key x)
        · -- the item goes further back
          have hne : k' ≠ key x := ne_of_rel (r := r) hgt
          have hskip : ∀ y ∈ ys, ¬r (key x) (key y) := fun y hy => by rw [hys y hy]; exact hlt
          simp only [put, lookup, hlt, hgt, hne, if_false, if_true, List.flatMap_cons, ih]
          rw [orderedInsert_append hskip]
        · -- the item joins this level, ahead of all later ones
          have heq : key x = k' := Std.Trichotomous.trichotomous _ _ hlt hgt
          have hskip : ∀ y ∈ ys, ¬r (key x) (key y) := fun y hy => by rw [hys y hy]; exact hlt
          have hstop : (rest.flatMap Prod.snd).orderedInsert (fun a b => r (key a) (key b)) x
              = x :: rest.flatMap Prod.snd := by
            apply orderedInsert_of_forall
            intro z hz
            obtain ⟨l, hl, hzl⟩ := List.mem_flatMap.mp hz
            rw [heq, hkeyed l hl z hzl]
            exact hhead l hl
          rw [List.flatMap_cons, orderedInsert_append hskip, hstop]
          have hirr : ¬r (key x) (key x) := Std.Irrefl.irrefl (r := r) _
          simp [put, lookup, heq.symm, hirr, level]

end Put

section FilterMap

/-- Keep, drop or rewrite every item in place; levels left empty go. -/
def filterMap (g : α → Option β) (L : Ladder r α) : Ladder r β where
  levels := L.levels.flatMap fun l => level l.1 (l.2.filterMap g)
  sorted := by
    refine List.pairwise_flatMap.mpr ⟨fun l _ => ?_, L.sorted.imp fun {a b} hab x hx y hy => ?_⟩
    · unfold level; split <;> simp
    · rw [(mem_level.mp hx).2, (mem_level.mp hy).2]; exact hab
  filled := fun l hl => by
    obtain ⟨m, -, hm⟩ := List.mem_flatMap.mp hl
    obtain ⟨hne, rfl⟩ := mem_level.mp hm
    exact hne

variable {L : Ladder r α} {g : α → Option β}

/-- The levels of the kept items, without those left empty. -/
theorem levels_filterMap :
    (L.filterMap g).levels = (L.levels.map fun l => (l.1, l.2.filterMap g)).filter fun l => l.2 ≠ [] := by
  unfold filterMap
  dsimp only
  induction L.levels with
  | nil => rfl
  | cons l levels ih =>
      rw [List.flatMap_cons, ih, List.map_cons, List.filter_cons]
      cases h : l.2.filterMap g with
      | nil => simp
      | cons y ys => simp

theorem flat_filterMap : (L.filterMap g).flat = L.flat.filterMap g := by
  unfold flat filterMap
  dsimp only
  rw [List.flatMap_assoc, List.filterMap_flatMap]
  exact List.flatMap_congr fun l _ => flatMap_level _ _

/-- Items that keep their keys stay on the levels of their keys. -/
theorem Keyed.filterMap {key : α → κ} {key' : β → κ} (hL : L.Keyed key)
    (hg : ∀ x y, g x = some y → key' y = key x) : (L.filterMap g).Keyed key' := by
  intro l hl y hy
  obtain ⟨m, hm, hlm⟩ := List.mem_flatMap.mp hl
  obtain ⟨-, rfl⟩ := mem_level.mp hlm
  obtain ⟨x, hx, hxy⟩ := List.mem_filterMap.mp hy
  rw [hg x y hxy, hL m hm x hx]

theorem queueAt_filterMap [DecidableEq κ] [IsStrictTotalOrder κ r] (k : κ) :
    (L.filterMap g).queueAt k = (L.queueAt k).filterMap g := by
  obtain ⟨levels, sorted, filled⟩ := L
  unfold queueAt filterMap
  dsimp only
  clear filled
  induction levels with
  | nil => rfl
  | cons m rest ih =>
      obtain ⟨k', ys⟩ := m
      obtain ⟨hhead, hrest⟩ := List.pairwise_cons.mp sorted
      have hfresh : ∀ l ∈ rest.flatMap fun l => level l.1 (l.2.filterMap g), l.1 ≠ k' := by
        intro l hl
        obtain ⟨m, hm, hlm⟩ := List.mem_flatMap.mp hl
        rw [(mem_level.mp hlm).2]
        exact (ne_of_rel (r := r) (hhead m hm)).symm
      rw [List.flatMap_cons, lookup_level_append hfresh, ih hrest]
      by_cases hk : k = k'
      · simp [hk, lookup]
      · simp [hk, Ne.symm hk, lookup]

end FilterMap

section Map

variable {κ' : Type} {r' : κ' → κ' → Prop} {k : κ → κ'} {L : Ladder r α}

/-- Rename the keys and rewrite the items, each where it is. -/
def map (k : κ → κ') (hk : ∀ a b, r a b → r' (k a) (k b)) (g : α → β) (L : Ladder r α) : Ladder r' β where
  levels := L.levels.map fun l => (k l.1, l.2.map g)
  sorted := List.pairwise_map.mpr (L.sorted.imp fun {a b} h => hk a.1 b.1 h)
  filled := fun l hl => by
    obtain ⟨m, hm, rfl⟩ := List.mem_map.mp hl
    exact fun he => L.filled m hm (List.map_eq_nil_iff.mp he)

theorem flat_map {hk : ∀ a b, r a b → r' (k a) (k b)} {g : α → β} : (L.map k hk g).flat = L.flat.map g := by
  unfold flat map
  rw [List.flatMap_map, List.map_flatMap]

theorem Keyed.map {key : α → κ} {key' : β → κ'} {g : α → β} (hL : L.Keyed key)
    (hk : ∀ a b, r a b → r' (k a) (k b)) (hg : ∀ x, key' (g x) = k (key x)) :
    (L.map k hk g).Keyed key' := by
  intro l hl y hy
  obtain ⟨m, hm, rfl⟩ := List.mem_map.mp hl
  obtain ⟨x, hx, rfl⟩ := List.mem_map.mp hy
  rw [hg, hL m hm x hx]

/-- Rename the keys where the renaming need only keep the order of the keys that are there. -/
def mapOn (k : κ → κ') (g : α → β) (L : Ladder r α)
    (hk : ∀ a ∈ L.levels, ∀ b ∈ L.levels, r a.1 b.1 → r' (k a.1) (k b.1)) : Ladder r' β where
  levels := L.levels.map fun l => (k l.1, l.2.map g)
  sorted := List.pairwise_map.mpr (L.sorted.imp_of_mem fun {a b} ha hb h => hk a ha b hb h)
  filled := fun l hl => by
    obtain ⟨m, hm, rfl⟩ := List.mem_map.mp hl
    exact fun he => L.filled m hm (List.map_eq_nil_iff.mp he)

section MapOn

variable {g : α → β} {hk : ∀ a ∈ L.levels, ∀ b ∈ L.levels, r a.1 b.1 → r' (k a.1) (k b.1)}

theorem flat_mapOn : (L.mapOn k g hk).flat = L.flat.map g := by
  unfold flat mapOn
  rw [List.flatMap_map, List.map_flatMap]

theorem Keyed.mapOn {key : α → κ} {key' : β → κ'} (hL : L.Keyed key) (hg : ∀ x, key' (g x) = k (key x)) :
    (L.mapOn k g hk).Keyed key' := by
  intro l hl y hy
  obtain ⟨m, hm, rfl⟩ := List.mem_map.mp hl
  obtain ⟨x, hx, rfl⟩ := List.mem_map.mp hy
  rw [hg, hL m hm x hx]

end MapOn

/-- The key of a level is the key of some item. -/
theorem Keyed.exists_key {key : α → κ} (hL : L.Keyed key) {l : κ × List α} (hl : l ∈ L.levels) :
    ∃ x ∈ L.flat, key x = l.1 := by
  obtain ⟨x, hx⟩ := List.exists_mem_of_ne_nil l.2 (L.filled l hl)
  exact ⟨x, List.mem_flatMap.mpr ⟨l, hl, hx⟩, hL l hl x hx⟩

end Map

section Sweep

variable {S τ : Type}

/-- Consume levels from the best one on: `f` works on the queue of a level, and only a level it empties
    gives way to the next. The sweep ends at a level that `go` does not accept. -/
def sweepLevels (go : κ → S → Bool) (f : κ → List α → S → List α × S × List τ) :
    List (κ × List α) → S → List (κ × List α) × S × List τ
  | [], s => ([], s, [])
  | (k, xs) :: rest, s =>
      if go k s then
        let (ys, s', ts) := f k xs s
        if ys.isEmpty then
          let (rest', s'', ts') := sweepLevels go f rest s'
          (rest', s'', ts ++ ts')
        else ((k, ys) :: rest, s', ts)
      else ((k, xs) :: rest, s, [])

variable {go : κ → S → Bool} {f : κ → List α → S → List α × S × List τ}

/-- The keys left by a sweep are the last ones of the keys it started from. -/
theorem keys_sweepLevels (L : List (κ × List α)) (s : S) :
    (sweepLevels go f L s).1.map Prod.fst <:+ L.map Prod.fst := by
  induction L generalizing s with
  | nil => simp [sweepLevels]
  | cons m rest ih =>
      obtain ⟨k, xs⟩ := m
      simp only [sweepLevels]
      split
      · split
        · exact (ih _).trans (List.suffix_cons _ _)
        · exact List.suffix_rfl
      · exact List.suffix_rfl

theorem filled_sweepLevels {L : List (κ × List α)} (hL : ∀ l ∈ L, l.2 ≠ []) (s : S) :
    ∀ l ∈ (sweepLevels go f L s).1, l.2 ≠ [] := by
  induction L generalizing s with
  | nil => simp [sweepLevels]
  | cons m rest ih =>
      obtain ⟨k, xs⟩ := m
      have hrest : ∀ l ∈ rest, l.2 ≠ [] := fun l hl => hL l (List.mem_cons_of_mem _ hl)
      simp only [sweepLevels]
      split
      · split
        · exact ih hrest _
        next hne =>
          intro l hl
          rcases List.mem_cons.mp hl with rfl | hl
          · exact fun he => hne (List.isEmpty_iff.mpr he)
          · exact hrest l hl
      · exact hL

/-- What the consumer keeps true of every level, a sweep keeps true of every level. -/
theorem forall_sweepLevels {P : κ → List α → Prop} (hf : ∀ k xs s, P k xs → P k (f k xs s).1)
    {L : List (κ × List α)} (hL : ∀ l ∈ L, P l.1 l.2) (s : S) :
    ∀ l ∈ (sweepLevels go f L s).1, P l.1 l.2 := by
  induction L generalizing s with
  | nil => simp [sweepLevels]
  | cons m rest ih =>
      obtain ⟨k, xs⟩ := m
      have hrest : ∀ l ∈ rest, P l.1 l.2 := fun l hl => hL l (List.mem_cons_of_mem _ hl)
      have hxs : P k xs := hL (k, xs) List.mem_cons_self
      simp only [sweepLevels]
      split
      · split
        · exact ih hrest _
        · intro l hl
          rcases List.mem_cons.mp hl with rfl | hl
          · exact hf k xs s hxs
          · exact hrest l hl
      · exact hL

/-- Sweep a ladder from its best level on. -/
def sweep (go : κ → S → Bool) (f : κ → List α → S → List α × S × List τ) (L : Ladder r α) (s : S) :
    Ladder r α × S × List τ :=
  let swept := sweepLevels go f L.levels s
  (⟨swept.1, List.pairwise_map.mp ((List.pairwise_map.mpr L.sorted).sublist
      (keys_sweepLevels L.levels s).sublist), filled_sweepLevels L.filled s⟩, swept.2)

/-- A sweep ends at once when the best level, if there is one, is not accepted. -/
theorem sweep_of_stop {L : Ladder r α} {s : S} (h : ∀ k, L.best = some k → go k s = false) :
    L.sweep go f s = (L, s, []) := by
  obtain ⟨levels, sorted, filled⟩ := L
  cases levels with
  | nil => rfl
  | cons m rest =>
      obtain ⟨k, xs⟩ := m
      have hgo : go k s = false := h k rfl
      have hswept : sweepLevels go f ((k, xs) :: rest) s = ((k, xs) :: rest, s, []) := by
        rw [sweepLevels, hgo]
        rfl
      refine Prod.ext (Ladder.ext ?_) ?_
      · show (sweepLevels go f ((k, xs) :: rest) s).1 = _
        rw [hswept]
      · show (sweepLevels go f ((k, xs) :: rest) s).2 = _
        rw [hswept]

variable (go f) in
/-- **One level of a sweep**: the consumer works on the best queue, and the sweep goes on when it used
    that queue up. -/
theorem sweep_of_go [DecidableRel r] [IsStrictTotalOrder κ r] {L : Ladder r α} {k : κ} {xs : List α}
    {rest : List (κ × List α)} {s : S} (hL : L.levels = (k, xs) :: rest) (hgo : go k s = true) :
    L.sweep go f s =
      if (f k xs s).1.isEmpty then
        (((L.setQueue k (f k xs s).1).sweep go f (f k xs s).2.1).1,
          ((L.setQueue k (f k xs s).1).sweep go f (f k xs s).2.1).2.1,
          (f k xs s).2.2 ++ ((L.setQueue k (f k xs s).1).sweep go f (f k xs s).2.1).2.2)
      else (L.setQueue k (f k xs s).1, (f k xs s).2) := by
  have hset : (L.setQueue k (f k xs s).1).levels = level k (f k xs s).1 ++ rest :=
    levels_setQueue_best hL _
  unfold sweep
  dsimp only
  cases hys : (f k xs s).1 with
  | nil =>
      rw [hys] at hset
      have hrest : (L.setQueue k []).levels = rest := hset
      have hswept : sweepLevels go f L.levels s =
          ((sweepLevels go f rest (f k xs s).2.1).1, (sweepLevels go f rest (f k xs s).2.1).2.1,
            (f k xs s).2.2 ++ (sweepLevels go f rest (f k xs s).2.1).2.2) := by
        rw [hL, sweepLevels, hgo]
        simp [hys]
      refine Prod.ext (Ladder.ext ?_) ?_
      · show (sweepLevels go f L.levels s).1 = (sweepLevels go f (L.setQueue k []).levels _).1
        rw [hswept, hrest]
      · show (sweepLevels go f L.levels s).2 = (_, _ ++ (sweepLevels go f (L.setQueue k []).levels _).2.2)
        rw [hswept, hrest]
  | cons y ys =>
      rw [hys] at hset
      have hswept : sweepLevels go f L.levels s = ((k, y :: ys) :: rest, (f k xs s).2) := by
        rw [hL, sweepLevels, hgo]
        simp [hys]
      refine Prod.ext (Ladder.ext ?_) ?_
      · show (sweepLevels go f L.levels s).1 = (L.setQueue k (y :: ys)).levels
        rw [hswept, hset]
        rfl
      · show (sweepLevels go f L.levels s).2 = (f k xs s).2
        rw [hswept]

end Sweep
end Ladder
