import LimitOrderBook.Engine.Arena
import LimitOrderBook.Lib.Chain

/-!
# `Refinement.Arena` — the arena is a store of nodes with a free list

The arena of the source is a vector of entries, each occupied by a node or vacant with a link to the next vacant one.
Here it is read in two ways: `node?` is the partial function from slots to nodes, and `FreeList` lists the vacant
slots, each once, in the order in which the free links visit them. Every operation is stated as what it does to both.

* `getMut_spec`: a write changes one node and no vacant slot.
* `remove_spec`: a removal empties the slot and puts it at the front of the free list.
* `insert_spec`: an insertion takes a slot that was vacant, or a new one. It needs room for a `u32` slot: without it
  the cast wraps, and the slot that is returned holds an old order (`insert_full`). What holds of every insertion is
  `insert_total`, and `insert_size` says when the entries grow.

The upper layers use these lemmas and never look at `entries`.
-/

namespace LimitOrderBook
namespace OrderArena

/-- The node stored in a slot, if any. -/
def node? (a : OrderArena) (s : Slot) : Option OrderNode :=
  match a.entries[s.toNat]? with
  | some (.occupied node) => some node
  | _ => none

/-- The free link stored in a slot, if it is vacant. -/
def nextFree? (a : OrderArena) (s : Slot) : Option (Option Slot) :=
  match a.entries[s.toNat]? with
  | some (.vacant next) => some next
  | _ => none

/-- The vacant slots in free-list order, and the counts that go with them. -/
structure FreeList (a : OrderArena) (free : List Slot) : Prop where
  path : Chain.Path a.nextFree? a.freeHead free
  nodup : free.Nodup
  vacant : ∀ s, s ∈ free ↔ (a.nextFree? s).isSome
  count : a.len + free.length = a.entries.size
  fits : a.entries.size ≤ 2 ^ 32

/-! ## Reading entries -/

theorem node?_eq_some {a : OrderArena} {s : Slot} {n : OrderNode} :
    a.node? s = some n ↔ a.entries[s.toNat]? = some (.occupied n) := by
  unfold node?
  split
  next m hm => simp [hm]
  next hno =>
    simp only [reduceCtorEq, false_iff]
    exact hno n

theorem nextFree?_eq_some {a : OrderArena} {s : Slot} {n : Option Slot} :
    a.nextFree? s = some n ↔ a.entries[s.toNat]? = some (.vacant n) := by
  unfold nextFree?
  split
  next m hm => simp [hm]
  next hno =>
    simp only [reduceCtorEq, false_iff]
    exact hno n

/-- A vacant slot has no node. -/
theorem node?_of_nextFree? {a : OrderArena} {s : Slot} {n : Option Slot} (h : a.nextFree? s = some n) :
    a.node? s = none := by
  rw [nextFree?_eq_some] at h
  simp [node?, h]

/-- An occupied slot has no free link. -/
theorem nextFree?_of_node? {a : OrderArena} {s : Slot} {n : OrderNode} (h : a.node? s = some n) :
    a.nextFree? s = none := by
  rw [node?_eq_some] at h
  simp [nextFree?, h]

/-- A slot inside the arena holds a node or is vacant. -/
theorem node?_or_nextFree? {a : OrderArena} {s : Slot} (h : s.toNat < a.entries.size) :
    (a.node? s).isSome ∨ (a.nextFree? s).isSome := by
  have he : a.entries[s.toNat]? = some a.entries[s.toNat] := Array.getElem?_eq_getElem h
  cases hent : a.entries[s.toNat] with
  | occupied n => exact Or.inl (by simp [node?, he, hent])
  | vacant n => exact Or.inr (by simp [nextFree?, he, hent])

/-- `get` returns the node of an occupied slot. -/
theorem get_eq {a : OrderArena} {s : Slot} {n : OrderNode} (h : a.node? s = some n) :
    a.get s = .ok n := by
  rw [node?_eq_some] at h
  simp [get, h]

theorem of_get {a : OrderArena} {s : Slot} {n : OrderNode} (h : a.get s = .ok n) : a.node? s = some n := by
  unfold get at h
  split at h
  · cases h
  · cases h
  next node hnode =>
    cases h
    exact node?_eq_some.mpr hnode

/-- A write that returned wrote to a stored node. -/
theorem of_getMut {a a' : OrderArena} {s : Slot} {w : OrderNode → OrderNode} (h : a.getMut s w = .ok a') :
    ∃ n, a.node? s = some n := by
  unfold getMut at h
  split at h
  · cases h
  · cases h
  next node hnode => exact ⟨node, node?_eq_some.mpr hnode⟩

/-- A removal that returned removed a stored node. -/
theorem of_remove {a a' : OrderArena} {s : Slot} {o : Order} (h : a.remove s = .ok (a', o)) :
    ∃ n, a.node? s = some n := by
  unfold remove at h
  split at h
  · cases h
  · cases h
  next node hnode => exact ⟨node, node?_eq_some.mpr hnode⟩

/-! ## Writing entries -/

/-- An arena that differs from `a` in its entries only. -/
theorem node?_set {a b : OrderArena} {s : Slot} {n : OrderNode} (hs : s.toNat < a.entries.size)
    (hb : b.entries = a.entries.set! s.toNat (.occupied n)) :
    b.node? = Function.update a.node? s (some n)
      ∧ b.nextFree? = Function.update a.nextFree? s none := by
  constructor <;> funext t <;> by_cases ht : t = s
  · subst ht
    rw [Function.update_self, node?_eq_some, hb]
    simp [hs]
  · have hne : s.toNat ≠ t.toNat := fun he => ht (UInt32.toNat_inj.mp he.symm)
    rw [Function.update_of_ne ht]
    simp [node?, hb, hne]
  · subst ht
    rw [Function.update_self]
    simp [nextFree?, hb, hs]
  · have hne : s.toNat ≠ t.toNat := fun he => ht (UInt32.toNat_inj.mp he.symm)
    rw [Function.update_of_ne ht]
    simp [nextFree?, hb, hne]

/-- Making a slot vacant removes its node and gives it a free link. -/
theorem nextFree?_set {a b : OrderArena} {s : Slot} {n : Option Slot} (hs : s.toNat < a.entries.size)
    (hb : b.entries = a.entries.set! s.toNat (.vacant n)) :
    b.node? = Function.update a.node? s none
      ∧ b.nextFree? = Function.update a.nextFree? s (some n) := by
  constructor <;> funext t <;> by_cases ht : t = s
  · subst ht
    rw [Function.update_self]
    simp [node?, hb, hs]
  · have hne : s.toNat ≠ t.toNat := fun he => ht (UInt32.toNat_inj.mp he.symm)
    rw [Function.update_of_ne ht]
    simp [node?, hb, hne]
  · subst ht
    rw [Function.update_self, nextFree?_eq_some, hb]
    simp [hs]
  · have hne : s.toNat ≠ t.toNat := fun he => ht (UInt32.toNat_inj.mp he.symm)
    rw [Function.update_of_ne ht]
    simp [nextFree?, hb, hne]

theorem lt_size_of_node? {a : OrderArena} {s : Slot} {n : OrderNode} (h : a.node? s = some n) :
    s.toNat < a.entries.size := by
  rw [node?_eq_some] at h
  exact (Array.getElem?_eq_some_iff.mp h).1

theorem lt_size_of_nextFree? {a : OrderArena} {s : Slot} {n : Option Slot}
    (h : a.nextFree? s = some n) : s.toNat < a.entries.size := by
  rw [nextFree?_eq_some] at h
  exact (Array.getElem?_eq_some_iff.mp h).1

/-- **A write through `get_mut`** changes one node and nothing of the free list. -/
theorem getMut_spec {a : OrderArena} {s : Slot} {n : OrderNode} (h : a.node? s = some n)
    (write : OrderNode → OrderNode) :
    ∃ a', a.getMut s write = .ok a' ∧ a'.node? = Function.update a.node? s (some (write n))
      ∧ a'.len = a.len ∧ a'.entries.size = a.entries.size
      ∧ ∀ free, a.FreeList free → a'.FreeList free := by
  have hs := lt_size_of_node? h
  obtain ⟨hnode, hfree⟩ :=
    node?_set (b := ⟨a.entries.set! s.toNat (.occupied (write n)), a.freeHead, a.len⟩) hs rfl
  have hsame : Function.update a.nextFree? s none = a.nextFree? := by
    rw [Function.update_eq_self_iff, nextFree?_of_node? h]
  have hsize : (a.entries.set! s.toNat (.occupied (write n))).size = a.entries.size := by simp
  refine ⟨_, ?_, hnode, rfl, hsize, fun free hl => ?_⟩
  · rw [node?_eq_some] at h
    simp [getMut, h]
  · rw [hsame] at hfree
    refine ⟨?_, hl.nodup, fun t => ?_, ?_, ?_⟩
    · rw [hfree]; exact hl.path
    · rw [hfree]; exact hl.vacant t
    · show a.len + free.length = (a.entries.set! s.toNat _).size
      rw [hsize]; exact hl.count
    · show (a.entries.set! s.toNat _).size ≤ _
      rw [hsize]; exact hl.fits

/-- The vacant slots and any further slots inside the arena are no more than its entries. -/
theorem FreeList.length_add_le {a : OrderArena} {free used : List Slot} (hl : a.FreeList free)
    (hnd : used.Nodup) (hused : ∀ s ∈ used, (a.node? s).isSome) : used.length ≤ a.len := by
  have hnodup : (used ++ free).Nodup := by
    refine List.nodup_append.mpr ⟨hnd, hl.nodup, ?_⟩
    rintro s hs t ht rfl
    obtain ⟨n, hn⟩ := Option.isSome_iff_exists.mp (hused s hs)
    obtain ⟨m, hm⟩ := Option.isSome_iff_exists.mp ((hl.vacant s).mp ht)
    rw [node?_of_nextFree? hm] at hn
    exact absurd hn (by simp)
  have hsub : (used ++ free).map UInt32.toNat ⊆ List.range a.entries.size := by
    intro i hi
    obtain ⟨t, ht, rfl⟩ := List.mem_map.mp hi
    rw [List.mem_range]
    rcases List.mem_append.mp ht with ht | ht
    · obtain ⟨n, hn⟩ := Option.isSome_iff_exists.mp (hused t ht)
      exact lt_size_of_node? hn
    · obtain ⟨m, hm⟩ := Option.isSome_iff_exists.mp ((hl.vacant t).mp ht)
      exact lt_size_of_nextFree? hm
  have hle := (List.subperm_of_subset
    (hnodup.map fun x y he => UInt32.toNat_inj.mp he) hsub).length_le
  have hcount := hl.count
  rw [List.length_map, List.length_append, List.length_range] at hle
  omega

/-- An arena that stores a node counts at least one. -/
theorem FreeList.len_pos {a : OrderArena} {free : List Slot} {s : Slot} {n : OrderNode}
    (hl : a.FreeList free) (h : a.node? s = some n) : 0 < a.len :=
  hl.length_add_le (List.nodup_singleton s) fun t ht => by
    rw [List.mem_singleton.mp ht, h]; rfl

/-- **Removing** frees the slot and puts it at the front of the free list. -/
theorem remove_spec {a : OrderArena} {free : List Slot} {s : Slot} {n : OrderNode}
    (hl : a.FreeList free) (h : a.node? s = some n) :
    ∃ a', a.remove s = .ok (a', n.order) ∧ a'.node? = Function.update a.node? s none
      ∧ a'.len + 1 = a.len ∧ a'.entries.size = a.entries.size ∧ a'.FreeList (s :: free) := by
  have hs := lt_size_of_node? h
  have hout : s ∉ free := fun hm => by
    have := (hl.vacant s).mp hm
    rw [nextFree?_of_node? h] at this
    exact absurd this (by simp)
  have hlen : 0 < a.len := hl.len_pos h
  obtain ⟨hnode, hfree⟩ :=
    nextFree?_set (b := ⟨a.entries.set! s.toNat (.vacant a.freeHead), some s, a.len - 1⟩) hs rfl
  have hsize : (a.entries.set! s.toNat (.vacant a.freeHead)).size = a.entries.size := by simp
  refine ⟨_, ?_, hnode, ?_, hsize, ?_, ?_, fun t => ?_, ?_, ?_⟩
  · rw [node?_eq_some] at h
    simp [remove, h]
  · show a.len - 1 + 1 = a.len
    omega
  · refine ⟨rfl, a.freeHead, ?_, ?_⟩
    · rw [hfree, Function.update_self]
    · rw [hfree]
      refine (Chain.path_congr fun t ht => ?_).mp hl.path
      have hne : t ≠ s := fun he => hout (by rw [← he]; exact ht)
      exact (Function.update_of_ne hne _ _).symm
  · exact List.nodup_cons.mpr ⟨hout, hl.nodup⟩
  · rw [hfree]
    by_cases ht : t = s
    · subst ht; simp
    · rw [Function.update_of_ne ht, ← hl.vacant t]
      simp [ht]
  · show a.len - 1 + (free.length + 1) = (a.entries.set! s.toNat _).size
    rw [hsize]
    have := hl.count
    omega
  · show (a.entries.set! s.toNat _).size ≤ _
    rw [hsize]; exact hl.fits

/-- Pushing an entry: the reading at the old size, and everywhere else. -/
theorem node?_push {a b : OrderArena} {n : OrderNode} (hb : b.entries = a.entries.push (.occupied n))
    (t : Slot) : b.node? t = (if t.toNat = a.entries.size then some n else a.node? t)
      ∧ b.nextFree? t = a.nextFree? t := by
  unfold node? nextFree?
  rw [hb, Array.getElem?_push]
  by_cases ht : t.toNat = a.entries.size <;> simp [ht]

/-- Without a vacant slot the order is pushed at the end. -/
theorem insert_push {a : OrderArena} (h : a.freeHead = none) (o : Order) :
    a.insert o = .ok (⟨a.entries.push (.occupied ⟨o, none, none⟩), a.freeHead, a.len + 1⟩,
      UInt32.ofNat a.entries.size) := by
  simp [insert, h]

/-- **Inserting** into an arena with room stores the order in a slot that held nothing. -/
theorem insert_spec {a : OrderArena} {free : List Slot} (hl : a.FreeList free)
    (hroom : a.len < 2 ^ 32) (o : Order) :
    ∃ a' s free', a.insert o = .ok (a', s) ∧ a.node? s = none
      ∧ a'.node? = Function.update a.node? s (some ⟨o, none, none⟩) ∧ a'.len = a.len + 1
      ∧ a'.FreeList free' := by
  have hcount := hl.count
  cases free with
  | nil =>
      -- no vacant slot: the entries grow by one, and the new index still fits a `u32`
      have hhead : a.freeHead = none := hl.path
      have hsize : a.entries.size < 2 ^ 32 := by simp at hcount; omega
      have hslot : (UInt32.ofNat a.entries.size).toNat = a.entries.size :=
        UInt32.toNat_ofNat_of_lt' hsize
      have hpush := node?_push (a := a) (n := ⟨o, none, none⟩)
        (b := ⟨a.entries.push (.occupied ⟨o, none, none⟩), a.freeHead, a.len + 1⟩) rfl
      refine ⟨_, _, [], insert_push hhead o, ?_, ?_, rfl, ?_⟩
      · simp [node?, hslot]
      · funext t
        rw [(hpush t).1]
        by_cases ht : t = UInt32.ofNat a.entries.size
        · subst ht
          rw [if_pos hslot, Function.update_self]
        · have hne : t.toNat ≠ a.entries.size := fun he =>
            ht (UInt32.toNat_inj.mp (he.trans hslot.symm))
          rw [if_neg hne, Function.update_of_ne ht]
      · refine ⟨hhead, List.nodup_nil, fun t => ?_, ?_, ?_⟩
        · rw [(hpush t).2]; exact hl.vacant t
        · show a.len + 1 + 0 = (a.entries.push _).size
          rw [Array.size_push, ← hcount]; simp
        · show (a.entries.push _).size ≤ _
          rw [Array.size_push]; omega
  | cons s rest =>
      -- the most recently freed slot is taken again
      obtain ⟨hhead, next, hnext, hpath⟩ := hl.path
      obtain ⟨hout, hnd⟩ := List.nodup_cons.mp hl.nodup
      have hs := lt_size_of_nextFree? hnext
      obtain ⟨hnode, hfree⟩ := node?_set
        (b := ⟨a.entries.set! s.toNat (.occupied ⟨o, none, none⟩), next, a.len + 1⟩) hs rfl
      refine ⟨_, s, rest, ?_, node?_of_nextFree? hnext, hnode, rfl, ?_, hnd, fun t => ?_, ?_, ?_⟩
      · rw [nextFree?_eq_some] at hnext
        simp [insert, hhead, hnext]
      · rw [hfree]
        refine (Chain.path_congr fun t ht => ?_).mp hpath
        have hne : t ≠ s := fun he => hout (by rw [← he]; exact ht)
        exact (Function.update_of_ne hne _ _).symm
      · rw [hfree]
        by_cases ht : t = s
        · subst ht; simp [hout]
        · rw [Function.update_of_ne ht, ← hl.vacant t]
          simp [ht]
      · show a.len + 1 + rest.length = (a.entries.set! s.toNat _).size
        simp at hcount ⊢; omega
      · show (a.entries.set! s.toNat _).size ≤ _
        simpa using hl.fits

/-- **Inserting into a full arena** wraps the slot around to 0, which holds an old order and keeps it. -/
theorem insert_full {a : OrderArena} {free : List Slot} (hl : a.FreeList free) (hfull : a.len = 2 ^ 32)
    (o : Order) :
    ∃ a', a.insert o = .ok (a', 0) ∧ a'.len = a.len + 1 ∧ (a.node? 0).isSome
      ∧ ∀ t n, a.node? t = some n → a'.node? t = some n := by
  have hcount := hl.count
  have hfits := hl.fits
  have hsize : a.entries.size = 2 ^ 32 := by omega
  have hnil : free = [] := List.length_eq_zero_iff.mp (by omega)
  subst hnil
  have hhead : a.freeHead = none := hl.path
  have hslot : UInt32.ofNat a.entries.size = 0 := by rw [hsize]; rfl
  have hins := insert_push hhead o
  rw [hslot] at hins
  refine ⟨_, hins, rfl, ?_, fun t n ht => ?_⟩
  · refine (node?_or_nextFree? (by rw [hsize]; decide)).resolve_right fun hv => ?_
    exact absurd ((hl.vacant _).mpr hv) (by simp)
  · -- the new entry is the one after the last that a slot can name
    have hpush := node?_push (a := a) (n := ⟨o, none, none⟩)
      (b := ⟨a.entries.push (.occupied ⟨o, none, none⟩), a.freeHead, a.len + 1⟩) rfl
    have hne : t.toNat ≠ a.entries.size := (lt_size_of_node? ht).ne
    rw [(hpush t).1, if_neg hne, ht]

/-- Inserting never faults, even without room: the slot it returns holds a node and no stored node is
    overwritten. (Past `2 ^ 32` entries the cast wraps, and the node in that slot is an old one.) -/
theorem insert_total {a : OrderArena} {free : List Slot} (hl : a.FreeList free) (o : Order) :
    ∃ a' s, a.insert o = .ok (a', s) ∧ a'.len = a.len + 1 ∧ (a'.node? s).isSome
      ∧ ∀ t n, a.node? t = some n → a'.node? t = some n := by
  by_cases hroom : a.len < 2 ^ 32
  · obtain ⟨a', s, -, hins, hnone, hnode, hlen, -⟩ := insert_spec hl hroom o
    refine ⟨a', s, hins, hlen, by rw [hnode, Function.update_self]; rfl, fun t n ht => ?_⟩
    have hne : t ≠ s := fun he => by rw [he, hnone] at ht; exact absurd ht (by simp)
    rw [hnode, Function.update_of_ne hne, ht]
  · have hcount := hl.count
    have hfits := hl.fits
    obtain ⟨a', hins, hlen, hsome, hkeep⟩ := insert_full hl (by omega) o
    obtain ⟨n, hn⟩ := Option.isSome_iff_exists.mp hsome
    exact ⟨a', 0, hins, hlen, by rw [hkeep 0 n hn]; rfl, hkeep⟩

/-- **Inserting grows the entries only when no slot is vacant.** -/
theorem insert_size {a a' : OrderArena} {free : List Slot} {s : Slot} {o : Order} (hl : a.FreeList free)
    (h : a.insert o = .ok (a', s)) : a'.entries.size = max a.entries.size (a.len + 1) := by
  have hcount := hl.count
  cases free with
  | nil =>
      have hhead : a.freeHead = none := hl.path
      rw [insert_push hhead] at h
      cases h
      rw [List.length_nil] at hcount
      rw [Array.size_push]
      omega
  | cons t rest =>
      obtain ⟨hhead, next, hnext, -⟩ := hl.path
      rw [nextFree?_eq_some] at hnext
      have hsame : a.insert o = .ok (⟨a.entries.set! t.toNat (.occupied ⟨o, none, none⟩), next, a.len + 1⟩, t) := by
        simp [insert, hhead, hnext]
      rw [hsame] at h
      cases h
      rw [List.length_cons] at hcount
      rw [Array.size_set!]
      omega

theorem freeList_empty : FreeList {} [] := by
  refine ⟨rfl, List.nodup_nil, fun s => ?_, rfl, by simp⟩
  simp [nextFree?]

end OrderArena
end LimitOrderBook
