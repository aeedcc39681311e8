import Mathlib.Logic.Function.Basic
import Mathlib.Data.List.Nodup
import Mathlib.Data.List.Induction

/-!
# `Lib.Chain` — linked lists threaded through a store

A store of linked nodes is seen through the function that reads a node's links; `none` means that there
is no node there. `Linked` says that a list of addresses is a doubly linked segment of the store, `Path`
that following one link from a start visits exactly that list and then ends.

The lemmas are the ones a list manipulation needs: splitting a segment (`linked_append`), framing a write elsewhere
(`linked_congr`), and what the two writes of an append (`Linked.push`) or of a removal (`Linked.unlink`) do. A segment
is a path along its forward links and, reversed, along its backward links (`Linked.path`, `Linked.path_reverse`), so
that what holds of segments holds of every walk from an end.
-/

namespace Chain

variable {σ : Type}

/-! ## Doubly linked segments -/

/-- `xs` is a doubly linked segment: entered from `p`, left to `n`, with every node's pair of links
    pointing at its neighbours in the list. -/
def Linked (links : σ → Option (Option σ × Option σ)) : Option σ → List σ → Option σ → Prop
  | _, [], _ => True
  | p, s :: xs, n => links s = some (p, xs.head?.or n) ∧ Linked links (some s) xs n

variable {links links' : σ → Option (Option σ × Option σ)} {p n : Option σ} {xs ys : List σ}

@[simp] theorem linked_nil : Linked links p [] n := trivial

theorem linked_cons {s : σ} :
    Linked links p (s :: xs) n ↔ links s = some (p, xs.head?.or n) ∧ Linked links (some s) xs n :=
  Iff.rfl

/-- A segment splits at any of its addresses. -/
theorem linked_append :
    Linked links p (xs ++ ys) n
      ↔ Linked links p xs (ys.head?.or n) ∧ Linked links (xs.getLast?.or p) ys n := by
  induction xs generalizing p with
  | nil => simp
  | cons s xs ih =>
      have hnext : (xs ++ ys).head?.or n = xs.head?.or (ys.head?.or n) := by
        cases xs <;> simp
      have hlast : (s :: xs).getLast?.or p = xs.getLast?.or (some s) := by
        cases xs with
        | nil => rfl
        | cons t xs => rw [List.getLast?_cons_cons]; simp [List.getLast?_cons]
      rw [List.cons_append, linked_cons, linked_cons, ih, hnext, hlast, and_assoc]

/-- A segment only reads the links of its own nodes. -/
theorem linked_congr (h : ∀ s ∈ xs, links s = links' s) :
    Linked links p xs n ↔ Linked links' p xs n := by
  induction xs generalizing p with
  | nil => simp
  | cons s xs ih =>
      rw [linked_cons, linked_cons, h s List.mem_cons_self,
        ih (fun t ht => h t (List.mem_cons_of_mem s ht))]

/-- Every address of a segment has a node. -/
theorem Linked.isSome (h : Linked links p xs n) {s : σ} (hs : s ∈ xs) : (links s).isSome := by
  induction xs generalizing p with
  | nil => exact absurd hs (by simp)
  | cons t xs ih =>
      rcases List.mem_cons.mp hs with rfl | hs
      · rw [h.1]; rfl
      · exact ih h.2 hs

/-- The links of a node in the middle of a segment. -/
theorem Linked.links_eq {s : σ} (h : Linked links p (xs ++ s :: ys) n) :
    links s = some (xs.getLast?.or p, ys.head?.or n) :=
  (linked_cons.mp (linked_append.mp h).2).1

section Writes

variable [DecidableEq σ]

/-- Write the forward link of a node, when there is one. -/
def setNext (links : σ → Option (Option σ × Option σ)) (t : Option σ) (n : Option σ) :
    σ → Option (Option σ × Option σ) :=
  match t with
  | none => links
  | some t => Function.update links t ((links t).map fun l => (l.1, n))

/-- Write the backward link of a node, when there is one. -/
def setPrev (links : σ → Option (Option σ × Option σ)) (t : Option σ) (p : Option σ) :
    σ → Option (Option σ × Option σ) :=
  match t with
  | none => links
  | some t => Function.update links t ((links t).map fun l => (p, l.2))

theorem setNext_of_ne {t m : Option σ} {s : σ} (h : t ≠ some s) : setNext links t m s = links s := by
  cases t with
  | none => rfl
  | some t => exact Function.update_of_ne (fun he => h (by rw [he])) _ _

theorem setPrev_of_ne {t m : Option σ} {s : σ} (h : t ≠ some s) : setPrev links t m s = links s := by
  cases t with
  | none => rfl
  | some t => exact Function.update_of_ne (fun he => h (by rw [he])) _ _

theorem setNext_self {t : σ} {m : Option σ} :
    setNext links (some t) m t = (links t).map fun l => (l.1, m) := Function.update_self ..

theorem setPrev_self {t : σ} {m : Option σ} :
    setPrev links (some t) m t = (links t).map fun l => (m, l.2) := Function.update_self ..

/-- Redirecting the last node's forward link changes where the segment leaves to. -/
theorem Linked.setNext_last (h : Linked links p xs n) (hnd : xs.Nodup) (m : Option σ) :
    Linked (setNext links xs.getLast? m) p xs m := by
  rcases List.eq_nil_or_concat' xs with rfl | ⟨ys, t, rfl⟩
  · simp
  · rw [List.getLast?_concat]
    obtain ⟨hys, ht⟩ := linked_append.mp h
    have hfresh : ∀ s ∈ ys, links s = setNext links (some t) m s := by
      intro s hs
      refine (setNext_of_ne ?_).symm
      rintro ⟨⟩
      exact (List.nodup_append.mp hnd).2.2 t hs t (List.mem_singleton_self t) rfl
    refine linked_append.mpr ⟨(linked_congr hfresh).mp hys, ?_, trivial⟩
    rw [setNext_self, ht.1]
    rfl

/-- Redirecting the first node's backward link changes where the segment is entered from. -/
theorem Linked.setPrev_head (h : Linked links p xs n) (hnd : xs.Nodup) (m : Option σ) :
    Linked (setPrev links xs.head? m) m xs n := by
  cases xs with
  | nil => simp
  | cons t ys =>
      have hfresh : ∀ s ∈ ys, links s = setPrev links (some t) m s := by
        intro s hs
        refine (setPrev_of_ne ?_).symm
        rintro ⟨⟩
        exact (List.nodup_cons.mp hnd).1 hs
      refine ⟨?_, (linked_congr hfresh).mp h.2⟩
      rw [List.head?_cons, setPrev_self, h.1]
      rfl

/-- **Append.** A node that already points back at the last one joins the segment when the last node's
    forward link is set to it. -/
theorem Linked.push {s : σ} (h : Linked links none xs none) (hnd : xs.Nodup) (hs : s ∉ xs)
    (hlinks : links s = some (xs.getLast?, none)) :
    Linked (setNext links xs.getLast? (some s)) none (xs ++ [s]) none := by
  refine linked_append.mpr ⟨h.setNext_last hnd (some s), ?_, trivial⟩
  have hne : xs.getLast? ≠ some s := fun he => hs (List.mem_of_getLast? he)
  rw [setNext_of_ne hne, hlinks]
  simp

/-- **Remove.** Joining a node's neighbours to each other takes it out of the segment. -/
theorem Linked.unlink {s : σ} (h : Linked links none (xs ++ s :: ys) none)
    (hnd : (xs ++ s :: ys).Nodup) :
    Linked (setPrev (setNext links xs.getLast? ys.head?) ys.head? xs.getLast?) none (xs ++ ys) none := by
  obtain ⟨hxs, hsys⟩ := linked_append.mp h
  obtain ⟨hndx, hndsy, hdisj⟩ := List.nodup_append.mp hnd
  have hndy : ys.Nodup := (List.nodup_cons.mp hndsy).2
  have hdisj' : ∀ t ∈ xs, t ∉ ys := fun t hx hy => hdisj t hx t (List.mem_cons_of_mem s hy) rfl
  refine linked_append.mpr ⟨?_, ?_⟩
  · refine (linked_congr fun t ht => ?_).mp (hxs.setNext_last hndx (ys.head?.or none))
    rw [Option.or_none]
    exact (setPrev_of_ne fun he => hdisj' t ht (List.mem_of_head? he)).symm
  · rw [Option.or_none]
    have hys : Linked (setNext links xs.getLast? ys.head?) (some s) ys none :=
      (linked_congr fun t ht => (setNext_of_ne fun he =>
        hdisj' t (List.mem_of_getLast? he) ht).symm).mp hsys.2
    exact hys.setPrev_head hndy xs.getLast?

end Writes

/-! ## Singly linked paths -/

/-- Following `next` from `start` visits exactly `xs` and then ends. -/
def Path (next : σ → Option (Option σ)) : Option σ → List σ → Prop
  | start, [] => start = none
  | start, s :: xs => start = some s ∧ ∃ n, next s = some n ∧ Path next n xs

variable {next next' : σ → Option (Option σ)} {start : Option σ}

/-- A path starts at its first address and goes on behind it. -/
theorem path_cons {s : σ} :
    Path next start (s :: xs) ↔ start = some s ∧ ∃ n, next s = some n ∧ Path next n xs := Iff.rfl

/-- A path only reads the links of its own nodes. -/
theorem path_congr (h : ∀ s ∈ xs, next s = next' s) : Path next start xs ↔ Path next' start xs := by
  induction xs generalizing start with
  | nil => exact Iff.rfl
  | cons s xs ih =>
      have hxs := fun n => @ih n (fun t ht => h t (List.mem_cons_of_mem s ht))
      simp only [path_cons, h s List.mem_cons_self, hxs]

/-- The forward links of a doubly linked segment that ends are a path. -/
theorem Linked.path (h : Linked links p xs none) :
    Path (fun s => (links s).map Prod.snd) xs.head? xs := by
  induction xs generalizing p with
  | nil => rfl
  | cons s xs ih =>
      refine ⟨rfl, xs.head?, ?_, ih h.2⟩
      simp [h.1]

/-- The backward links of a doubly linked segment, read from its end, are the reversed path. -/
theorem Linked.path_reverse (h : Linked links none xs n) :
    Path (fun s => (links s).map Prod.fst) xs.getLast? xs.reverse := by
  induction xs using List.reverseRecOn generalizing n with
  | nil => rfl
  | append_singleton xs s ih =>
      obtain ⟨hxs, hs, -⟩ := linked_append.mp h
      rw [List.getLast?_concat, List.reverse_append]
      refine ⟨rfl, xs.getLast?, ?_, ih hxs⟩
      simp [hs]

end Chain
