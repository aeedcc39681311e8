import LimitOrderBook.Refinement.Exec
import LimitOrderBook.Reference.Invariant

/-!
# `Refinement.Run` — runs of the book are runs of the priority book

The two refinements put together: the book refines the reference book (`Refinement.Exec`), and the reference book
flattens to the priority book, in which a side is one list of orders (`Reference.Steps`). `Represents b p` is their
composition, and `run_represents` says that it holds between a run of the book and the run of the priority book with
the same commands (`priorityRun`).

A law about runs of the book is proved of the priority book and read back here. The views of `Represents` say what a
caller can see: the best prices are those of the first order of each side, the resting orders are as many, and the
snapshot returns and lists them. `Depicts` is the same for a snapshot on its own, for laws that compare snapshots; it
determines the snapshot (`Depicts.eq`). `neverOverfull_iff_priority` does the same for the bound on the number of
resting orders, and `exec_eq` for the result of a single call.
-/

namespace LimitOrderBook

/-- The run of a list of commands on an empty priority book. -/
abbrev priorityRun (cmds : List ScenarioCommand) : PriorityBook × List CommandResult :=
  Machine.run PriorityBook.exec {} cmds

/-- Every run of the priority book ends in a valid book. -/
theorem priorityRun_valid (cmds : List ScenarioCommand) : (priorityRun cmds).1.Valid :=
  PriorityBook.valid_empty.run cmds

/-- A run goes on where the run of a prefix ended. -/
theorem priorityRun_append (cmds later : List ScenarioCommand) :
    priorityRun (cmds ++ later)
      = ((Machine.run PriorityBook.exec (priorityRun cmds).1 later).1,
        (priorityRun cmds).2 ++ (Machine.run PriorityBook.exec (priorityRun cmds).1 later).2) :=
  Machine.run_append _ cmds later

/-! ## From the reference book to the priority book -/

namespace ReferenceBook

theorem flatten_empty : flatten {} = {} := PriorityBook.ext (funext fun s => by cases s <;> rfl) rfl

/-- **Flattening commutes with every run.** -/
theorem flatten_run (cmds : List ScenarioCommand) :
    priorityRun cmds = ((Machine.run exec {} cmds).1.flatten, (Machine.run exec {} cmds).2) := by
  have hplaced : ∀ b c, Placed b → Placed (exec b c).1 := fun _ c hb => Placed.exec hb c
  have hexec : ∀ b c, Placed b →
      PriorityBook.exec (flatten b) (id c) = (flatten (exec b c).1, id (exec b c).2) :=
    fun _ c hb => flatten_exec hb c
  have hrun := Machine.run_map hplaced hexec placed_empty cmds
  rw [List.map_id, List.map_id, flatten_empty] at hrun
  exact hrun

/-- In the reference run every order stands at its side and price. -/
theorem placed_run (cmds : List ScenarioCommand) : (Machine.run exec {} cmds).1.Placed :=
  have hplaced : ∀ b c, Placed b → Placed (exec b c).1 := fun _ c hb => Placed.exec hb c
  Machine.run_invariant hplaced placed_empty cmds

/-- Flattening keeps the number of orders. -/
theorem restingOrderCount_flatten (r : ReferenceBook) :
    r.flatten.orders.length = r.restingOrderCount := rfl

end ReferenceBook

/-! ## From the book to the priority book -/

/-- `b` stands for the priority book `p`. -/
def Represents (b : OrderBook) (p : PriorityBook) : Prop :=
  ∃ r : ReferenceBook, Refines b r ∧ r.Placed ∧ r.flatten = p

/-- **A run represents the run of the priority book**: no call faults, every call returns what the
    priority book returns, and the book at the end stands for the priority book at the end. -/
theorem run_represents {mode : EventMode} {cmds : List ScenarioCommand}
    (h : OrderBook.NeverOverfull mode cmds) :
    ∃ b, OrderBook.run mode cmds = .ok (b, (priorityRun cmds).2)
      ∧ Represents b (priorityRun cmds).1 := by
  obtain ⟨b, hrun, href⟩ := run_refines h
  rw [ReferenceBook.flatten_run]
  exact ⟨b, hrun, _, href, ReferenceBook.placed_run cmds, rfl⟩

/-- A run that goes on, read at both of its ends. -/
theorem run_represents_append {mode : EventMode} {cmds later : List ScenarioCommand}
    (h : OrderBook.NeverOverfull mode (cmds ++ later)) :
    ∃ b b', OrderBook.run mode cmds = .ok (b, (priorityRun cmds).2)
      ∧ Represents b (priorityRun cmds).1
      ∧ Machine.tryRun OrderBook.exec b later
          = .ok (b', (Machine.run PriorityBook.exec (priorityRun cmds).1 later).2)
      ∧ Represents b' (Machine.run PriorityBook.exec (priorityRun cmds).1 later).1 := by
  obtain ⟨b, hrun, hrep⟩ := run_represents (Machine.Stays.append_left h)
  obtain ⟨b', hwhole, hrep'⟩ := run_represents h
  have hsplit : OrderBook.run mode (cmds ++ later)
      = (Machine.tryRun OrderBook.exec b later).map fun r => (r.1, (priorityRun cmds).2 ++ r.2) :=
    Machine.tryRun_append hrun later
  rw [hwhole, priorityRun_append] at hsplit
  rw [priorityRun_append] at hrep'
  cases hlater : Machine.tryRun OrderBook.exec b later with
  | error fault =>
      rw [hlater] at hsplit
      cases hsplit
  | ok r =>
      rw [hlater] at hsplit
      obtain ⟨hbook, hresults⟩ := Prod.mk.inj (Except.ok.inj hsplit)
      refine ⟨b, b', hrun, hrep, ?_, hrep'⟩
      rw [hlater, List.append_cancel_left hresults, hbook]

/-- A run and the next call. -/
theorem run_represents_snoc {mode : EventMode} {cmds : List ScenarioCommand} {c : ScenarioCommand}
    (h : OrderBook.NeverOverfull mode (cmds ++ [c])) :
    ∃ b b', OrderBook.run mode cmds = .ok (b, (priorityRun cmds).2)
      ∧ Represents b (priorityRun cmds).1
      ∧ b.exec c = .ok (b', ((priorityRun cmds).1.exec c).2)
      ∧ Represents b' ((priorityRun cmds).1.exec c).1 := by
  obtain ⟨b, b', hrun, hrep, hlater, hrep'⟩ := run_represents_append h
  obtain ⟨b'', res, os, hexec, hnil, hres⟩ := Machine.tryRun_cons_ok hlater
  rw [Machine.tryRun_nil] at hnil
  cases hnil
  rw [Machine.run_cons, Machine.run_nil] at hres
  cases hres
  exact ⟨b, b', hrun, hrep, hexec, hrep'⟩

/-- Whether a run is overfull can be read off the run of the priority book. -/
theorem neverOverfull_iff_priority {mode : EventMode} {cmds : List ScenarioCommand} :
    OrderBook.NeverOverfull mode cmds
      ↔ ∀ done, done <+: cmds → (priorityRun done).1.orders.length ≤ 2 ^ 32 := by
  rw [neverOverfull_iff, Machine.always_iff_prefix]
  apply forall_congr'
  intro done
  rw [ReferenceBook.flatten_run, ReferenceBook.restingOrderCount_flatten]

theorem neverOverfull_iff_always {mode : EventMode} {cmds : List ScenarioCommand} :
    OrderBook.NeverOverfull mode cmds
      ↔ Machine.Always (fun p => p.orders.length ≤ 2 ^ 32) PriorityBook.exec {} cmds := by
  rw [neverOverfull_iff_priority, Machine.always_iff_prefix]

/-- A part of a run that is never overfull is never overfull. -/
theorem OrderBook.NeverOverfull.of_prefix {mode : EventMode} {done cmds : List ScenarioCommand}
    (h : OrderBook.NeverOverfull mode cmds) (hdone : done <+: cmds) :
    OrderBook.NeverOverfull mode done := by
  obtain ⟨todo, rfl⟩ := hdone
  exact Machine.Stays.append_left h

namespace Represents

variable {b : OrderBook} {p : PriorityBook}

/-- The next call returns what it returns on the priority book. -/
theorem exec_eq (h : Represents b p) (c : ScenarioCommand) : ∃ b', b.exec c = .ok (b', (p.exec c).2) := by
  obtain ⟨r, href, hplaced, rfl⟩ := h
  obtain ⟨b', hexec, -⟩ := href.exec c
  refine ⟨b', ?_⟩
  rw [hexec, ReferenceBook.flatten_exec hplaced]

/-- Submitting any order returns, with the trades that it makes on the priority book. -/
theorem matchIncoming_total (h : Represents b p) (incoming : Order) :
    ∃ b', b.matchIncoming incoming = .ok (b', (p.submit incoming).2) := by
  obtain ⟨r, href, hplaced, rfl⟩ := h
  rw [ReferenceBook.flatten_submit hplaced]
  exact href.matchIncoming_total incoming

/-- The snapshot lists the orders of the priority book. -/
theorem snapshot_eq (h : Represents b p) :
    ∃ snap, b.snapshot = .ok snap ∧ ∀ s, snap.orders s = p.side s := by
  obtain ⟨r, href, -, rfl⟩ := h
  refine ⟨r.snapshot, href.snapshot_eq, ?_⟩
  intro s
  cases s <;> rfl

/-- The levels of the snapshot are the orders of the priority book, put on the levels of their prices. -/
theorem snapshot_ladders (h : Represents b p) :
    ∃ L : (s : Side) → SideLadder s, b.snapshot = .ok ⟨(L .buy).levels, (L .sell).levels⟩
      ∧ ∀ s, (L s).Keyed Order.price ∧ (L s).flat = p.side s := by
  obtain ⟨r, href, hplaced, rfl⟩ := h
  refine ⟨r.ladder, href.snapshot_eq, ?_⟩
  intro s
  exact ⟨hplaced s, rfl⟩

/-- A side of the snapshot lists the side of the priority book. -/
theorem orders_eq (h : Represents b p) {snap : BookSnapshot} (hsnap : b.snapshot = .ok snap) (s : Side) :
    snap.orders s = p.side s := by
  obtain ⟨snap', hsnap', horders⟩ := h.snapshot_eq
  rw [hsnap] at hsnap'
  cases hsnap'
  exact horders s

theorem ids_eq (h : Represents b p) {snap : BookSnapshot} (hsnap : b.snapshot = .ok snap) :
    snap.ids = p.orders.map Order.id := by
  unfold BookSnapshot.ids PriorityBook.orders
  rw [h.orders_eq hsnap, h.orders_eq hsnap]

/-- Both books count the same orders. -/
theorem restingOrderCount_eq (h : Represents b p) : b.restingOrderCount = p.orders.length := by
  obtain ⟨r, href, -, rfl⟩ := h
  exact href.count

/-- The best bid is the price of the first bid. -/
theorem bestBid_eq (h : Represents b p) : b.bestBid = (p.side .buy).head?.map Order.price := by
  obtain ⟨r, href, hplaced, rfl⟩ := h
  rw [href.bestBid_eq]
  exact (hplaced .buy).best_eq

/-- The best ask is the price of the first ask. -/
theorem bestAsk_eq (h : Represents b p) : b.bestAsk = (p.side .sell).head?.map Order.price := by
  obtain ⟨r, href, hplaced, rfl⟩ := h
  rw [href.bestAsk_eq]
  exact (hplaced .sell).best_eq

/-- The best prices are those of the first levels of the snapshot. -/
theorem best_eq_first (h : Represents b p) {snap : BookSnapshot} (hsnap : b.snapshot = .ok snap) :
    b.bestBid = snap.bids.head?.map Prod.fst ∧ b.bestAsk = snap.asks.head?.map Prod.fst := by
  obtain ⟨r, href, -, -⟩ := h
  rw [href.snapshot_eq] at hsnap
  cases hsnap
  exact ⟨href.bestBid_eq, href.bestAsk_eq⟩

end Represents

/-! ## The snapshot of a priority book -/

/-- `snap` lists the orders of the priority book `p`, each on the level of its price. -/
def Depicts (snap : BookSnapshot) (p : PriorityBook) : Prop :=
  ∃ L : (s : Side) → SideLadder s, (∀ s, snap.levels s = (L s).levels)
    ∧ ∀ s, (L s).Keyed Order.price ∧ (L s).flat = p.side s

theorem Represents.depicts {b : OrderBook} {p : PriorityBook} (h : Represents b p) {snap : BookSnapshot}
    (hsnap : b.snapshot = .ok snap) : Depicts snap p := by
  obtain ⟨L, hL, hsides⟩ := h.snapshot_ladders
  rw [hsnap] at hL
  cases hL
  exact ⟨L, fun s => by cases s <;> rfl, hsides⟩

/-- A run ends in a book whose snapshot is that of the priority book. -/
theorem run_depicts {mode : EventMode} {cmds : List ScenarioCommand} (h : OrderBook.NeverOverfull mode cmds) :
    ∃ b snap, OrderBook.run mode cmds = .ok (b, (priorityRun cmds).2) ∧ b.snapshot = .ok snap
      ∧ Depicts snap (priorityRun cmds).1 := by
  obtain ⟨b, hrun, hrep⟩ := run_represents h
  obtain ⟨snap, hsnap, -⟩ := hrep.snapshot_eq
  exact ⟨b, snap, hrun, hsnap, hrep.depicts hsnap⟩

namespace Depicts

variable {snap snap' : BookSnapshot} {p : PriorityBook}

theorem orders_eq (h : Depicts snap p) (s : Side) : snap.orders s = p.side s := by
  obtain ⟨L, hlevels, hsides⟩ := h
  rw [← (hsides s).2]
  unfold BookSnapshot.orders Ladder.flat
  rw [hlevels]

theorem ids_eq (h : Depicts snap p) : snap.ids = p.orders.map Order.id := by
  unfold BookSnapshot.ids PriorityBook.orders
  rw [h.orders_eq, h.orders_eq]

/-- A priority book has one snapshot. -/
theorem eq (h : Depicts snap p) (h' : Depicts snap' p) : snap = snap' := by
  obtain ⟨L, hlevels, hsides⟩ := h
  obtain ⟨L', hlevels', hsides'⟩ := h'
  have hside : ∀ s, snap.levels s = snap'.levels s := by
    intro s
    have hL : L s = L' s := (hsides s).1.ext_flat (hsides' s).1 ((hsides s).2.trans (hsides' s).2.symm)
    rw [hlevels, hlevels', hL]
  cases snap
  cases snap'
  exact congrArg₂ BookSnapshot.mk (hside .buy) (hside .sell)

end Depicts
end LimitOrderBook
