import Mathlib.Order.Bounds.Basic
import LimitOrderBook.Refinement.Kept
import LimitOrderBook.Refinement.Run

/-!
# `Properties.ArenaPeak` — how long the arena gets

How long the arena gets. Only an insertion can lengthen the arena, and only when no slot is vacant. Every call inserts
at most once, after everything it removes, so the arena is as long as the largest number of orders that rested at
once.

`Sized` is what removing, writing and trading keep of an arena: its free list, its length, and a bound on what it
stores (`kept_sized`, for the rules of `Refinement.Kept`). The insertion at the end makes the length the greater of
what it was and what is stored then (`restOrder_sized`), and so does a call (`exec_sized`). `restingCounts` are the
numbers of resting orders after the prefixes of a run, and `entries_size_is_peak` the law for every run and for each
of its prefixes.
-/

namespace LimitOrderBook

/-! ## One call -/

namespace OrderArena

/-- The arena has a free list, `size` entries, and at most `bound` stored orders. -/
def Sized (size bound : Nat) (a : OrderArena) (_ : List Trade) : Prop :=
  (∃ free, a.FreeList free) ∧ a.entries.size = size ∧ a.len ≤ bound

variable {size bound : Nat} {a a' : OrderArena} {ts : List Trade}

/-- A removal lowers the bound. -/
theorem Sized.remove (h : a.Sized size bound ts) {s : Slot} {o : Order} (hremove : a.remove s = .ok (a', o)) :
    0 < bound ∧ a'.Sized size (bound - 1) ts := by
  obtain ⟨⟨free, hfree⟩, hsize, hlen⟩ := h
  obtain ⟨n, hn⟩ := of_remove hremove
  obtain ⟨a₁, hremove₁, -, hlen₁, hsize₁, hfree₁⟩ := remove_spec hfree hn
  rw [hremove] at hremove₁
  cases hremove₁
  exact ⟨by omega, ⟨_, hfree₁⟩, hsize₁.trans hsize, by omega⟩

/-- Writing, removing and trading keep it. -/
theorem kept_sized (size bound : Nat) : Kept (Sized size bound) where
  write := by
    rintro a a' ts s w ⟨⟨free, hfree⟩, hsize, hlen⟩ hwrite -
    obtain ⟨n, hn⟩ := of_getMut hwrite
    obtain ⟨a₁, hwrite₁, -, hlen₁, hsize₁, hfree₁⟩ := getMut_spec hn w
    rw [hwrite] at hwrite₁
    cases hwrite₁
    exact ⟨⟨free, hfree₁ free hfree⟩, hsize₁.trans hsize, hlen₁.trans_le hlen⟩
  remove := by
    rintro a a' ts s o h hremove
    obtain ⟨-, hfree, hsize, hlen⟩ := h.remove hremove
    exact ⟨hfree, hsize, hlen.trans (Nat.sub_le _ _)⟩
  trade h _ _ _ _ := h

theorem keptByWrites_len (n : Nat) : KeptByWrites fun a _ => a.len = n where
  write := by
    rintro a a' ts s w h hwrite -
    obtain ⟨node, hnode⟩ := of_getMut hwrite
    obtain ⟨a₁, hwrite₁, -, hlen₁, -, -⟩ := getMut_spec hnode w
    rw [hwrite] at hwrite₁
    cases hwrite₁
    exact hlen₁.trans h

end OrderArena

namespace OrderBook

variable {b b' : OrderBook} {incoming : Order} {c : ScenarioCommand} {trades : List Trade} {size bound : Nat}

/-- Resting an order takes a vacant slot, or a new one when there is none. -/
theorem restOrder_sized (h : b.arena.Sized size bound trades) {rest : Order}
    (hrest : b.restOrder rest = .ok b') (hroom : b'.arena.len ≤ 2 ^ 32) :
    b'.arena.Sized (max size b'.arena.len) (bound + 1) trades := by
  obtain ⟨⟨free, hfree⟩, hsize, hlen⟩ := h
  obtain ⟨a, slot, hinsert, hlinks⟩ := of_restOrder hrest
  obtain ⟨a₁, slot₁, hinsert₁, hlen₁, -⟩ := OrderArena.insert_total hfree rest
  rw [hinsert] at hinsert₁
  cases hinsert₁
  have hsame : b'.arena.len = a.len := hlinks _ trades (OrderArena.keptByWrites_len a.len) rfl
  obtain ⟨a₂, slot₂, free₂, hinsert₂, -, -, -, hfree₂⟩ :=
    OrderArena.insert_spec hfree (by omega : b.arena.len < 2 ^ 32) rest
  rw [hinsert] at hinsert₂
  cases hinsert₂
  have hgrown := OrderArena.insert_size hfree hinsert
  obtain ⟨hfree', hsize', -⟩ := hlinks _ trades (OrderArena.kept_sized a.entries.size a.len).toKeptByWrites
    ⟨⟨free₂, hfree₂⟩, rfl, le_refl _⟩
  exact ⟨hfree', by omega, by omega⟩

/-- Submitting an order inserts once at most, at the end. -/
theorem matchIncoming_sized (h : b.arena.Sized size bound [])
    (hmatch : b.matchIncoming incoming = .ok (b', trades)) (hroom : b'.arena.len ≤ 2 ^ 32) :
    b'.arena.Sized (max size b'.arena.len) (bound + 1) trades := by
  rcases (OrderArena.kept_sized size bound).matchIncoming h hmatch with
    ⟨⟨free, hfree⟩, hsize, hlen⟩ | ⟨b₁, rest, hmatched, -, hrest⟩
  · have hcount := hfree.count
    exact ⟨⟨free, hfree⟩, by omega, by omega⟩
  · exact restOrder_sized hmatched hrest hroom

/-- **A call lengthens the arena only up to the orders that rest after it**, and only by adding. -/
theorem exec_sized (hfree : ∃ free, b.arena.FreeList free) {res : CommandResult}
    (hexec : b.exec c = .ok (b', res)) (hroom : b'.restingOrderCount ≤ 2 ^ 32) :
    (∃ free, b'.arena.FreeList free)
      ∧ b'.arena.entries.size = max b.arena.entries.size b'.restingOrderCount
      ∧ ((∀ o, c ≠ .add o) → b'.arena.entries.size = b.arena.entries.size) := by
  have hcount : b.arena.len ≤ b.arena.entries.size := by
    obtain ⟨free, hfree⟩ := hfree
    have hcount := hfree.count
    omega
  have hnow : b.arena.Sized b.arena.entries.size b.arena.len [] := ⟨hfree, rfl, le_refl _⟩
  change b'.arena.len ≤ 2 ^ 32 at hroom
  unfold restingOrderCount
  cases res with
  | error e =>
      rw [exec_rejected hexec]
      exact ⟨hfree, (max_eq_left hcount).symm, fun _ => rfl⟩
  | ok trades =>
      have hstep := exec_arenaStep hexec
      generalize b'.arena = arena at hroom hstep
      cases hstep with
      | added harena hmatch =>
          rw [← harena] at hnow
          obtain ⟨hfree', hsize', -⟩ := matchIncoming_sized hnow hmatch hroom
          exact ⟨hfree', harena ▸ hsize', fun hadd => absurd rfl (hadd _)⟩
      | cancelled hremove =>
          obtain ⟨a, slot, hunlinked, hfreed⟩ := (OrderArena.kept_sized _ _).removeOrderById hnow hremove
          obtain ⟨-, hfree', hsize', hlen'⟩ := hunlinked.remove hfreed
          exact ⟨hfree', by omega, fun _ => hsize'⟩
      | modified hremove hmatch =>
          obtain ⟨a, slot, hunlinked, hfreed⟩ := (OrderArena.kept_sized _ _).removeOrderById hnow hremove
          obtain ⟨hpos, hremoved⟩ := hunlinked.remove hfreed
          obtain ⟨hfree', hsize', hlen'⟩ := matchIncoming_sized hremoved hmatch hroom
          -- one order is taken out before at most one comes to rest
          exact ⟨hfree', hsize', fun _ => by omega⟩

end OrderBook

/-! ## Runs -/

/-- How many orders rested after some part of the run. -/
def restingCounts (mode : EventMode) (done : List ScenarioCommand) : Set Nat :=
  {n | ∃ early b results, early <+: done ∧ OrderBook.run mode early = .ok (b, results) ∧ b.restingOrderCount = n}

variable {mode : EventMode} {done : List ScenarioCommand} {c : ScenarioCommand}

theorem restingCounts_nil : restingCounts mode [] = {0} := by
  ext n
  constructor
  · rintro ⟨early, b, results, hearly, hrun, rfl⟩
    obtain rfl := List.prefix_nil.mp hearly
    cases hrun
    rfl
  · rintro rfl
    exact ⟨[], _, _, List.nil_prefix, rfl, rfl⟩

theorem restingCounts_snoc {b : OrderBook} {results : List CommandResult}
    (hrun : OrderBook.run mode (done ++ [c]) = .ok (b, results)) :
    restingCounts mode (done ++ [c]) = insert b.restingOrderCount (restingCounts mode done) := by
  ext n
  constructor
  · rintro ⟨early, b', results', hearly, hrun', rfl⟩
    rcases List.prefix_concat_iff.mp hearly with rfl | hearly
    · rw [hrun] at hrun'
      cases hrun'
      exact Or.inl rfl
    · exact Or.inr ⟨early, b', results', hearly, hrun', rfl⟩
  · rintro (rfl | ⟨early, b', results', hearly, hrun', rfl⟩)
    · exact ⟨_, b, results, List.prefix_refl _, hrun, rfl⟩
    · exact ⟨early, b', results', hearly.trans (List.prefix_append _ _), hrun', rfl⟩

/-- **The arena is as long as the run's peak**: after every part of a run its entries are exactly as many as
    the largest number of orders that rested after some part so far. So a call that adds nothing never
    lengthens it, and neither does one that stays within the earlier peak. -/
theorem entries_size_is_peak (mode : EventMode) (cmds : List ScenarioCommand)
    (hroom : OrderBook.NeverOverfull mode cmds) (done : List ScenarioCommand) (hdone : done <+: cmds) :
    ∃ b results, OrderBook.run mode done = .ok (b, results)
      ∧ IsGreatest (restingCounts mode done) b.arena.entries.size
      ∧ ∀ c b' res, done ++ [c] <+: cmds → b.exec c = .ok (b', res) →
          (∀ o, c ≠ .add o) ∨ b'.restingOrderCount ≤ b.arena.entries.size →
          b'.arena.entries.size = b.arena.entries.size := by
  -- a call after a part of the run, with the room that its result has
  have hcall : ∀ done c, done ++ [c] <+: cmds → ∃ b b' results res, OrderBook.run mode done = .ok (b, results)
      ∧ b.exec c = .ok (b', res) ∧ OrderBook.run mode (done ++ [c]) = .ok (b', results ++ [res])
      ∧ b'.restingOrderCount ≤ 2 ^ 32 := by
    intro done c hdone
    obtain ⟨b, b', hrun, -, hexec, hrep⟩ := run_represents_snoc (hroom.of_prefix hdone)
    refine ⟨b, b', _, _, hrun, hexec, ?_, ?_⟩
    · refine (Machine.tryRun_append hrun [c]).trans ?_
      rw [Machine.tryRun_cons hexec]
      rfl
    · have hlength := neverOverfull_iff_priority.mp hroom _ hdone
      rw [priorityRun_append, Machine.run_cons, Machine.run_nil] at hlength
      rw [hrep.restingOrderCount_eq]
      exact hlength
  have hpeak : ∃ b results, OrderBook.run mode done = .ok (b, results)
      ∧ (∃ free, b.arena.FreeList free) ∧ IsGreatest (restingCounts mode done) b.arena.entries.size := by
    induction done using List.reverseRecOn with
    | nil =>
        refine ⟨_, _, rfl, ⟨[], OrderArena.freeList_empty⟩, ?_⟩
        rw [restingCounts_nil]
        exact isGreatest_singleton
    | append_singleton done c ih =>
        obtain ⟨b, results, hrun, hfree, hgreatest⟩ := ih ((List.prefix_append _ _).trans hdone)
        obtain ⟨b₀, b', results₀, res, hrun₀, hexec, hrun', hroom'⟩ := hcall done c hdone
        rw [hrun] at hrun₀
        cases hrun₀
        obtain ⟨hfree', hsize, -⟩ := OrderBook.exec_sized hfree hexec hroom'
        refine ⟨b', _, hrun', hfree', ?_⟩
        rw [restingCounts_snoc hrun', hsize, max_comm]
        exact hgreatest.insert _
  obtain ⟨b, results, hrun, hfree, hgreatest⟩ := hpeak
  refine ⟨b, results, hrun, hgreatest, ?_⟩
  intro c b' res hnext hexec hno
  obtain ⟨b₀, b'₀, results₀, res₀, hrun₀, hexec₀, -, hroom'⟩ := hcall done c hnext
  rw [hrun] at hrun₀
  cases hrun₀
  rw [hexec] at hexec₀
  cases hexec₀
  obtain ⟨-, hsize, hkeep⟩ := OrderBook.exec_sized hfree hexec hroom'
  rcases hno with hadd | hbelow
  · exact hkeep hadd
  · rw [hsize, max_eq_left hbelow]

/-- After the session the arena is as long as its peak. -/
theorem entries_size_is_peak_session :
    ∃ b results, OrderBook.run .full session = .ok (b, results)
      ∧ IsGreatest (restingCounts .full session) b.arena.entries.size := by
  obtain ⟨b, results, hrun, hpeak, -⟩ := entries_size_is_peak .full session (by decide +kernel) session
    (List.prefix_refl _)
  exact ⟨b, results, hrun, hpeak⟩

end LimitOrderBook
