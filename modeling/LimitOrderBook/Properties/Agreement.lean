import LimitOrderBook.Refinement.Run

/-!
# `Properties.Agreement` — the book and the reference book are indistinguishable

What a caller sees of the book, call by call, is what a caller of the reference book sees.
-/

namespace LimitOrderBook

/-- **The book refines the reference book.** In every event mode and after every part `done` of a run,
    every call so far returned what the reference book returns, and the snapshot, the best prices and the
    order count are those of the reference book. -/
theorem orderBook_refines_reference (mode : EventMode) (cmds : List ScenarioCommand)
    (hroom : OrderBook.NeverOverfull mode cmds) (done : List ScenarioCommand) (hdone : done <+: cmds) :
    ∃ b, OrderBook.run mode done = .ok (b, (Machine.run ReferenceBook.exec {} done).2)
      ∧ b.snapshot = .ok (Machine.run ReferenceBook.exec {} done).1.snapshot
      ∧ b.bestBid = (Machine.run ReferenceBook.exec {} done).1.bestBid
      ∧ b.bestAsk = (Machine.run ReferenceBook.exec {} done).1.bestAsk
      ∧ b.restingOrderCount = (Machine.run ReferenceBook.exec {} done).1.restingOrderCount := by
  obtain ⟨b, hrun, href⟩ := run_refines (hroom.of_prefix hdone)
  exact ⟨b, hrun, href.snapshot_eq, href.bestBid_eq, href.bestAsk_eq, href.restingOrderCount_eq⟩

theorem orderBook_refines_reference_session :
    ∃ b, OrderBook.run .full session = .ok (b, (Machine.run ReferenceBook.exec {} session).2)
      ∧ b.snapshot = .ok (Machine.run ReferenceBook.exec {} session).1.snapshot
      ∧ b.bestBid = (Machine.run ReferenceBook.exec {} session).1.bestBid
      ∧ b.bestAsk = (Machine.run ReferenceBook.exec {} session).1.bestAsk
      ∧ b.restingOrderCount = (Machine.run ReferenceBook.exec {} session).1.restingOrderCount :=
  orderBook_refines_reference .full session (by decide +kernel) session List.prefix_rfl

/-- At the end of the session only the ask that nobody reached is left. -/
example : (Machine.run ReferenceBook.exec {} session).1.snapshot
    = ⟨[], [(107, [⟨4, .sell, 107, 1⟩])]⟩ := by decide +kernel

end LimitOrderBook
