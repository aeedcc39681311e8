import LimitOrderBook.Refinement.Termination
import LimitOrderBook.Events.Log
import LimitOrderBook.Simulator.Runner

/-!
# `Properties.EventModes` — recording never influences matching

Recording never influences matching. One run is made on three books that differ in their event mode only. A run that
does not end is a panic, and then the same one in every mode; a run that ends does so with the same results and the
same book but for the log, and the three logs are views of one list of events: all of them, the trades alone, and
none.

`run_eq_full` gives the run in any mode from the one in full mode, by the lemmas of `Events.Log`; `results_withLog`
says that a later run goes on in the same way from the three books, and `trades_full` that the trades in the log are
those that were returned. The scenario runner gathers the trades itself, and stops at the first call that is rejected:
`runScenarioFrom_run` and `runScenarioFrom_of_run` relate it to a run.
-/

namespace LimitOrderBook

open OrderBook

/-! ## One run, three modes -/

/-- A run in any mode is the run in full mode with another log. -/
theorem run_eq_full (mode : EventMode) (cmds : List ScenarioCommand) :
    OrderBook.run mode cmds = (OrderBook.run .full cmds).map fun r =>
      (r.1.withLog (r.1.events.filter mode.keeps) { eventMode := mode }, r.2) := by
  have hstart : start mode = (start .full).withLog [] { eventMode := mode } := rfl
  unfold OrderBook.run
  rw [hstart, tryRun_withLog]
  cases hrun : Machine.tryRun exec (start .full) cmds with
  | error e => rfl
  -- the full log is everything the run reports, and the other modes keep a part of it
  | ok r =>
      have hevents : r.1.events = runEvents cmds r.2 := run_full_events hrun
      simp only [Except.map, hevents, List.nil_append]

/-- The modes keep everything, the trades, or nothing. -/
theorem keeps_tradesOnly : EventMode.tradesOnly.keeps = BookEvent.isTrade := by
  funext e
  cases e <;> rfl

theorem filter_disabled (es : List BookEvent) : es.filter EventMode.disabled.keeps = [] :=
  List.filter_eq_nil_iff.mpr fun e _ => by cases e <;> simp [EventMode.keeps]

/-- What a book returns later does not depend on its log. -/
theorem results_withLog (b : OrderBook) (events : List BookEvent) (config : OrderBookConfig)
    (later : List ScenarioCommand) :
    (Machine.tryRun exec (b.withLog events config) later).map Prod.snd
      = (Machine.tryRun exec b later).map Prod.snd := by
  rw [tryRun_withLog]
  cases Machine.tryRun exec b later <;> rfl

/-- What the log of a full run reports as trades is what its calls returned. -/
theorem trades_full {cmds : List ScenarioCommand} {b : OrderBook} {results : List CommandResult}
    (h : OrderBook.run .full cmds = .ok (b, results)) :
    tradesFromEvents b.events = returnedTrades results := by
  rw [run_full_events h]
  exact runEvents_trades h

/-! ## Scenarios -/

/-- A scenario that ends has made a run in which every call succeeded. -/
theorem runScenarioFrom_run {book : OrderBook} {allTrades : List Trade}
    {cmds : List ScenarioCommand} {result : ScenarioResult}
    (h : runScenarioFrom book allTrades cmds = .ok (.ok result)) :
    ∃ results, Machine.tryRun exec book cmds = .ok (result.book, results)
      ∧ result.trades = allTrades ++ returnedTrades results ∧ result.events = result.book.events := by
  induction cmds generalizing book allTrades with
  | nil =>
      cases h
      exact ⟨[], rfl, (List.append_nil _).symm, rfl⟩
  | cons c cmds ih =>
      -- each kind of call is an `exec`, and the loop goes on from what it returned
      have hgo : ∀ {b' : OrderBook} {trades : List Trade}, book.exec c = .ok (b', .ok trades) →
          runScenarioFrom b' (allTrades ++ trades) cmds = .ok (.ok result) →
          ∃ results, Machine.tryRun exec book (c :: cmds) = .ok (result.book, results)
            ∧ result.trades = allTrades ++ returnedTrades results
            ∧ result.events = result.book.events := by
        intro b' trades hexec hrest
        obtain ⟨results, hrun, htrades, hevents⟩ := ih hrest
        refine ⟨.ok trades :: results, ?_, ?_, hevents⟩
        · rw [Machine.tryRun_cons hexec, hrun]
          rfl
        · rw [htrades, returnedTrades_cons, returnedTrades_ok, List.append_assoc]
      cases c with
      | add order =>
          unfold runScenarioFrom at h
          obtain ⟨⟨b', res⟩, hcall, h⟩ := Machine.bind_eq_ok.mp h
          cases res with
          | error e => cases h
          | ok trades => exact hgo hcall h
      | cancel id =>
          unfold runScenarioFrom at h
          obtain ⟨⟨b', res⟩, hcall, h⟩ := Machine.bind_eq_ok.mp h
          cases res with
          | error e => cases h
          | ok u =>
              have hrest : runScenarioFrom b' (allTrades ++ []) cmds = .ok (.ok result) := by
                rw [List.append_nil]
                exact h
              exact hgo (exec_cancel hcall) hrest
      | modify id newPrice newQuantity =>
          unfold runScenarioFrom at h
          obtain ⟨⟨b', res⟩, hcall, h⟩ := Machine.bind_eq_ok.mp h
          cases res with
          | error e => cases h
          | ok trades => exact hgo hcall h

/-- A run in which every call succeeds is a scenario that ends. -/
theorem runScenarioFrom_of_run {book b : OrderBook} {allTrades : List Trade} {cmds : List ScenarioCommand}
    {results : List CommandResult} (h : Machine.tryRun exec book cmds = .ok (b, results))
    (hok : ∀ res ∈ results, res.isOk = true) :
    runScenarioFrom book allTrades cmds = .ok (.ok ⟨b, allTrades ++ returnedTrades results, b.events⟩) := by
  induction cmds generalizing book allTrades results with
  | nil =>
      cases h
      rw [returnedTrades_nil, List.append_nil]
      rfl
  | cons c cmds ih =>
      obtain ⟨b₁, res, results, hexec, hrest, rfl⟩ := Machine.tryRun_cons_ok h
      obtain ⟨hres, hlater⟩ := List.forall_mem_cons.mp hok
      cases res with
      | error e => cases hres
      | ok trades =>
          have hgo : runScenarioFrom b₁ (allTrades ++ trades) cmds = _ := ih hrest hlater
          rw [returnedTrades_cons, returnedTrades_ok, ← List.append_assoc, ← hgo]
          cases c with
          | add order =>
              have hcall : book.addOrder order = .ok (b₁, .ok trades) := hexec
              rw [runScenarioFrom, hcall]
              rfl
          | cancel id =>
              obtain rfl := exec_cancel_ok hexec
              unfold exec at hexec
              obtain ⟨⟨b₂, res⟩, hcall, hexec⟩ := Machine.bind_eq_ok.mp hexec
              cases res with
              | error e => cases hexec
              | ok u =>
                  cases hexec
                  rw [runScenarioFrom, hcall, List.append_nil]
                  rfl
          | modify id newPrice newQuantity =>
              have hcall : book.modifyOrder id newPrice newQuantity = .ok (b₁, .ok trades) := hexec
              rw [runScenarioFrom, hcall]
              rfl

/-! ## The law -/

/-- **Event recording never influences matching, and the three logs agree.** Either the run panics, in
    every mode in the same way, or it ends in every mode with the same results and with books that have
    the same snapshot and return the same from every later call; the trades-only log is the full log
    without its other events, the disabled log is empty, and both logs report exactly the trades that
    the calls returned. The trades of a scenario are the trades in its events. -/
theorem event_modes_agree (cmds : List ScenarioCommand) :
    ((∃ fault, fault ≠ .outOfFuel ∧ ∀ mode, OrderBook.run mode cmds = .error fault) ∨
      ∃ results full tradesOnly disabled,
        OrderBook.run .full cmds = .ok (full, results)
        ∧ OrderBook.run .tradesOnly cmds = .ok (tradesOnly, results)
        ∧ OrderBook.run .disabled cmds = .ok (disabled, results)
        ∧ tradesOnly.snapshot = full.snapshot ∧ disabled.snapshot = full.snapshot
        ∧ (∀ later,
            (Machine.tryRun exec tradesOnly later).map Prod.snd
                = (Machine.tryRun exec full later).map Prod.snd
            ∧ (Machine.tryRun exec disabled later).map Prod.snd
                = (Machine.tryRun exec full later).map Prod.snd)
        ∧ tradesOnly.events = full.events.filter BookEvent.isTrade
        ∧ disabled.events = []
        ∧ tradesFromEvents full.events = returnedTrades results
        ∧ tradesFromEvents tradesOnly.events = returnedTrades results)
    ∧ ∀ result, runScenario cmds = .ok (.ok result) →
        tradesFromEvents result.events = result.trades := by
  constructor
  · cases hrun : OrderBook.run .full cmds with
    | error fault =>
        refine Or.inl ⟨fault, ?_, ?_⟩
        · rintro rfl
          exact run_terminates _ cmds hrun
        · intro mode
          rw [run_eq_full, hrun]
          rfl
    | ok r =>
        obtain ⟨full, results⟩ := r
        refine Or.inr ⟨results, full, full.withLog (full.events.filter BookEvent.isTrade) ⟨.tradesOnly⟩,
          full.withLog [] ⟨.disabled⟩, rfl, ?_, ?_, rfl, rfl, ?_, rfl, rfl, trades_full hrun, ?_⟩
        · rw [run_eq_full, hrun, keeps_tradesOnly]
          rfl
        · rw [run_eq_full, hrun]
          simp only [Except.map, filter_disabled]
        · intro later
          exact ⟨results_withLog full _ _ later, results_withLog full _ _ later⟩
        · show tradesFromEvents (full.events.filter BookEvent.isTrade) = _
          rw [tradesFromEvents_filter]
          exact trades_full hrun
  · intro result h
    obtain ⟨results, hrun, htrades, hevents⟩ := runScenarioFrom_run h
    rw [hevents, htrades, List.nil_append]
    exact trades_full hrun

/-- A sell of five units that a buy of two trades with, and its cancel. -/
theorem event_modes_agree_scenario :
    ∃ result, runScenario [.add ⟨1, .sell, 100, 5⟩, .add ⟨2, .buy, 100, 2⟩, .cancel 1] = .ok (.ok result)
      ∧ tradesFromEvents result.events = result.trades := by
  have hends : ((runScenario [.add ⟨1, .sell, 100, 5⟩, .add ⟨2, .buy, 100, 2⟩, .cancel 1]).toOption.bind
      Except.toOption).isSome = true := by decide +kernel
  cases hrun : runScenario [.add ⟨1, .sell, 100, 5⟩, .add ⟨2, .buy, 100, 2⟩, .cancel 1] with
  | error fault =>
      rw [hrun] at hends
      cases hends
  | ok res =>
      cases res with
      | error e =>
          rw [hrun] at hends
          cases hends
      | ok result => exact ⟨result, rfl, (event_modes_agree _).2 result hrun⟩

end LimitOrderBook
