import LimitOrderBook.Properties.Replay
import LimitOrderBook.Refinement.Run
import LimitOrderBook.Replay.Mode

/-!
# `Properties.ReplayReport` — the book and the trades of one report

The book and the trades of one report. The replay mode of the program rebuilds a book from a list of events and
reports it together with the trades that the list records.

Replay passes over the trades that a list records, so the list decides the book by its commands alone
(`replayFrom_commands`), and what it records of trades is neither used nor checked. The rebuilt book has made its own
trades, and they stand in its log. The two agree on the log of a run, also on a log that is cut, unless the cut
separates a command from its trades: `events_of_cut` says what a cut can leave.

`runReplayMode_eq_ok_iff` says when there is a report and what is in it. `replay_mode_reports` is the result for any
list whose commands a book accepts: there is a report exactly if the snapshot returns, its view of the book is that of
the rebuilt book, and its view of the trades is that of the list. `replay_mode_misses_trade` is a list on which the
two differ.
-/

namespace LimitOrderBook

open OrderBook

/-- The event that reports a command. -/
def ScenarioCommand.event : ScenarioCommand → BookEvent
  | .add order => .orderAccepted order
  | .cancel orderId => .orderCancelled orderId
  | .modify orderId newPrice newQuantity => .orderModified orderId newPrice newQuantity

variable {b b' r : OrderBook} {cmds later : List ScenarioCommand} {results : List CommandResult}
  {es : List BookEvent}

/-! ## Replay and commands -/

/-- **The commands decide**: replaying some events is replaying the commands among them. -/
theorem replayFrom_commands (b : OrderBook) (es : List BookEvent) :
    replayFrom b es = replayFrom b ((es.filterMap BookEvent.command?).map ScenarioCommand.event) := by
  induction es generalizing b with
  | nil => rfl
  | cons e es ih =>
      cases e with
      | tradeExecuted trade => exact ih b
      | orderAccepted order =>
          refine bind_congr ?_
          rintro ⟨b', res⟩
          cases res with
          | error e => rfl
          | ok trades => exact ih b'
      | orderCancelled id =>
          refine bind_congr ?_
          rintro ⟨b', res⟩
          cases res with
          | error e => rfl
          | ok u => exact ih b'
      | orderModified id p q =>
          refine bind_congr ?_
          rintro ⟨b', res⟩
          cases res with
          | error e => rfl
          | ok trades => exact ih b'

/-- A replay that returns has made the call of its first command. -/
theorem of_replayFrom_event {c : ScenarioCommand} (h : replayFrom b (c.event :: es) = .ok (.ok r)) :
    ∃ b' trades, b.exec c = .ok (b', .ok trades) ∧ replayFrom b' es = .ok (.ok r) := by
  cases c with
  | add order =>
      unfold ScenarioCommand.event replayFrom at h
      obtain ⟨⟨b', res⟩, hcall, h⟩ := Machine.bind_eq_ok.mp h
      cases res with
      | error e => cases h
      | ok trades => exact ⟨b', trades, hcall, h⟩
  | cancel id =>
      unfold ScenarioCommand.event replayFrom at h
      obtain ⟨⟨b', res⟩, hcall, h⟩ := Machine.bind_eq_ok.mp h
      cases res with
      | error e => cases h
      | ok u => exact ⟨b', [], exec_cancel hcall, h⟩
  | modify id newPrice newQuantity =>
      unfold ScenarioCommand.event replayFrom at h
      obtain ⟨⟨b', res⟩, hcall, h⟩ := Machine.bind_eq_ok.mp h
      cases res with
      | error e => cases h
      | ok trades => exact ⟨b', trades, hcall, h⟩

/-- A replay of commands that returns is a run of them in which every call succeeds. -/
theorem tryRun_of_replayFrom (h : replayFrom b (cmds.map ScenarioCommand.event) = .ok (.ok r)) :
    ∃ results, Machine.tryRun exec b cmds = .ok (r, results) ∧ ∀ res ∈ results, res.isOk = true := by
  induction cmds generalizing b with
  | nil =>
      cases h
      exact ⟨[], rfl, fun res hres => by cases hres⟩
  | cons c cmds ih =>
      obtain ⟨b', trades, hexec, hrest⟩ := of_replayFrom_event h
      obtain ⟨results, hrun, hok⟩ := ih hrest
      refine ⟨.ok trades :: results, ?_, List.forall_mem_cons.mpr ⟨rfl, hok⟩⟩
      rw [Machine.tryRun_cons hexec, hrun]
      rfl

/-! ## Cut logs -/

/-- The events of a run that goes on are those of its two parts. -/
theorem runEvents_append {later' : List CommandResult} (h : Machine.tryRun exec b cmds = .ok (b', results)) :
    runEvents (cmds ++ later) (results ++ later') = runEvents cmds results ++ runEvents later later' := by
  induction cmds generalizing b results with
  | nil =>
      cases h
      rfl
  | cons c cmds ih =>
      obtain ⟨b₁, res, results', -, hrun, rfl⟩ := Machine.tryRun_cons_ok h
      rw [List.cons_append, List.cons_append, runEvents_cons, ih hrun, runEvents_cons, List.append_assoc]

/-- What a part of a run reports stands at the front of what the run reports. -/
theorem runEvents_prefix (h : Machine.tryRun exec b (cmds ++ later) = .ok (r, results)) :
    ∃ b' results' results'', Machine.tryRun exec b cmds = .ok (b', results')
      ∧ Machine.tryRun exec b' later = .ok (r, results'')
      ∧ runEvents (cmds ++ later) results = runEvents cmds results' ++ runEvents later results'' := by
  obtain ⟨b', results', results'', hfirst, hthen, rfl⟩ := Machine.tryRun_append_ok h
  exact ⟨b', results', results'', hfirst, hthen, runEvents_append hfirst⟩

/-- A run that reports anything reports a command first. -/
theorem runEvents_head (h : Machine.tryRun exec b cmds = .ok (b', results)) {e : BookEvent}
    (he : (runEvents cmds results).head? = some e) : e.command? ≠ none := by
  induction cmds generalizing b results with
  | nil =>
      cases h
      cases he
  | cons c cmds ih =>
      obtain ⟨b₁, res, results', hexec, hrun, rfl⟩ := Machine.tryRun_cons_ok h
      rw [runEvents_cons] at he
      cases res with
      | error e => exact ih hrun he
      | ok trades =>
          obtain ⟨e', he', hevents⟩ := callEvents_ok hexec
          rw [hevents] at he
          cases he
          rw [he']
          exact Option.some_ne_none c

/-- Events without a command are trades. -/
theorem eq_map_of_no_command (h : es.filterMap BookEvent.command? = []) :
    es = (tradesFromEvents es).map .tradeExecuted := by
  induction es with
  | nil => rfl
  | cons e es ih =>
      cases e with
      | tradeExecuted trade => exact congrArg _ (ih h)
      | orderAccepted order => cases h
      | orderCancelled id => cases h
      | orderModified id p q => cases h

/-- **A cut log**: the replayed book has the log up to the cut, and behind it only trades. -/
theorem events_of_cut (hrun : OrderBook.run .full cmds = .ok (b, results)) (hcut : es <+: b.events)
    (hreplay : replayEvents es = .ok (.ok r)) :
    (∃ trades : List Trade, r.events = es ++ trades.map .tradeExecuted) ∧ r.events <+: b.events := by
  have hevents := run_full_events hrun
  rw [hevents] at hcut
  obtain ⟨done, r₁, doneResults, ⟨later, rfl⟩, hdone, hreplay₁, hcmds, -⟩ := replayFrom_prefix hrun hcut
  obtain rfl : r₁ = r := Except.ok.inj (Except.ok.inj (hreplay₁.symm.trans hreplay))
  obtain ⟨b', results', results'', hfirst, hlater, hsplit⟩ := runEvents_prefix hrun
  rw [hdone] at hfirst
  cases hfirst
  have hlog := run_full_events hdone
  have hsame : es.filterMap BookEvent.command? = r₁.events.filterMap BookEvent.command? := by
    rw [hlog, filterMap_command?_runEvents hdone]
    exact hcmds
  rw [hsplit, ← hlog] at hcut hevents
  rw [hevents]
  refine ⟨?_, List.prefix_append _ _⟩
  rcases List.prefix_or_prefix_of_prefix hcut (List.prefix_append _ _) with hshort | hlong
  · obtain ⟨rest, hrest⟩ := hshort
    rw [← hrest, List.filterMap_append, List.self_eq_append_right] at hsame
    refine ⟨tradesFromEvents rest, ?_⟩
    rw [← eq_map_of_no_command hsame]
    exact hrest.symm
  · -- a longer cut would begin with the next command
    obtain ⟨rest, rfl⟩ := hlong
    rw [List.filterMap_append, List.append_right_eq_self] at hsame
    obtain ⟨tail, htail⟩ := (List.prefix_append_right_inj _).mp hcut
    cases rest with
    | nil => exact ⟨[], by simp⟩
    | cons e rest =>
        have hhead := runEvents_head hlater (e := e) (by rw [← htail]; rfl)
        obtain ⟨c, hc⟩ := Option.ne_none_iff_exists'.mp hhead
        rw [List.filterMap_cons_some hc] at hsame
        cases hsame

/-! ## The report -/

/-- **The report of a replay**: it is there exactly if the snapshot is. -/
theorem runReplayMode_eq_ok_iff (hreplay : replayEvents es = .ok (.ok r)) {report : ReplayReport} :
    runReplayMode es = .ok (.ok report)
      ↔ r.snapshot = .ok report.snapshot ∧ report.bestBid = r.bestBid ∧ report.bestAsk = r.bestAsk
        ∧ report.restingOrders = r.restingOrderCount
        ∧ report.bookMetrics = calculateBookMetrics report.snapshot
        ∧ report.tradeMetrics = calculateTradeMetrics (tradesFromEvents es) := by
  unfold runReplayMode
  rw [hreplay, Machine.ok_bind]
  dsimp only
  constructor
  · intro h
    obtain ⟨snapshot, hsnap, h⟩ := Machine.bind_eq_ok.mp h
    cases h
    exact ⟨hsnap, rfl, rfl, rfl, rfl, rfl⟩
  · rintro ⟨hsnap, hbid, hask, hcount, hbook, htrades⟩
    rw [hsnap, Machine.ok_bind, ← hbid, ← hask, ← hcount, ← hbook, ← htrades]
    rfl

/-- **What a replay reports.** If replaying `es` returns `r`, then a run of the commands in `es` succeeds at
    every call and ends in `r`, whose log has the trades that the calls returned. The trades recorded in `es`
    play no part: every list with the same commands is accepted and replays to `r`. If `es` is the log of a
    full run, cut anywhere, then `r` has in its log what `es` records and behind it only trades, so the
    recorded trades are those of `r` exactly if `es` is its log. There is a report if and only if `r` has a
    snapshot, which it has if the commands never rest more than `2 ^ 32` orders. The report has the book of
    `r`, and it has the trades of `r` if `es` records them. -/
theorem replay_mode_reports (es : List BookEvent) (r : OrderBook) (hreplay : replayEvents es = .ok (.ok r)) :
    (∃ results, OrderBook.run .full (es.filterMap BookEvent.command?) = .ok (r, results)
      ∧ (∀ res ∈ results, res.isOk = true) ∧ tradesFromEvents r.events = returnedTrades results)
    ∧ (∀ es', es'.filterMap BookEvent.command? = es.filterMap BookEvent.command? →
        replayEvents es' = .ok (.ok r))
    ∧ (∀ cmds b results, OrderBook.run .full cmds = .ok (b, results) → es <+: b.events →
        (∃ trades : List Trade, r.events = es ++ trades.map .tradeExecuted) ∧ r.events <+: b.events
        ∧ (tradesFromEvents es = tradesFromEvents r.events ↔ es = r.events))
    ∧ ((∃ report, runReplayMode es = .ok (.ok report)) ↔ ∃ snap, r.snapshot = .ok snap)
    ∧ (OrderBook.NeverOverfull .full (es.filterMap BookEvent.command?) → ∃ snap, r.snapshot = .ok snap)
    ∧ ∀ report, runReplayMode es = .ok (.ok report) →
        r.snapshot = .ok report.snapshot ∧ report.bestBid = r.bestBid ∧ report.bestAsk = r.bestAsk
        ∧ report.restingOrders = r.restingOrderCount
        ∧ report.bookMetrics = calculateBookMetrics report.snapshot
        ∧ (tradesFromEvents es = tradesFromEvents r.events →
          report.tradeMetrics = calculateTradeMetrics (tradesFromEvents r.events)) := by
  have hcommands : replayEvents ((es.filterMap BookEvent.command?).map ScenarioCommand.event)
      = .ok (.ok r) := (replayFrom_commands _ es).symm.trans hreplay
  obtain ⟨results, hrun, hok⟩ := tryRun_of_replayFrom hcommands
  refine ⟨⟨results, hrun, hok, ?_⟩, ?_, ?_, ?_, ?_, ?_⟩
  · rw [run_full_events hrun]
    exact runEvents_trades hrun
  · intro es' hsame
    rw [← hcommands, ← hsame]
    exact replayFrom_commands _ es'
  · intro cmds b results hlog hcut
    obtain ⟨⟨trades, hevents⟩, hpart⟩ := events_of_cut hlog hcut hreplay
    refine ⟨⟨trades, hevents⟩, hpart, ?_⟩
    rw [hevents, tradesFromEvents_append, tradesFromEvents_map, List.self_eq_append_right,
      List.self_eq_append_right, List.map_eq_nil_iff]
  · constructor
    · rintro ⟨report, hreport⟩
      exact ⟨report.snapshot, ((runReplayMode_eq_ok_iff hreplay).mp hreport).1⟩
    · rintro ⟨snap, hsnap⟩
      exact ⟨⟨r.bestBid, r.bestAsk, r.restingOrderCount, snap, calculateBookMetrics snap,
        calculateTradeMetrics (tradesFromEvents es)⟩,
        (runReplayMode_eq_ok_iff hreplay).mpr ⟨hsnap, rfl, rfl, rfl, rfl, rfl⟩⟩
  · intro hroom
    obtain ⟨b, snap, hrun', hsnap, -⟩ := run_depicts hroom
    obtain ⟨rfl, -⟩ := Prod.mk.inj (Except.ok.inj (hrun'.symm.trans hrun))
    exact ⟨snap, hsnap⟩
  · intro report hreport
    obtain ⟨hsnap, hbid, hask, hcount, hbook, htrades⟩ := (runReplayMode_eq_ok_iff hreplay).mp hreport
    refine ⟨hsnap, hbid, hask, hcount, hbook, ?_⟩
    intro hsame
    rw [← hsame]
    exact htrades

/-- The log of two orders that trade, cut before the trade, replays to a book that has made the trade. The
    report on the whole log knows of it: its trade metrics are those of the replayed book, and they count one. -/
theorem replay_mode_reports_cut :
    ∃ (b : OrderBook) (results : List CommandResult) (r r' : OrderBook) (report : ReplayReport),
      OrderBook.run .full [.add ⟨1, .sell, 100, 5⟩, .add ⟨2, .buy, 100, 3⟩] = .ok (b, results)
      ∧ replayEvents (b.events.take 2) = .ok (.ok r)
      ∧ (∃ trades : List Trade, r.events = b.events.take 2 ++ trades.map .tradeExecuted)
      ∧ replayEvents b.events = .ok (.ok r')
      ∧ runReplayMode b.events = .ok (.ok report) ∧ report.restingOrders = 1
      ∧ report.tradeMetrics = calculateTradeMetrics (tradesFromEvents r'.events)
      ∧ report.tradeMetrics.tradeCount = 1 := by
  have hshown : (do
      let (b, _) ← OrderBook.run .full [.add ⟨1, .sell, 100, 5⟩, .add ⟨2, .buy, 100, 3⟩]
      let r ← replayEvents (b.events.take 2)
      let r' ← replayEvents b.events
      pure (b.events, r.map OrderBook.restingOrderCount,
        r'.map fun r' : OrderBook => (r'.restingOrderCount, tradesFromEvents r'.events)))
      = .ok ([.orderAccepted ⟨1, .sell, 100, 5⟩, .orderAccepted ⟨2, .buy, 100, 3⟩, .tradeExecuted ⟨1, 2, 100, 3⟩],
        .ok 1, .ok (1, [⟨1, 2, 100, 3⟩])) := by decide +kernel
  obtain ⟨⟨b, results⟩, hrun, hshown⟩ := Machine.bind_eq_ok.mp hshown
  obtain ⟨res, hreplay, hshown⟩ := Machine.bind_eq_ok.mp hshown
  obtain ⟨res', hreplay', hshown⟩ := Machine.bind_eq_ok.mp hshown
  obtain ⟨hlog, hcounts⟩ := Prod.mk.inj (Except.ok.inj hshown)
  obtain ⟨hcount, hwhole⟩ := Prod.mk.inj hcounts
  cases res with
  | error e => cases hcount
  | ok r =>
      cases res' with
      | error e => cases hwhole
      | ok r' =>
          obtain ⟨hcount', htrades⟩ := Prod.mk.inj (Except.ok.inj hwhole)
          obtain ⟨-, -, hcut, -⟩ := replay_mode_reports _ r hreplay
          obtain ⟨-, -, -, hreport, hroom, hsays⟩ := replay_mode_reports _ r' hreplay'
          obtain ⟨report, hreport⟩ := hreport.mpr (hroom (by rw [hlog]; decide +kernel))
          obtain ⟨-, -, -, hresting, -, hsame⟩ := hsays report hreport
          have hmetrics := hsame (by rw [htrades, hlog]; rfl)
          refine ⟨b, results, r, r', report, hrun, hreplay, (hcut _ b results hrun (List.take_prefix 2 _)).1, hreplay',
            hreport, hresting.trans hcount', hmetrics, ?_⟩
          rw [hmetrics, htrades]
          rfl

/-- Two orders that trade, and a list without the trade: it is accepted, the replayed book has made the trade
    and is empty, and the report knows of no trade. -/
theorem replay_mode_misses_trade :
    ∃ r report, replayEvents [.orderAccepted ⟨1, .sell, 100, 5⟩, .orderAccepted ⟨2, .buy, 100, 5⟩]
        = .ok (.ok r)
      ∧ runReplayMode [.orderAccepted ⟨1, .sell, 100, 5⟩, .orderAccepted ⟨2, .buy, 100, 5⟩]
        = .ok (.ok report)
      ∧ report.restingOrders = 0 ∧ report.tradeMetrics.tradeCount = 0
      ∧ tradesFromEvents r.events = [⟨1, 2, 100, 5⟩]
      ∧ tradesFromEvents [.orderAccepted ⟨1, .sell, 100, 5⟩, .orderAccepted ⟨2, .buy, 100, 5⟩]
        ≠ tradesFromEvents r.events := by
  have hreplay : (replayEvents [.orderAccepted ⟨1, .sell, 100, 5⟩, .orderAccepted ⟨2, .buy, 100, 5⟩]).map
      (fun res => res.map fun r => tradesFromEvents r.events) = .ok (.ok [⟨1, 2, 100, 5⟩]) := by
    decide +kernel
  have hreport : (runReplayMode [.orderAccepted ⟨1, .sell, 100, 5⟩, .orderAccepted ⟨2, .buy, 100, 5⟩]).map
      (fun res => res.map fun report => (report.restingOrders, report.tradeMetrics.tradeCount))
      = .ok (.ok (0, 0)) := by
    decide +kernel
  obtain ⟨r, hr, htrades⟩ := Machine.of_map_map_ok hreplay
  obtain ⟨report, hreport, hcounts⟩ := Machine.of_map_map_ok hreport
  refine ⟨r, report, hr, hreport, congrArg Prod.fst hcounts, congrArg Prod.snd hcounts, htrades, ?_⟩
  rw [htrades]
  exact (List.cons_ne_nil _ _).symm

end LimitOrderBook
