import LimitOrderBook.Engine.Api

/-!
# `Events.Log` — the event log is write-only

Nothing in the book reads its event log, and only the record helpers read its configuration. So a call on a book with
another log and another mode does the same to everything else, returns the same result, and appends the events of the
call that the mode keeps.

`callEvents` is what a call has to say, read off the command and its result. The record helpers append (`log`), and
`withLog` puts another log and configuration in a book; one lemma for each function of the book says that it commutes
with `withLog`, up to `exec_withLog` for any call and `tryRun_withLog` for any run. `run_full_events` follows: in the
mode that keeps everything, the log of a run is the events of its calls (`runEvents`).

Calls are compared as they are, faults included: nothing here needs the book to be reachable. The same holds for the
facts about rejected calls, which leave the book as it was (`exec_rejected`). The last part reads the trades off a
log: those of a full log are the ones that the calls returned (`runEvents_trades`).
-/

namespace LimitOrderBook

/-- The events that a mode keeps. -/
def EventMode.keeps : EventMode → BookEvent → Bool
  | .full, _ => true
  | .tradesOnly, .tradeExecuted _ => true
  | .tradesOnly, _ => false
  | .disabled, _ => false

/-- What a call has to report, in any mode: a rejected call nothing, a successful one itself and then
    its trades. -/
def callEvents : ScenarioCommand → CommandResult → List BookEvent
  | _, .error _ => []
  | .add order, .ok trades => .orderAccepted order :: trades.map .tradeExecuted
  | .cancel id, .ok _ => [.orderCancelled id]
  | .modify id newPrice newQuantity, .ok trades =>
      .orderModified id newPrice newQuantity :: trades.map .tradeExecuted

/-- What a run has to report. -/
def runEvents (cmds : List ScenarioCommand) (results : List CommandResult) : List BookEvent :=
  (List.zipWith callEvents cmds results).flatten

/-- The events of the first call come first. -/
theorem runEvents_cons (c : ScenarioCommand) (cmds : List ScenarioCommand) (res : CommandResult)
    (results : List CommandResult) :
    runEvents (c :: cmds) (res :: results) = callEvents c res ++ runEvents cmds results := rfl

namespace OrderBook

variable {b b' : OrderBook} {events : List BookEvent} {config : OrderBookConfig}

/-- `b` with another log and another configuration. -/
def withLog (b : OrderBook) (events : List BookEvent) (config : OrderBookConfig) : OrderBook :=
  { b with events := events, config := config }

@[simp] theorem withLog_self (b : OrderBook) : b.withLog b.events b.config = b := rfl

@[simp] theorem withLog_withLog (b : OrderBook) (events events' : List BookEvent)
    (config config' : OrderBookConfig) :
    (b.withLog events config).withLog events' config' = b.withLog events' config' := rfl

/-- Append the events that the book's mode keeps. -/
def log (b : OrderBook) (events : List BookEvent) : OrderBook :=
  b.withLog (b.events ++ events.filter b.config.eventMode.keeps) b.config

/-- Logging twice is logging both at once. -/
theorem log_log (b : OrderBook) (es fs : List BookEvent) : (b.log es).log fs = b.log (es ++ fs) := by
  unfold log withLog
  rw [List.filter_append, ← List.append_assoc]

/-- What is logged comes behind the log, as far as the mode keeps it. -/
theorem withLog_log (b : OrderBook) (es : List BookEvent) :
    (b.withLog events config).log es
      = b.withLog (events ++ es.filter config.eventMode.keeps) config := rfl

/-! ## The record helpers append to the log -/

theorem recordOrderAccepted_eq (b : OrderBook) (order : Order) :
    b.recordOrderAccepted order = b.log [.orderAccepted order] := by
  unfold recordOrderAccepted log withLog
  cases h : b.config.eventMode <;> simp [List.filter, EventMode.keeps]

theorem recordTradeExecuted_eq (b : OrderBook) (trade : Trade) :
    b.recordTradeExecuted trade = b.log [.tradeExecuted trade] := by
  unfold recordTradeExecuted log withLog
  cases h : b.config.eventMode <;> simp [List.filter, EventMode.keeps]

theorem recordOrderCancelled_eq (b : OrderBook) (id : OrderId) :
    b.recordOrderCancelled id = b.log [.orderCancelled id] := by
  unfold recordOrderCancelled log withLog
  cases h : b.config.eventMode <;> simp [List.filter, EventMode.keeps]

theorem recordOrderModified_eq (b : OrderBook) (id : OrderId) (newPrice : Price)
    (newQuantity : Quantity) :
    b.recordOrderModified id newPrice newQuantity
      = b.log [.orderModified id newPrice newQuantity] := by
  unfold recordOrderModified log withLog
  cases h : b.config.eventMode <;> simp [List.filter, EventMode.keeps]

/-- Recording trades logs them one after the other. -/
theorem recordTrades_eq (b : OrderBook) (trades : List Trade) :
    b.recordTrades trades = b.log (trades.map .tradeExecuted) := by
  unfold recordTrades
  induction trades generalizing b with
  | nil => simp [log]
  | cons t ts ih =>
      rw [List.foldl_cons, ih, recordTradeExecuted_eq, log_log]
      rfl

/-! ## Nothing else reads or writes the log -/

@[simp] theorem levels_withLog (b : OrderBook) (s : Side) :
    (b.withLog events config).levels s = b.levels s := by cases s <;> rfl

@[simp] theorem bids_withLog (b : OrderBook) : (b.withLog events config).bids = b.bids := rfl

@[simp] theorem asks_withLog (b : OrderBook) : (b.withLog events config).asks = b.asks := rfl

@[simp] theorem arena_withLog (b : OrderBook) : (b.withLog events config).arena = b.arena := rfl

@[simp] theorem orderSlots_withLog (b : OrderBook) :
    (b.withLog events config).orderSlots = b.orderSlots := rfl

@[simp] theorem seenOrderIds_withLog (b : OrderBook) :
    (b.withLog events config).seenOrderIds = b.seenOrderIds := rfl

/-- Resting an order is the same with another log. -/
theorem restOrder_withLog (b : OrderBook) (order : Order) :
    (b.withLog events config).restOrder order
      = (b.restOrder order).map fun b' => b'.withLog events config := by
  unfold restOrder
  rw [levels_withLog, arena_withLog]
  cases b.arena.insert order with
  | error e => rfl
  | ok r =>
      simp only [Machine.ok_bind]
      cases (((b.levels order.side)[order.price]?).getD {}).pushBack r.1 r.2 with
      | error e => rfl
      | ok r => cases order.side <;> rfl

theorem removeOrderById_withLog (b : OrderBook) (id : OrderId) :
    (b.withLog events config).removeOrderById id
      = (b.removeOrderById id).map fun r => (r.1.withLog events config, r.2) := by
  unfold removeOrderById
  rw [orderSlots_withLog, arena_withLog]
  cases b.orderSlots[id]? with
  | none => rfl
  | some slot =>
      dsimp only
      cases b.arena.get slot with
      | error e => rfl
      | ok node =>
          simp only [Machine.ok_bind]
          cases node.order.side with
          | buy =>
              simp only [levels, bids_withLog]
              cases b.bids[node.order.price]? with
              | none =>
                  simp only [Machine.pure_eq_ok, Machine.ok_bind]
                  cases b.arena.remove slot <;> rfl
              | some level =>
                  dsimp only
                  cases level.unlink b.arena slot with
                  | error e => rfl
                  | ok r =>
                      simp only [Machine.pure_eq_ok, Machine.ok_bind, putLevel, setLevels]
                      cases r.2.remove slot <;> rfl
          | sell =>
              simp only [levels, asks_withLog]
              cases b.asks[node.order.price]? with
              | none =>
                  simp only [Machine.pure_eq_ok, Machine.ok_bind]
                  cases b.arena.remove slot <;> rfl
              | some level =>
                  dsimp only
                  cases level.unlink b.arena slot with
                  | error e => rfl
                  | ok r =>
                      simp only [Machine.pure_eq_ok, Machine.ok_bind, putLevel, setLevels]
                      cases r.2.remove slot <;> rfl

/-- Neither loop of the matching looks at the log. -/
theorem matchAtLevel_withLog (b : OrderBook) (s : Side) (p : Price) (incoming : Order)
    (trades : List Trade) :
    (b.withLog events config).matchAtLevel s p incoming trades
      = (b.matchAtLevel s p incoming trades).map fun r => (r.1.withLog events config, r.2) := by
  unfold matchAtLevel
  rw [levels_withLog, arena_withLog, orderSlots_withLog]
  cases (b.levels s)[p]? with
  | none => rfl
  | some level =>
      dsimp only
      cases LevelCursor.drain p (b.arena.entries.size + 1) ⟨level, b.arena, b.orderSlots, incoming, trades⟩ with
      | error e => rfl
      | ok c => cases s <;> rfl

/-- The loop does not read the log when its view of the best price does not. -/
theorem matchLoop_withLog {s : Side} {best : OrderBook → Option Price} {beyond : Price → Price → Bool}
    (hbest : ∀ b : OrderBook, best (b.withLog events config) = best b) (fuel : Nat) (b : OrderBook)
    (incoming : Order) (trades : List Trade) :
    matchLoop s best beyond fuel (b.withLog events config) incoming trades
      = (matchLoop s best beyond fuel b incoming trades).map fun r =>
          (r.1.withLog events config, r.2) := by
  induction fuel generalizing b incoming trades with
  | zero =>
      unfold matchLoop
      rw [hbest]
      cases best b with
      | none => split <;> rfl
      | some p =>
          dsimp only
          split
          · rfl
          · split <;> rfl
  | succ fuel ih =>
      unfold matchLoop
      rw [hbest]
      cases best b with
      | none => split <;> rfl
      | some p =>
          dsimp only
          split
          · rfl
          · split
            · rfl
            · rw [matchAtLevel_withLog]
              cases b.matchAtLevel s p incoming trades with
              | error e => rfl
              | ok r => exact ih r.1 r.2.1 r.2.2

theorem matchOrder_withLog {s : Side} {best : OrderBook → Option Price} {beyond : Price → Price → Bool}
    (hbest : ∀ b : OrderBook, best (b.withLog events config) = best b) (b : OrderBook)
    (incoming : Order) :
    (b.withLog events config).matchOrder s best beyond incoming
      = (b.matchOrder s best beyond incoming).map fun r => (r.1.withLog events config, r.2) := by
  unfold matchOrder
  rw [matchLoop_withLog hbest, levels_withLog]
  cases matchLoop s best beyond (b.levels s).size b incoming [] with
  | error e => rfl
  | ok r =>
      obtain ⟨b₁, left, trades⟩ := r
      simp only [Except.map, Machine.ok_bind]
      split
      · rfl
      · rw [restOrder_withLog]
        cases b₁.restOrder left <;> rfl

/-- So submitting an order does not, either. -/
theorem matchIncoming_withLog (b : OrderBook) (incoming : Order) :
    (b.withLog events config).matchIncoming incoming
      = (b.matchIncoming incoming).map fun r => (r.1.withLog events config, r.2) := by
  rw [matchIncoming_eq, matchIncoming_eq]
  refine matchOrder_withLog (fun b => ?_) b incoming
  cases incoming.side <;> rfl

/-! ## Calls and runs -/

/-- Logging in two parts is logging once. -/
theorem filter_append_keeps (mode : EventMode) (events : List BookEvent) (e : BookEvent)
    (es : List BookEvent) :
    events ++ [e].filter mode.keeps ++ es.filter mode.keeps = events ++ (e :: es).filter mode.keeps := by
  rw [List.append_assoc, ← List.filter_append, List.singleton_append]

/-- A call on a book with another log appends its events to that log. -/
theorem addOrder_withLog (b : OrderBook) (order : Order) :
    (b.withLog events config).addOrder order = (b.addOrder order).map fun r =>
      (r.1.withLog (events ++ (callEvents (.add order) r.2).filter config.eventMode.keeps) config,
        r.2) := by
  unfold addOrder
  rw [seenOrderIds_withLog]
  split
  · simp [callEvents, Except.map]
  · split
    · simp [callEvents, Except.map]
    · show (((OrderBook.withLog { b with seenOrderIds := insert order.id b.seenOrderIds } events
        config).recordOrderAccepted order).matchIncoming order >>= _) = Except.map _
          ((OrderBook.recordOrderAccepted { b with seenOrderIds := insert order.id b.seenOrderIds }
            order).matchIncoming order >>= _)
      rw [recordOrderAccepted_eq, recordOrderAccepted_eq, withLog_log]
      unfold log
      rw [matchIncoming_withLog, matchIncoming_withLog]
      cases matchIncoming { b with seenOrderIds := insert order.id b.seenOrderIds } order with
      | error e => rfl
      | ok r =>
          simp only [Except.map, Machine.ok_bind, Machine.pure_eq_ok, recordTrades_eq, withLog_log,
            withLog_withLog, callEvents]
          rw [filter_append_keeps]

theorem cancelOrder_withLog (b : OrderBook) (id : OrderId) :
    (b.withLog events config).exec (.cancel id) = (b.exec (.cancel id)).map fun r =>
      (r.1.withLog (events ++ (callEvents (.cancel id) r.2).filter config.eventMode.keeps) config,
        r.2) := by
  simp only [exec, cancelOrder, removeOrderById_withLog]
  cases b.removeOrderById id with
  | error e => rfl
  | ok r =>
      obtain ⟨b₁, old⟩ := r
      cases old with
      | none => simp [callEvents, Except.map]
      | some o =>
          simp only [Except.map, Machine.ok_bind, Machine.pure_eq_ok, recordOrderCancelled_eq,
            withLog_log, callEvents]
          rfl

theorem modifyOrder_withLog (b : OrderBook) (id : OrderId) (newPrice : Price)
    (newQuantity : Quantity) :
    (b.withLog events config).modifyOrder id newPrice newQuantity
      = (b.modifyOrder id newPrice newQuantity).map fun r =>
        (r.1.withLog (events ++ (callEvents (.modify id newPrice newQuantity) r.2).filter
          config.eventMode.keeps) config, r.2) := by
  unfold modifyOrder
  split
  · simp [callEvents, Except.map]
  · rw [removeOrderById_withLog]
    cases b.removeOrderById id with
    | error e => rfl
    | ok r =>
        obtain ⟨b₁, old⟩ := r
        cases old with
        | none => simp [callEvents, Except.map]
        | some o =>
            simp only [Except.map, Machine.ok_bind]
            rw [matchIncoming_withLog]
            cases b₁.matchIncoming (Order.new o.id o.side newPrice newQuantity) with
            | error e => rfl
            | ok r =>
                simp only [Except.map, Machine.ok_bind, Machine.pure_eq_ok, recordOrderModified_eq,
                  recordTrades_eq, withLog_log, log_log, callEvents]
                rfl

/-- **A call on a book with another log and mode** does the same to everything else, returns the same
    result, and appends its own events, as far as the mode keeps them. -/
theorem exec_withLog (b : OrderBook) (c : ScenarioCommand) :
    (b.withLog events config).exec c = (b.exec c).map fun r =>
      (r.1.withLog (events ++ (callEvents c r.2).filter config.eventMode.keeps) config, r.2) := by
  cases c with
  | add order => exact b.addOrder_withLog order
  | cancel id => exact b.cancelOrder_withLog id
  | modify id newPrice newQuantity => exact b.modifyOrder_withLog id newPrice newQuantity

/-! ## Rejected calls leave nothing behind -/

theorem removeOrderById_none {id : OrderId} (h : b.removeOrderById id = .ok (b', none)) : b' = b := by
  unfold removeOrderById at h
  split at h
  · injection h with h
    injection h with h _
    exact h.symm
  · obtain ⟨node, -, h⟩ := Machine.bind_eq_ok.mp h
    dsimp only at h
    split at h
    · simp only [Machine.pure_eq_ok, Machine.ok_bind] at h
      obtain ⟨r, -, h⟩ := Machine.bind_eq_ok.mp h
      cases h
    · simp only [Machine.pure_eq_ok, Machine.ok_bind] at h
      obtain ⟨r, -, h⟩ := Machine.bind_eq_ok.mp h
      obtain ⟨r', -, h⟩ := Machine.bind_eq_ok.mp h
      cases h

/-- **A rejected call leaves the book as it was**, in every field. -/
theorem exec_rejected {c : ScenarioCommand} {e : OrderBookError} (h : b.exec c = .ok (b', .error e)) :
    b' = b := by
  cases c with
  | add order =>
      unfold exec addOrder at h
      dsimp only at h
      split at h
      · cases h
        rfl
      · split at h
        · cases h
          rfl
        · obtain ⟨r, -, h⟩ := Machine.bind_eq_ok.mp h
          cases h
  | cancel id =>
      unfold exec cancelOrder at h
      obtain ⟨⟨b₁, res⟩, hcancel, h⟩ := Machine.bind_eq_ok.mp h
      obtain ⟨⟨b₂, old⟩, hremove, hcancel⟩ := Machine.bind_eq_ok.mp hcancel
      cases old with
      | none =>
          cases hcancel
          cases h
          exact removeOrderById_none hremove
      | some o =>
          cases hcancel
          cases h
  | modify id newPrice newQuantity =>
      unfold exec modifyOrder at h
      dsimp only at h
      split at h
      · cases h
        rfl
      · obtain ⟨⟨b₁, old⟩, hremove, h⟩ := Machine.bind_eq_ok.mp h
        cases old with
        | none =>
            cases h
            exact removeOrderById_none hremove
        | some o =>
            obtain ⟨r, -, h⟩ := Machine.bind_eq_ok.mp h
            cases h

/-- A cancel, as a call of `exec`. -/
theorem exec_cancel {id : OrderId} {res : Except OrderBookError Unit}
    (h : b.cancelOrder id = .ok (b', res)) :
    b.exec (.cancel id) = .ok (b', res.map fun _ => []) := by
  simp only [exec, h, Machine.ok_bind]
  rfl

/-- A cancel returns no trades. -/
theorem exec_cancel_ok {id : OrderId} {trades : List Trade}
    (h : b.exec (.cancel id) = .ok (b', .ok trades)) : trades = [] := by
  unfold exec at h
  obtain ⟨⟨b₁, res⟩, -, h⟩ := Machine.bind_eq_ok.mp h
  cases res with
  | error e => cases h
  | ok u =>
      cases h
      rfl

/-! ## Runs -/

/-- **A run with another log and mode** does the same to everything else, returns the same results, and
    logs the events of the run, as far as the mode keeps them. -/
theorem tryRun_withLog (b : OrderBook) (cmds : List ScenarioCommand) :
    Machine.tryRun exec (b.withLog events config) cmds
      = (Machine.tryRun exec b cmds).map fun r =>
        (r.1.withLog (events ++ (runEvents cmds r.2).filter config.eventMode.keeps) config, r.2) := by
  induction cmds generalizing b events with
  | nil => simp [runEvents, Except.map]
  | cons c cmds ih =>
      unfold Machine.tryRun
      rw [exec_withLog]
      cases hexec : b.exec c with
      | error e => rfl
      | ok r =>
          simp only [Except.map]
          rw [ih]
          cases Machine.tryRun exec r.1 cmds with
          | error e => rfl
          | ok r' =>
              simp only [Except.map, runEvents_cons, List.filter_append, List.append_assoc]

/-- **The log of a run**: what it had to report, as far as the mode keeps it. -/
theorem tryRun_log {cmds : List ScenarioCommand} {results : List CommandResult}
    (h : Machine.tryRun exec b cmds = .ok (b', results)) :
    b'.events = b.events ++ (runEvents cmds results).filter b.config.eventMode.keeps
      ∧ b'.config = b.config := by
  have hself := @tryRun_withLog b.events b.config b cmds
  rw [withLog_self, h] at hself
  injection hself with hself
  injection hself with hself _
  rw [hself]
  exact ⟨rfl, rfl⟩

/-- The log of a full run is all that the run reports. -/
theorem run_full_events {cmds : List ScenarioCommand} {results : List CommandResult}
    (h : run .full cmds = .ok (b, results)) : b.events = runEvents cmds results := by
  obtain ⟨hlog, -⟩ := tryRun_log h
  have hfull : (runEvents cmds results).filter (start .full).config.eventMode.keeps
      = runEvents cmds results := List.filter_eq_self.mpr fun _ _ => rfl
  rw [hlog, hfull]
  rfl

end OrderBook

/-! ## The trades in the log -/

def BookEvent.isTrade : BookEvent → Bool
  | .tradeExecuted _ => true
  | _ => false

/-- The trade an event reports, if it reports one. -/
def BookEvent.trade? : BookEvent → Option Trade
  | .tradeExecuted trade => some trade
  | _ => none

/-- The trades among some events (`trades_from_events` of `src/main.rs`). -/
def tradesFromEvents (events : List BookEvent) : List Trade := events.filterMap BookEvent.trade?

/-- The trades that the calls of a run returned, in order. -/
def returnedTrades (results : List CommandResult) : List Trade :=
  results.flatMap fun
    | .ok trades => trades
    | .error _ => []

/-- The trades of two logs are appended. -/
@[simp] theorem tradesFromEvents_append (es fs : List BookEvent) :
    tradesFromEvents (es ++ fs) = tradesFromEvents es ++ tradesFromEvents fs := List.filterMap_append

@[simp] theorem tradesFromEvents_map (trades : List Trade) :
    tradesFromEvents (trades.map .tradeExecuted) = trades := by
  unfold tradesFromEvents
  rw [List.filterMap_map]
  exact List.filterMap_some

/-- A log that only keeps trades has the same trades. -/
@[simp] theorem tradesFromEvents_filter (es : List BookEvent) :
    tradesFromEvents (es.filter BookEvent.isTrade) = tradesFromEvents es := by
  unfold tradesFromEvents
  rw [List.filterMap_filter]
  apply List.filterMap_congr
  intro e _
  cases e <;> rfl

@[simp] theorem returnedTrades_nil : returnedTrades [] = [] := rfl

theorem returnedTrades_cons (res : CommandResult) (results : List CommandResult) :
    returnedTrades (res :: results) = returnedTrades [res] ++ returnedTrades results := by
  simp [returnedTrades]

/-- So are those of two runs. -/
theorem returnedTrades_append (results later : List CommandResult) :
    returnedTrades (results ++ later) = returnedTrades results ++ returnedTrades later :=
  List.flatMap_append

@[simp] theorem returnedTrades_ok (trades : List Trade) : returnedTrades [.ok trades] = trades :=
  List.append_nil trades

/-- The trades a call reports are the trades it returns. -/
theorem callEvents_trades {b b' : OrderBook} {c : ScenarioCommand} {res : CommandResult}
    (h : b.exec c = .ok (b', res)) : tradesFromEvents (callEvents c res) = returnedTrades [res] := by
  cases res with
  | error e => rfl
  | ok trades =>
      rw [returnedTrades_ok]
      cases c with
      | add order => exact tradesFromEvents_map trades
      | cancel id => exact (OrderBook.exec_cancel_ok h).symm
      | modify id newPrice newQuantity => exact tradesFromEvents_map trades

/-- **The trades a run reports are the trades its calls return**, in order. -/
theorem runEvents_trades {b b' : OrderBook} {cmds : List ScenarioCommand}
    {results : List CommandResult} (h : Machine.tryRun OrderBook.exec b cmds = .ok (b', results)) :
    tradesFromEvents (runEvents cmds results) = returnedTrades results := by
  induction cmds generalizing b results with
  | nil =>
      cases h
      rfl
  | cons c cmds ih =>
      obtain ⟨b₁, res, results', hexec, hrun, rfl⟩ := Machine.tryRun_cons_ok h
      rw [runEvents_cons, tradesFromEvents_append, callEvents_trades hexec, ih hrun, ← returnedTrades_cons]

end LimitOrderBook
