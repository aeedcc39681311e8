import LimitOrderBook.Events.Log
import LimitOrderBook.Replay.Engine

/-!
# `Properties.Replay` — a log replays to the book it came from

A log replays to the book it came from. Replaying makes again the calls that succeeded, from the same empty book, so
it goes through the same books. A rejected call leaves no event and no trace in the book, and the trade events of a
log are passed over (`replayFrom_trades`).

A cut in the log only decides where the replay stops: the trades after the last call that the prefix names are
produced again by that call, whether the prefix lists them or not. `Recovers` says of a part of a log that replaying
it ends in the book right after the last call that it names. It holds of a part that is cut among the trades of a call
(`recovers_cut`), and goes through a call with all its trades (`Recovers.behind`) and through one that was rejected
(`Recovers.rejected`). So it holds of every prefix (`replayFrom_prefix`), and `replay_recovers_log_prefixes` says it
of every cut in the log of a run.
-/

namespace LimitOrderBook

open OrderBook

/-- The command an event says was made, if it says so. -/
def BookEvent.command? : BookEvent → Option ScenarioCommand
  | .orderAccepted order => some (.add order)
  | .orderCancelled orderId => some (.cancel orderId)
  | .orderModified orderId newPrice newQuantity => some (.modify orderId newPrice newQuantity)
  | .tradeExecuted _ => none

/-- The commands of a run that succeeded, in order. -/
def successful (cmds : List ScenarioCommand) (results : List CommandResult) : List ScenarioCommand :=
  ((cmds.zip results).filter fun x => x.2.isOk).map Prod.fst

section Events

variable {b b' : OrderBook} {c : ScenarioCommand} {cmds : List ScenarioCommand} {trades : List Trade}
  {results : List CommandResult} {es : List BookEvent}

theorem successful_cons_ok : successful (c :: cmds) (.ok trades :: results)
    = c :: successful cmds results := rfl

/-- A rejected call is left out. -/
theorem successful_cons_error {e : OrderBookError} :
    successful (c :: cmds) (.error e :: results) = successful cmds results := rfl

/-- A successful call reports itself first and then only trades. -/
theorem callEvents_ok (h : b.exec c = .ok (b', .ok trades)) :
    ∃ e, e.command? = some c ∧ callEvents c (.ok trades) = e :: trades.map .tradeExecuted := by
  cases c with
  | add order => exact ⟨.orderAccepted order, rfl, rfl⟩
  | cancel id =>
      rw [exec_cancel_ok h]
      exact ⟨.orderCancelled id, rfl, rfl⟩
  | modify id newPrice newQuantity => exact ⟨.orderModified id newPrice newQuantity, rfl, rfl⟩

/-- Trade events name no call. -/
theorem filterMap_command?_trades {ts : List BookEvent} (h : ∀ e ∈ ts, e.isTrade = true) :
    ts.filterMap BookEvent.command? = [] := by
  rw [List.filterMap_eq_nil_iff]
  intro e he
  cases e with
  | tradeExecuted trade => rfl
  | orderAccepted order => exact absurd (h _ he) (by simp [BookEvent.isTrade])
  | orderCancelled id => exact absurd (h _ he) (by simp [BookEvent.isTrade])
  | orderModified id p q => exact absurd (h _ he) (by simp [BookEvent.isTrade])

theorem isTrade_map (trades : List Trade) :
    ∀ e ∈ trades.map BookEvent.tradeExecuted, e.isTrade = true := by
  intro e he
  obtain ⟨t, -, rfl⟩ := List.mem_map.mp he
  rfl

/-! ## Replaying -/

/-- Replaying the event of a successful call makes the call again. -/
theorem replayFrom_command {e : BookEvent} (he : e.command? = some c)
    (h : b.exec c = .ok (b', .ok trades)) : replayFrom b (e :: es) = replayFrom b' es := by
  cases e with
  | tradeExecuted trade => cases he
  | orderAccepted order =>
      cases he
      have hcall : b.addOrder order = .ok (b', .ok trades) := h
      rw [replayFrom, hcall]
      rfl
  | orderCancelled id =>
      cases he
      unfold exec at h
      obtain ⟨⟨b₁, res⟩, hcall, h⟩ := Machine.bind_eq_ok.mp h
      cases res with
      | error e => cases h
      | ok u =>
          cases h
          rw [replayFrom, hcall]
          rfl
  | orderModified id newPrice newQuantity =>
      cases he
      have hcall : b.modifyOrder id newPrice newQuantity = .ok (b', .ok trades) := h
      rw [replayFrom, hcall]
      rfl

/-- Replaying passes over trades. -/
theorem replayFrom_trades {ts : List BookEvent} (h : ∀ e ∈ ts, e.isTrade = true) :
    replayFrom b (ts ++ es) = replayFrom b es := by
  induction ts with
  | nil => rfl
  | cons e ts ih =>
      have ih := ih fun f hf => h f (List.mem_cons_of_mem e hf)
      cases e with
      | tradeExecuted trade => exact ih
      | orderAccepted order => exact absurd (h _ List.mem_cons_self) (by simp [BookEvent.isTrade])
      | orderCancelled id => exact absurd (h _ List.mem_cons_self) (by simp [BookEvent.isTrade])
      | orderModified id p q => exact absurd (h _ List.mem_cons_self) (by simp [BookEvent.isTrade])

/-- Replaying all that a run reports ends in the book of the run. -/
theorem replayFrom_runEvents (h : Machine.tryRun exec b cmds = .ok (b', results)) :
    replayFrom b (runEvents cmds results) = .ok (.ok b') := by
  induction cmds generalizing b results with
  | nil =>
      cases h
      rfl
  | cons c cmds ih =>
      obtain ⟨b₁, res, results', hexec, hrun, rfl⟩ := Machine.tryRun_cons_ok h
      have hrest := ih hrun
      rw [runEvents_cons]
      cases res with
      | error e =>
          rw [exec_rejected hexec] at hrest
          exact hrest
      | ok trades =>
          obtain ⟨e, he, hevents⟩ := callEvents_ok hexec
          rw [hevents, List.cons_append, replayFrom_command he hexec,
            replayFrom_trades (isTrade_map trades)]
          exact hrest

/-- The commands that a run reports are those that succeeded. -/
theorem filterMap_command?_runEvents (h : Machine.tryRun exec b cmds = .ok (b', results)) :
    (runEvents cmds results).filterMap BookEvent.command? = successful cmds results := by
  induction cmds generalizing b results with
  | nil =>
      cases h
      rfl
  | cons c cmds ih =>
      obtain ⟨b₁, res, results', hexec, hrun, rfl⟩ := Machine.tryRun_cons_ok h
      have hrest := ih hrun
      rw [runEvents_cons]
      cases res with
      | error e =>
          rw [successful_cons_error]
          exact hrest
      | ok trades =>
          obtain ⟨e, he, hevents⟩ := callEvents_ok hexec
          rw [hevents, List.filterMap_append, List.filterMap_cons_some he,
            filterMap_command?_trades (isTrade_map trades), hrest, successful_cons_ok]
          rfl

/-- Replaying `pre` from `b` ends in the book of a first part of `cmds`, right after the last call that `pre`
    names. -/
def Recovers (b : OrderBook) (cmds : List ScenarioCommand) (pre : List BookEvent) : Prop :=
  ∃ done r doneResults, done <+: cmds ∧ Machine.tryRun exec b done = .ok (r, doneResults)
    ∧ replayFrom b pre = .ok (.ok r)
    ∧ pre.filterMap BookEvent.command? = successful done doneResults
    ∧ ∀ res, doneResults.getLast? = some res → res.isOk = true

theorem recovers_nil (b : OrderBook) (cmds : List ScenarioCommand) : Recovers b cmds [] :=
  ⟨[], b, [], List.nil_prefix, rfl, rfl, rfl, by simp⟩

/-- A rejected call reports nothing and changes nothing. -/
theorem Recovers.rejected {e : OrderBookError} (hexec : b.exec c = .ok (b', .error e))
    (h : Recovers b' cmds es) : Recovers b (c :: cmds) es := by
  obtain ⟨done, r, doneResults, hdone, hrun, hreplay, hcmds, hlast⟩ := h
  rw [exec_rejected hexec] at hrun hreplay
  cases done with
  | nil =>
      cases hrun
      exact ⟨[], _, [], List.nil_prefix, rfl, hreplay, hcmds, by simp⟩
  | cons d done =>
      have hhead : Machine.tryRun exec b (c :: d :: done) = .ok (r, .error e :: doneResults) := by
        rw [Machine.tryRun_cons hexec, exec_rejected hexec, hrun]
        rfl
      refine ⟨c :: d :: done, r, .error e :: doneResults, List.cons_prefix_cons.mpr ⟨rfl, hdone⟩,
        hhead, hreplay, hcmds, ?_⟩
      obtain ⟨b₂, res₂, results₂, -, -, rfl⟩ := Machine.tryRun_cons_ok hrun
      intro res hres
      exact hlast res (by simpa using hres)

/-- A cut among the trades of a call leaves the call. -/
theorem recovers_cut {e : BookEvent} (he : e.command? = some c) (hexec : b.exec c = .ok (b', .ok trades))
    (cmds : List ScenarioCommand) (htrades : ∀ e ∈ es, e.isTrade = true) : Recovers b (c :: cmds) (e :: es) := by
  have hskip : replayFrom b' (es ++ []) = replayFrom b' [] := replayFrom_trades htrades
  rw [List.append_nil] at hskip
  refine ⟨[c], b', [.ok trades], List.cons_prefix_cons.mpr ⟨rfl, List.nil_prefix⟩, ?_, ?_, ?_, ?_⟩
  · rw [Machine.tryRun_cons hexec]
    rfl
  · rw [replayFrom_command he hexec, hskip]
    rfl
  · rw [List.filterMap_cons_some he, filterMap_command?_trades htrades]
    rfl
  · intro res hres
    cases hres
    rfl

/-- Behind all the trades of a call the replay goes on as from the book after it. -/
theorem Recovers.behind {e : BookEvent} (he : e.command? = some c) (hexec : b.exec c = .ok (b', .ok trades))
    (h : Recovers b' cmds es) : Recovers b (c :: cmds) (e :: (trades.map .tradeExecuted ++ es)) := by
  obtain ⟨done, r, doneResults, hdone, hrun, hreplay, hcmds, hlast⟩ := h
  refine ⟨c :: done, r, .ok trades :: doneResults, List.cons_prefix_cons.mpr ⟨rfl, hdone⟩, ?_, ?_, ?_, ?_⟩
  · rw [Machine.tryRun_cons hexec, hrun]
    rfl
  · rw [replayFrom_command he hexec, replayFrom_trades (isTrade_map trades)]
    exact hreplay
  · rw [List.filterMap_cons_some he, List.filterMap_append, filterMap_command?_trades (isTrade_map trades),
      hcmds, successful_cons_ok]
    rfl
  · intro res hres
    cases doneResults with
    | nil =>
        cases hres
        rfl
    | cons res' doneResults => exact hlast res (by simpa using hres)

/-- **Replaying a prefix** of what a run reports ends in the book right after the last call that the
    prefix names. -/
theorem replayFrom_prefix (h : Machine.tryRun exec b cmds = .ok (b', results)) {pre : List BookEvent}
    (hpre : pre <+: runEvents cmds results) : Recovers b cmds pre := by
  induction cmds generalizing b results pre with
  | nil =>
      cases h
      have hnil : pre = [] := List.prefix_nil.mp hpre
      subst hnil
      exact recovers_nil _ []
  | cons c cmds ih =>
      obtain ⟨b₁, res, results', hexec, hrun, rfl⟩ := Machine.tryRun_cons_ok h
      rw [runEvents_cons] at hpre
      cases res with
      | error e => exact (ih hrun hpre).rejected hexec
      | ok trades =>
          obtain ⟨e, he, hevents⟩ := callEvents_ok hexec
          rw [hevents, List.cons_append] at hpre
          cases pre with
          | nil => exact recovers_nil b _
          | cons e' pre =>
              obtain ⟨rfl, hpre'⟩ := List.cons_prefix_cons.mp hpre
              by_cases hcut : pre.length ≤ (trades.map BookEvent.tradeExecuted).length
              · have htrades : pre <+: trades.map .tradeExecuted :=
                  List.prefix_of_prefix_length_le hpre' (List.prefix_append _ _) hcut
                exact recovers_cut he hexec cmds fun e he => isTrade_map trades e (htrades.subset he)
              · have hpart : trades.map .tradeExecuted <+: pre :=
                  List.prefix_of_prefix_length_le (List.prefix_append _ _) hpre' (by omega)
                obtain ⟨pre', rfl⟩ := hpart
                rw [List.prefix_append_right_inj] at hpre'
                exact (ih hrun hpre').behind he hexec

end Events

/-! ## The law -/

/-- **Replay recovers the book from any prefix of its log.** For every book `b` that a full run reaches
    and every prefix of its log, wherever it is cut, replaying returns the book `r` of the part `done` of
    the run that ends with the call of the last accepted, cancelled or modified event of the prefix. The
    whole log replays to `b` itself, and its other events are exactly the commands that succeeded. -/
theorem replay_recovers_log_prefixes (cmds : List ScenarioCommand) (b : OrderBook)
    (results : List CommandResult) (hrun : OrderBook.run .full cmds = .ok (b, results)) :
    (∀ pre, pre <+: b.events →
      ∃ done r doneResults, done <+: cmds ∧ OrderBook.run .full done = .ok (r, doneResults)
        ∧ replayEvents pre = .ok (.ok r)
        ∧ pre.filterMap BookEvent.command? = successful done doneResults
        ∧ ∀ res, doneResults.getLast? = some res → res.isOk = true)
    ∧ replayEvents b.events = .ok (.ok b)
    ∧ b.events.filterMap BookEvent.command? = successful cmds results := by
  rw [run_full_events hrun]
  refine ⟨?_, replayFrom_runEvents hrun, filterMap_command?_runEvents hrun⟩
  intro pre hpre
  exact replayFrom_prefix hrun hpre

/-- The session ends, so its log replays to its book. -/
theorem replay_recovers_log_prefixes_session :
    ∃ b results, OrderBook.run .full session = .ok (b, results)
      ∧ replayEvents b.events = .ok (.ok b) := by
  have hends : (OrderBook.run .full session).isOk = true := by decide +kernel
  cases hrun : OrderBook.run .full session with
  | error fault =>
      rw [hrun] at hends
      cases hends
  | ok r =>
      exact ⟨r.1, r.2, rfl, (replay_recovers_log_prefixes session r.1 r.2 hrun).2.1⟩

end LimitOrderBook
