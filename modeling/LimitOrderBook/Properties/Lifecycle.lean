import LimitOrderBook.Refinement.Run
import LimitOrderBook.Reference.Steps
import LimitOrderBook.Events.Log

/-!
# `Properties.Lifecycle` — order ids are single-use and rejections are atomic

Order ids are single-use, and rejections are atomic. Whether a call succeeds is decided by the ids accepted so far and
the ids in the snapshot: `verdict` is the error of the next call, if any. A call that is rejected changes nothing.

`acceptedIds` are the ids that a run has used up, read off its calls and their results, and are those that the
priority book knows (`mem_accepted_run`). An id that was accepted and has left the snapshot is used up for good: no
later call on it succeeds, and it is in no later trade (`Gone.run`, from `Gone.step`).
-/

namespace LimitOrderBook

/-- The ids of the add calls of a run that succeeded. -/
def acceptedIds (cmds : List ScenarioCommand) (results : List CommandResult) : List OrderId :=
  (List.zipWith acceptedId cmds results).flatten

@[simp] theorem acceptedIds_nil (results : List CommandResult) : acceptedIds [] results = [] := rfl

@[simp] theorem acceptedIds_cons (c : ScenarioCommand) (cmds : List ScenarioCommand)
    (res : CommandResult) (results : List CommandResult) :
    acceptedIds (c :: cmds) (res :: results) = acceptedId c res ++ acceptedIds cmds results := rfl

/-- The error of the next call, if any, from the ids accepted so far and the ids that rest. -/
def verdict (accepted resting : List OrderId) : ScenarioCommand → Option OrderBookError
  | .add order =>
      if order.remainingQty = 0 then some .zeroQuantity
      else if order.id ∈ accepted then some .duplicateOrderId
      else none
  | .cancel id => if id ∈ resting then none else some .unknownOrderId
  | .modify id _ newQuantity =>
      if newQuantity = 0 then some .zeroQuantity
      else if id ∈ resting then none
      else some .unknownOrderId

namespace PriorityBook

variable {p p' : PriorityBook} {c : ScenarioCommand} {res : CommandResult} {id : OrderId}

/-- **The accepted ids** are those of the add calls that succeeded. -/
theorem mem_accepted_run (cmds : List ScenarioCommand) :
    id ∈ (Machine.run exec p cmds).1.accepted
      ↔ id ∈ p.accepted ∨ id ∈ acceptedIds cmds (Machine.run exec p cmds).2 := by
  induction cmds generalizing p with
  | nil => simp
  | cons c cmds ih =>
      rw [Machine.run_cons, acceptedIds_cons, List.mem_append, ih, (p.exec_step c).mem_accepted,
        or_assoc]

theorem mem_accepted_priorityRun (cmds : List ScenarioCommand) (id : OrderId) :
    id ∈ (priorityRun cmds).1.accepted ↔ id ∈ acceptedIds cmds (priorityRun cmds).2 := by
  rw [mem_accepted_run]
  simp

/-- An id is not found when it does not rest. -/
theorem find?_eq_none_iff_ids : p.find? id = none ↔ id ∉ p.orders.map Order.id := by
  rw [find?_eq_none, List.mem_map]
  constructor
  · rintro h ⟨o, ho, hid⟩
    exact h o ho hid
  · intro h o ho hid
    exact h ⟨o, ho, hid⟩

/-- An order that is found has its id in the book. -/
theorem mem_ids_of_find? {o : Order} (h : p.find? id = some o) : id ∈ p.orders.map Order.id := by
  obtain ⟨hid, ho⟩ := of_find? h
  exact List.mem_map.mpr ⟨o, ho, hid⟩

/-- A command returns the error that the verdict names, or succeeds when it names none. -/
theorem Step.error_iff {accepted : List OrderId} (hacc : ∀ id, id ∈ p.accepted ↔ id ∈ accepted)
    (hstep : p.Step c p' res) (e : OrderBookError) :
    res = .error e ↔ verdict accepted (p.orders.map Order.id) c = some e := by
  have herror : ∀ e' : OrderBookError,
      ((.error e' : CommandResult) = .error e) ↔ (some e' : Option OrderBookError) = some e := by
    intro e'
    rw [Except.error.injEq, Option.some.injEq]
  unfold verdict
  cases hstep with
  | rejected h =>
      cases h with
      | addZero h0 => simp only [if_pos h0, herror]
      | addSeen h0 hseen =>
          rw [hacc] at hseen
          simp only [if_neg h0, if_pos hseen, herror]
      | cancelUnknown hfind => simp only [if_neg (find?_eq_none_iff_ids.mp hfind), herror]
      | modifyZero id price => simp only [if_true, herror]
      | modifyUnknown h0 hfind =>
          simp only [if_neg h0, if_neg (find?_eq_none_iff_ids.mp hfind), herror]
  | added h0 hnew =>
      rw [hacc] at hnew
      simp [h0, hnew]
  | cancelled hold => simp only [if_pos (mem_ids_of_find? hold), reduceCtorEq]
  | modified h0 hold => simp only [if_neg h0, if_pos (mem_ids_of_find? hold), reduceCtorEq]

/-- **An id that has left the book is used up**: over a whole run it never rests again, trades in
    nothing, and every call on it is rejected. -/
theorem Gone.run (h : p.Gone id) (hp : p.Valid) (later : List ScenarioCommand) :
    (Machine.run exec p later).1.Gone id
      ∧ (∀ t ∈ returnedTrades (Machine.run exec p later).2, t.makerOrderId ≠ id ∧ t.takerOrderId ≠ id)
      ∧ ∀ c res, (c, res) ∈ later.zip (Machine.run exec p later).2 → c.orderId = id →
          ∃ e, res = .error e := by
  induction later generalizing p with
  | nil => exact ⟨h, by simp, by simp⟩
  | cons c later ih =>
      obtain ⟨hgone, hrejected, htrades⟩ := h.step hp (p.exec_step c)
      obtain ⟨hlast, hlaterTrades, hlaterRejected⟩ := ih hgone (hp.exec c)
      refine ⟨hlast, ?_, ?_⟩
      · intro t ht
        -- a trade of the first call, or of a later one
        rw [Machine.run_cons, returnedTrades_cons, List.mem_append] at ht
        rcases ht with ht | ht
        · cases hres : (p.exec c).2 with
          | error e =>
              rw [hres] at ht
              exact absurd ht (by simp [returnedTrades])
          | ok trades =>
              rw [hres, returnedTrades_ok] at ht
              exact htrades trades hres t ht
        · exact hlaterTrades t ht
      · intro c' res hmem hid
        rw [Machine.run_cons, List.zip_cons_cons] at hmem
        rcases List.mem_cons.mp hmem with heq | hmem
        · cases heq
          exact hrejected hid
        · exact hlaterRejected c' res hmem hid

end PriorityBook

/-- **The lifecycle of order ids.** After every run `cmds`, an id is at most once in the snapshot, and the
    next call returns exactly the error that the accepted ids and the snapshot decide; a rejected call
    leaves the whole book as it was; the trades of a successful one have the command's order as their
    taker and distinct other orders, at rest on the opposite side before the call, as their makers. And
    an accepted id that is not in the snapshot never comes back, whatever run `later` follows: it is in no
    snapshot and no trade, and every call on it is rejected. -/
theorem order_id_lifecycle (mode : EventMode) (cmds later : List ScenarioCommand)
    (hroom : OrderBook.NeverOverfull mode (cmds ++ later)) :
    ∃ b results snap, OrderBook.run mode cmds = .ok (b, results) ∧ b.snapshot = .ok snap
      ∧ snap.ids.Nodup
      ∧ (∀ c, ∃ b' res, b.exec c = .ok (b', res)
          ∧ (∀ e, res = .error e ↔ verdict (acceptedIds cmds results) snap.ids c = some e)
          ∧ (∀ e, res = .error e → b' = b)
          ∧ ∀ trades, res = .ok trades → (trades.map Trade.makerOrderId).Nodup
              ∧ ∀ t ∈ trades, t.takerOrderId = c.orderId ∧ t.makerOrderId ≠ c.orderId
                ∧ ∃ s, c.TakesOn (snap.orders .buy ++ snap.orders .sell) s
                  ∧ t.makerOrderId ∈ (snap.orders s.opposite).map Order.id)
      ∧ ∃ b' laterResults laterSnap, Machine.tryRun OrderBook.exec b later = .ok (b', laterResults)
          ∧ b'.snapshot = .ok laterSnap
          ∧ ∀ id ∈ acceptedIds cmds results, id ∉ snap.ids →
              id ∉ laterSnap.ids
              ∧ (∀ t ∈ returnedTrades laterResults, t.makerOrderId ≠ id ∧ t.takerOrderId ≠ id)
              ∧ ∀ c res, (c, res) ∈ later.zip laterResults → c.orderId = id → ∃ e, res = .error e := by
  obtain ⟨b, b', hrun, hrep, hlater, hrep'⟩ := run_represents_append hroom
  obtain ⟨snap, hsnap, horders⟩ := hrep.snapshot_eq
  obtain ⟨laterSnap, hlaterSnap, -⟩ := hrep'.snapshot_eq
  have hvalid := priorityRun_valid cmds
  -- the accepted ids of the book are those of the history
  have haccepted := PriorityBook.mem_accepted_priorityRun cmds
  have hids := hrep.ids_eq hsnap
  refine ⟨b, _, snap, hrun, hsnap, hids ▸ hvalid.distinct, ?_, b', _, laterSnap, hlater, hlaterSnap, ?_⟩
  · intro c
    obtain ⟨b'', hexec⟩ := hrep.exec_eq c
    have hstep := (priorityRun cmds).1.exec_step c
    refine ⟨b'', _, hexec, ?_, ?_, ?_⟩
    · intro e
      rw [hids]
      exact hstep.error_iff haccepted e
    · intro e he
      rw [he] at hexec
      exact OrderBook.exec_rejected hexec
    · intro trades htrades
      rw [htrades] at hstep
      rw [horders, horders]
      simp only [horders]
      exact hstep.trades hvalid
  · intro id hid hout
    rw [hids] at hout
    obtain ⟨hgone, htrades, hrejected⟩ :=
      PriorityBook.Gone.run ⟨(haccepted id).mpr hid, hout⟩ hvalid later
    refine ⟨?_, htrades, hrejected⟩
    rw [hrep'.ids_eq hlaterSnap]
    exact hgone.2

/-- After the session the id of the cancelled order 3 is still used up. -/
theorem order_id_lifecycle_session :
    ∃ b results snap, OrderBook.run .full session = .ok (b, results) ∧ b.snapshot = .ok snap
      ∧ snap.ids.Nodup
      ∧ ∃ b', b.exec (.add ⟨3, .buy, 1, 1⟩) = .ok (b', .error .duplicateOrderId) ∧ b' = b := by
  have hseen : ((OrderBook.run .full session).map fun r => decide (3 ∈ acceptedIds session r.2))
      = .ok true := by decide +kernel
  obtain ⟨b, results, snap, hrun, hsnap, hnodup, hcall, -⟩ :=
    order_id_lifecycle .full session [] (by decide +kernel)
  rw [hrun] at hseen
  have hmem : 3 ∈ acceptedIds session results := of_decide_eq_true (Except.ok.inj hseen)
  obtain ⟨b', res, hexec, herror, hsame, -⟩ := hcall (.add ⟨3, .buy, 1, 1⟩)
  have hres : res = .error .duplicateOrderId := by
    rw [herror]
    simp [verdict, hmem]
  refine ⟨b, results, snap, hrun, hsnap, hnodup, b', ?_, hsame _ hres⟩
  rw [← hres]
  exact hexec

end LimitOrderBook
