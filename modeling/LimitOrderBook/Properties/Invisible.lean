import Mathlib.Data.Finset.Basic
import LimitOrderBook.Refinement.Run
import LimitOrderBook.Reference.Steps
import LimitOrderBook.Events.Log

/-!
# `Properties.Invisible` — an order that never trades is invisible to everyone else

An order that never trades is invisible to everyone else: a run without the commands that name it returns the same to
all others, and ends with the same book but for that order.

`hide x` takes from a priority book all that an id has left in it, its order and the fact that it was accepted. A
command that names `x` and does not trade changes nothing else (`hide_exec_drop`). Any other command in which `x` has
no part does the same with `x` hidden (`hide_exec_keep`), because matching that makes no trade with an order is the
same without it (`Fills.filter_ne`).

`notNaming` are the commands of the shorter run and `resultsNotNaming` their results. `priorityRun_hide` puts the two
steps together, `NeverOverfull.notNaming` says that the shorter run stays within the bound, and
`Represents.snapshot_hide` compares the snapshots.
-/

namespace LimitOrderBook

/-! ## Matching around an order -/

/-- A sweep that stops at every order it could meet stops at once. -/
theorem Fills.of_stop {taker : Order} {left : Quantity} {xs : List Order}
    (h : ∀ y ∈ xs, left = 0 ∨ ¬taker.side.crosses taker.price y.price) :
    Fills taker xs left xs left [] := by
  cases xs with
  | nil => exact .empty left
  | cons y xs => exact .stop (h y List.mem_cons_self)

/-- Without trades nothing changes hands. -/
theorem Fills.of_no_trades {taker : Order} {xs ys : List Order} {left left' : Quantity}
    (h : Fills taker xs left ys left' []) : ys = xs ∧ left' = left := by
  cases h with
  | empty left => exact ⟨rfl, rfl⟩
  | stop _ => exact ⟨rfl, rfl⟩

/-- **Matching does not see an order that is no maker.** -/
theorem Fills.filter_ne {taker : Order} {xs ys : List Order} {left left' : Quantity}
    {trades : List Trade} (h : Fills taker xs left ys left' trades)
    (hsorted : xs.Pairwise fun a b => ¬taker.side.opposite.ahead b a) {x : OrderId}
    (hquiet : ∀ t ∈ trades, t.makerOrderId ≠ x) :
    Fills taker (xs.filter fun o => o.id ≠ x) left (ys.filter fun o => o.id ≠ x) left' trades := by
  induction h with
  | empty left => exact .empty left
  | @stop maker rest left hstop =>
      obtain ⟨hhead, -⟩ := List.pairwise_cons.mp hsorted
      -- where the front order stops the sweep, so does every order behind it
      apply Fills.of_stop
      intro y hy
      rcases List.mem_cons.mp (List.mem_of_mem_filter hy) with rfl | hy
      · exact hstop
      · exact hstop.imp id fun hmaker => Side.not_crosses_of_not_better hmaker (hhead y hy)
  | @full maker rest rest' left left' trades hleft hcross hle _ ih =>
      obtain ⟨hmaker, hlater⟩ := List.forall_mem_cons.mp hquiet
      rw [List.filter_cons_of_pos (by exact decide_eq_true hmaker)]
      exact .full hleft hcross hle (ih (List.pairwise_cons.mp hsorted).2 hlater)
  | @part maker rest left hleft hcross hle =>
      have hmaker : maker.id ≠ x := hquiet _ List.mem_cons_self
      rw [List.filter_cons_of_pos (by exact decide_eq_true hmaker),
        List.filter_cons_of_pos (by exact decide_eq_true hmaker)]
      exact .part hleft hcross hle

/-- Without `x`, what is left of another order joins the same place. -/
theorem filter_restLeft {o : Order} {own : List Order}
    (hsorted : own.Pairwise fun a b => ¬o.side.ahead b a) (left : Quantity) (x : OrderId) :
    (restLeft o left own).filter (fun a => a.id ≠ x)
      = if o.id = x then own.filter fun a => a.id ≠ x
        else restLeft o left (own.filter fun a => a.id ≠ x) := by
  have hown : own.Pairwise fun a b => ¬o.side.better b.price a.price := hsorted
  have hinsert := Ladder.filter_orderedInsert (fun a => a.id ≠ x) hown { o with remainingQty := left }
  unfold restLeft
  by_cases hleft : left = 0
  · rw [if_pos hleft, if_pos hleft]
    simp
  · rw [if_neg hleft, if_neg hleft]
    apply hinsert.trans
    by_cases hid : o.id = x
    · simp [hid]
    · simp [hid]
      rfl

/-! ## Hiding an order -/

/-- A result in which an id takes no part. -/
def Quiet (x : OrderId) (res : CommandResult) : Prop :=
  ∀ trades, res = .ok trades → ∀ t ∈ trades, t.makerOrderId ≠ x ∧ t.takerOrderId ≠ x

namespace PriorityBook

/-- The book without the order `x`, and as if `x` had never been accepted. -/
def hide (x : OrderId) (p : PriorityBook) : PriorityBook :=
  { p.without x with accepted := p.accepted.erase x }

variable {p : PriorityBook} {o : Order} {x id : OrderId} {c : ScenarioCommand}

@[simp] theorem side_hide (s : Side) : (p.hide x).side s = (p.side s).filter fun o => o.id ≠ x := rfl

@[simp] theorem accepted_hide : (p.hide x).accepted = p.accepted.erase x := rfl

theorem orders_hide : (p.hide x).orders = p.orders.filter fun o => o.id ≠ x := by
  unfold orders
  rw [List.filter_append]
  rfl

/-- Other ids are found as before. -/
theorem find?_hide (hne : id ≠ x) : (p.hide x).find? id = p.find? id := by
  unfold find?
  rw [orders_hide, List.find?_filter]
  congr 1
  funext o
  -- the search for another id passes over `x` anyway
  by_cases hid : o.id = id
  · simp [hid, hne]
  · simp [hid]

/-- Removing another order commutes with hiding. -/
theorem hide_without (p : PriorityBook) : (p.without id).hide x = (p.hide x).without id := by
  refine PriorityBook.ext (funext ?_) rfl
  intro s
  simp only [side_hide, side_without, List.filter_filter, Bool.and_comm]

theorem hide_accept (hne : id ≠ x) : (p.accept id).hide x = (p.hide x).accept id := by
  refine PriorityBook.ext rfl ?_
  show (insert id p.accepted).erase x = insert id (p.accepted.erase x)
  exact Finset.erase_insert_of_ne hne

/-- An order that takes nothing is hidden again at once. -/
theorem hide_submit_self (hp : p.Valid) (hquiet : (p.submit o).2 = []) :
    (p.submit o).1.hide o.id = p.hide o.id := by
  obtain ⟨left, hfills, hown⟩ := p.submit_spec o
  rw [hquiet] at hfills
  obtain ⟨hopp, -⟩ := hfills.of_no_trades
  refine ext_sides o.side ?_ ?_ ?_
  · rw [side_hide, side_hide, hown, filter_restLeft (hp.sorted _), if_pos rfl]
  · rw [side_hide, side_hide, hopp]
  · rw [accepted_hide, accepted_hide, accepted_submit]

/-- **Submitting another order** does not see `x`. -/
theorem hide_submit (hp : p.Valid) (hne : o.id ≠ x)
    (hquiet : ∀ t ∈ (p.submit o).2, t.makerOrderId ≠ x) :
    (p.hide x).submit o = ((p.submit o).1.hide x, (p.submit o).2) := by
  obtain ⟨left, hfills, hown⟩ := p.submit_spec o
  have hfill := (hfills.filter_ne (hp.sorted _) hquiet).fill_eq
  rw [← side_hide] at hfill
  unfold submit
  rw [hfill]
  refine Prod.ext (ext_sides o.side ?_ ?_ rfl) ?_
  · show ((p.hide x).withSides _ _ _).side o.side = ((p.submit o).1.hide x).side o.side
    rw [side_withSides_own, side_hide, side_hide, hown, filter_restLeft (hp.sorted _), if_neg hne]
  · show ((p.hide x).withSides _ _ _).side o.side.opposite = ((p.submit o).1.hide x).side o.side.opposite
    rw [side_withSides_opposite, side_hide]
  · rfl

/-- **A command that names `x`** and does not trade leaves no trace but `x`. -/
theorem hide_exec_drop (hp : p.Valid) (hquiet : Quiet x (p.exec c).2) (hc : c.orderId = x) :
    (p.exec c).1.hide x = p.hide x := by
  have hstep := p.exec_step c
  -- its trades would have `x` as their taker
  have hnone : ∀ trades, (p.exec c).2 = .ok trades → trades = [] := by
    intro trades hok
    rw [hok] at hstep
    apply List.eq_nil_iff_forall_not_mem.mpr
    intro t ht
    exact (hquiet trades hok t ht).2 (((hstep.trades hp).2 t ht).1.trans hc)
  generalize (p.exec c).2 = res at hstep hnone
  generalize (p.exec c).1 = p' at hstep
  subst hc
  cases hstep with
  | rejected _ => rfl
  | @added o h0 hnew =>
      -- the new order rests without trading; hiding takes it and its id away again
      have hself := hide_submit_self (hp.accept o.id) (hnone _ rfl)
      refine hself.trans (PriorityBook.ext rfl ?_)
      show (insert o.id p.accepted).erase o.id = p.accepted.erase o.id
      rw [Finset.erase_insert_eq_erase]
  | @cancelled id old hold =>
      rw [show (ScenarioCommand.cancel id).orderId = id from rfl, hide_without]
      refine PriorityBook.ext (funext ?_) rfl
      intro s
      simp [List.filter_filter]
  | @modified id old price qty h0 hold =>
      -- it rests again without trading, wherever it goes
      have hself := hide_submit_self (o := Order.new id old.side price qty) (hp.without id) (hnone _ rfl)
      apply hself.trans
      show (p.without id).hide id = p.hide id
      rw [hide_without]
      refine PriorityBook.ext (funext ?_) rfl
      intro s
      simp [List.filter_filter]

/-- **Any other command** does the same with `x` hidden. -/
theorem hide_exec_keep (hp : p.Valid) (hquiet : Quiet x (p.exec c).2) (hc : c.orderId ≠ x) :
    (p.hide x).exec c = ((p.exec c).1.hide x, (p.exec c).2) := by
  cases c with
  | add o =>
      have hne : o.id ≠ x := hc
      show (p.hide x).addOrder o = ((p.addOrder o).1.hide x, (p.addOrder o).2)
      have hquiet : Quiet x (p.addOrder o).2 := hquiet
      unfold addOrder at hquiet ⊢
      by_cases h0 : o.remainingQty = 0
      · rw [if_pos h0, if_pos h0]
      rw [if_neg h0] at hquiet
      rw [if_neg h0, if_neg h0]
      by_cases hid : o.id ∈ p.accepted
      · rw [if_pos hid, if_pos (show o.id ∈ (p.hide x).accepted from Finset.mem_erase.mpr ⟨hne, hid⟩)]
      · have hid' : o.id ∉ (p.hide x).accepted := fun h => hid (Finset.mem_erase.mp h).2
        rw [if_neg hid] at hquiet
        rw [if_neg hid, if_neg hid', ← hide_accept hne]
        rw [hide_submit (hp.accept o.id) hne fun t ht => (hquiet _ rfl t ht).1]
  | cancel id =>
      have hne : id ≠ x := hc
      show (p.hide x).cancelOrder id = ((p.cancelOrder id).1.hide x, (p.cancelOrder id).2)
      unfold cancelOrder
      rw [find?_hide hne]
      cases p.find? id with
      | none => rfl
      | some old => simp only [hide_without]
  | modify id price qty =>
      have hne : id ≠ x := hc
      show (p.hide x).modifyOrder id price qty
        = ((p.modifyOrder id price qty).1.hide x, (p.modifyOrder id price qty).2)
      have hquiet : Quiet x (p.modifyOrder id price qty).2 := hquiet
      unfold modifyOrder at hquiet ⊢
      by_cases h0 : qty = 0
      · rw [if_pos h0, if_pos h0]
      rw [if_neg h0] at hquiet
      rw [if_neg h0, if_neg h0, find?_hide hne]
      cases hfind : p.find? id with
      | none => rfl
      | some old =>
          rw [hfind] at hquiet
          have hsubmit := hide_submit (o := Order.new id old.side price qty) (hp.without id) hne
            fun t ht => (hquiet _ rfl t ht).1
          simp only [← hide_without, hsubmit]

theorem hide_empty : hide x {} = {} := rfl

theorem length_orders_hide : (p.hide x).orders.length ≤ p.orders.length := by
  rw [orders_hide]
  exact List.length_filter_le _ _

end PriorityBook

/-! ## Runs -/

/-- The commands that do not name an order. -/
def notNaming (x : OrderId) (cmds : List ScenarioCommand) : List ScenarioCommand :=
  cmds.filter fun c => c.orderId ≠ x

/-- The results of the commands that do not name an order. -/
def resultsNotNaming (x : OrderId) (cmds : List ScenarioCommand) (results : List CommandResult) :
    List CommandResult :=
  ((cmds.zip results).filter fun r => r.1.orderId ≠ x).map Prod.snd

/-- An id that is in no trade of a run takes no part in its results. -/
theorem quiet_iff {x : OrderId} {results : List CommandResult} :
    (∀ t ∈ returnedTrades results, t.makerOrderId ≠ x ∧ t.takerOrderId ≠ x)
      ↔ ∀ res ∈ results, Quiet x res := by
  unfold returnedTrades
  constructor
  · intro h res hres trades hok t ht
    rw [hok] at hres
    exact h t (List.mem_flatMap.mpr ⟨.ok trades, hres, ht⟩)
  · intro h t ht
    obtain ⟨res, hres, ht⟩ := List.mem_flatMap.mp ht
    cases res with
    | error e => exact absurd ht List.not_mem_nil
    | ok trades => exact h _ hres trades rfl t ht

/-- **A run without the commands that name `x`** is the run with `x` hidden. -/
theorem priorityRun_hide {x : OrderId} {cmds : List ScenarioCommand}
    (hquiet : ∀ res ∈ (priorityRun cmds).2, Quiet x res) :
    priorityRun (notNaming x cmds)
      = ((priorityRun cmds).1.hide x, resultsNotNaming x cmds (priorityRun cmds).2) := by
  have hvalid : ∀ (p : PriorityBook) (c : ScenarioCommand), p.Valid → (p.exec c).1.Valid :=
    fun _ c hp => hp.exec c
  have hdrop : ∀ (p : PriorityBook) (c : ScenarioCommand), p.Valid → Quiet x (p.exec c).2 →
      decide (c.orderId ≠ x) = false → (p.exec c).1.hide x = p.hide x := by
    intro p c hp hq hc
    exact PriorityBook.hide_exec_drop hp hq (not_not.mp (of_decide_eq_false hc))
  have hkeep : ∀ (p : PriorityBook) (c : ScenarioCommand), p.Valid → Quiet x (p.exec c).2 →
      decide (c.orderId ≠ x) = true → (p.hide x).exec c = ((p.exec c).1.hide x, (p.exec c).2) := by
    intro p c hp hq hc
    exact PriorityBook.hide_exec_keep hp hq (of_decide_eq_true hc)
  have hrun := Machine.run_filter hvalid hdrop hkeep PriorityBook.valid_empty cmds hquiet
  rw [PriorityBook.hide_empty] at hrun
  exact hrun

/-- A run with commands deleted rests no more orders at any time. -/
theorem NeverOverfull.notNaming {mode : EventMode} {x : OrderId} {cmds : List ScenarioCommand}
    (h : OrderBook.NeverOverfull mode cmds) (hquiet : ∀ res ∈ (priorityRun cmds).2, Quiet x res) :
    OrderBook.NeverOverfull mode (notNaming x cmds) := by
  rw [neverOverfull_iff_priority] at h ⊢
  intro done hdone
  obtain ⟨done', hdone', rfl⟩ := List.prefix_filter_iff.mp hdone
  have hquiet' : ∀ res ∈ (priorityRun done').2, Quiet x res := by
    obtain ⟨todo, rfl⟩ := hdone'
    intro res hres
    rw [priorityRun_append] at hquiet
    exact hquiet res (List.mem_append_left _ hres)
  have hhide := priorityRun_hide hquiet'
  unfold LimitOrderBook.notNaming at hhide
  rw [hhide]
  exact Nat.le_trans PriorityBook.length_orders_hide (h done' hdone')

/-! ## The snapshot -/

/-- Take an order out of its level, and the level out when that leaves it empty. -/
def removeFrom (x : OrderId) (levels : List (Price × List Order)) : List (Price × List Order) :=
  (levels.map fun l => (l.1, l.2.filter fun o => o.id ≠ x)).filter fun l => l.2 ≠ []

def BookSnapshot.remove (snap : BookSnapshot) (x : OrderId) : BookSnapshot :=
  ⟨removeFrom x snap.bids, removeFrom x snap.asks⟩

/-- The levels of a side without an order. -/
theorem levels_filterMap_ne {s : Side} (L : SideLadder s) (x : OrderId) :
    (L.filterMap (Option.guard fun o => o.id ≠ x)).levels = removeFrom x L.levels := by
  unfold removeFrom
  rw [Ladder.levels_filterMap]
  simp only [List.filterMap_eq_filter]

/-- A book that stands for the priority book with `x` hidden shows the snapshot without `x`. -/
theorem Represents.snapshot_hide {b b' : OrderBook} {p : PriorityBook} {x : OrderId}
    (h : Represents b p) (h' : Represents b' (p.hide x)) {snap : BookSnapshot}
    (hsnap : b.snapshot = .ok snap) : b'.snapshot = .ok (snap.remove x) := by
  obtain ⟨L, hL, hkeyed⟩ := h.snapshot_ladders
  obtain ⟨M, hM, hkeyed'⟩ := h'.snapshot_ladders
  have hladder : ∀ s : Side, M s = (L s).filterMap (Option.guard fun o => o.id ≠ x) := by
    intro s
    refine (hkeyed' s).1.ext_flat ((hkeyed s).1.filterMap ?_) ?_
    · intro o o' ho
      rw [(Option.guard_eq_some_iff.mp ho).1]
    · rw [(hkeyed' s).2, PriorityBook.side_hide, Ladder.flat_filterMap, (hkeyed s).2,
        List.filterMap_eq_filter]
  rw [hsnap] at hL
  rw [hM, hladder, hladder, levels_filterMap_ne, levels_filterMap_ne, Except.ok.inj hL]
  rfl

/-- **An order that never trades is invisible.** If `x` is in no trade that a run returns, the run without
    the commands that name `x` returns the same from every other command, and ends with the same
    snapshot but for `x`. -/
theorem idle_order_invisible (mode : EventMode) (cmds : List ScenarioCommand)
    (hroom : OrderBook.NeverOverfull mode cmds) :
    ∃ b results snap, OrderBook.run mode cmds = .ok (b, results) ∧ b.snapshot = .ok snap
      ∧ ∀ x, (∀ t ∈ returnedTrades results, t.makerOrderId ≠ x ∧ t.takerOrderId ≠ x) →
          ∃ b', OrderBook.run mode (notNaming x cmds) = .ok (b', resultsNotNaming x cmds results)
            ∧ b'.snapshot = .ok (snap.remove x) := by
  obtain ⟨b, hrun, hrep⟩ := run_represents hroom
  obtain ⟨snap, hsnap, -⟩ := hrep.snapshot_eq
  refine ⟨b, _, snap, hrun, hsnap, ?_⟩
  intro x hx
  have hquiet := quiet_iff.mp hx
  obtain ⟨b', hrun', hrep'⟩ := run_represents (NeverOverfull.notNaming hroom hquiet)
  rw [priorityRun_hide hquiet] at hrun' hrep'
  exact ⟨b', hrun', hrep.snapshot_hide hrep' hsnap⟩

/-- Order 4 of the session rests until the end and never trades. -/
theorem idle_order_invisible_session :
    ∃ b' results, OrderBook.run .full (notNaming 4 session) = .ok (b', resultsNotNaming 4 session results)
      ∧ b'.snapshot = .ok ⟨[], []⟩ := by
  obtain ⟨b, results, snap, hrun, hsnap, hinvisible⟩ :=
    idle_order_invisible .full session (by decide +kernel)
  have hshown : (do
      let (b, results) ← OrderBook.run .full session
      let snap ← b.snapshot
      pure (snap.remove 4, decide (∀ t ∈ returnedTrades results, t.makerOrderId ≠ 4 ∧ t.takerOrderId ≠ 4)))
      = .ok (⟨[], []⟩, true) := by decide +kernel
  rw [hrun, Machine.ok_bind] at hshown
  dsimp only at hshown
  rw [hsnap, Machine.ok_bind] at hshown
  obtain ⟨hremove, hidle⟩ := Prod.mk.inj (Except.ok.inj hshown)
  obtain ⟨b', hrun', hsnap'⟩ := hinvisible 4 (of_decide_eq_true hidle)
  rw [hremove] at hsnap'
  exact ⟨b', results, hrun', hsnap'⟩

end LimitOrderBook
