import Mathlib.Data.List.Find
import LimitOrderBook.Properties.Allocation
import LimitOrderBook.Properties.Lifecycle

/-!
# `Properties.Modify` — a modify is a cancel and a fresh add

A modify is compared with a cancel followed by an add under a new id. The order that is added in place of the old one
has another id, so the two books differ, and so do the results of later commands that see it.

Renaming the old id to the new one is a homomorphism on priority books, for every command that does not name the new
id. Submitting does not look at ids (`submit_rename`), and the other commands only compare them, which renaming
respects when the old id is used up and the new one is not (`Renamable`). `exec_rename` is the step, `renamable_exec`
keeps the condition, and `run_rename` is the run.

`moved` is the book after the modify. The cancel and the add lead to the same book renamed (`submit_fresh`), so
everything later is the same up to the renaming (`run_moved`). `Depicts.rename` carries this to snapshots, and
`always_moved` to the bound on the number of resting orders.
-/

namespace LimitOrderBook

/-! ## Renaming -/

/-- The id `y` in place of `x`. -/
def renameId (x y id : OrderId) : OrderId := if id = x then y else id

def Order.rename (x y : OrderId) (o : Order) : Order := { o with id := renameId x y o.id }

def Trade.rename (x y : OrderId) (t : Trade) : Trade :=
  { t with makerOrderId := renameId x y t.makerOrderId, takerOrderId := renameId x y t.takerOrderId }

def ScenarioCommand.rename (x y : OrderId) : ScenarioCommand → ScenarioCommand
  | .add order => .add (order.rename x y)
  | .cancel id => .cancel (renameId x y id)
  | .modify id newPrice newQuantity => .modify (renameId x y id) newPrice newQuantity

def renameResult (x y : OrderId) (res : CommandResult) : CommandResult := res.map (List.map (Trade.rename x y))

def renameLevels (x y : OrderId) (levels : List (Price × List Order)) : List (Price × List Order) :=
  levels.map fun l => (l.1, l.2.map (Order.rename x y))

def BookSnapshot.rename (x y : OrderId) (snap : BookSnapshot) : BookSnapshot :=
  ⟨renameLevels x y snap.bids, renameLevels x y snap.asks⟩

variable {x y : OrderId}

theorem renameId_self (x y : OrderId) : renameId x y x = y := if_pos rfl

/-- Other ids are kept. -/
theorem renameId_of_ne {id : OrderId} (h : id ≠ x) : renameId x y id = id := if_neg h

/-- Away from `y`, renaming keeps ids apart. -/
theorem renameId_inj {a b : OrderId} (ha : a ≠ y) (hb : b ≠ y) : renameId x y a = renameId x y b ↔ a = b := by
  unfold renameId
  by_cases hax : a = x <;> by_cases hbx : b = x <;> grind

@[simp] theorem Order.rename_side (o : Order) : (o.rename x y).side = o.side := rfl

@[simp] theorem Order.rename_remainingQty (o : Order) : (o.rename x y).remainingQty = o.remainingQty := rfl

theorem Order.rename_of_ne {o : Order} (h : o.id ≠ x) : o.rename x y = o := by
  unfold Order.rename
  rw [renameId_of_ne h]

/-! ## Matching and resting -/

/-- **Matching does not look at ids**: each way a step can go is the same way under other ids. -/
theorem Fills.rename {taker : Order} {xs ys : List Order} {left left' : Quantity} {trades : List Trade}
    (h : Fills taker xs left ys left' trades) (x y : OrderId) :
    Fills (taker.rename x y) (xs.map (Order.rename x y)) left (ys.map (Order.rename x y)) left'
      (trades.map (Trade.rename x y)) := by
  induction h with
  | empty left => exact .empty left
  | stop hstop => exact .stop hstop
  | full hleft hcross hle _ ih => exact .full hleft hcross hle ih
  | part hleft hcross hle => exact .part hleft hcross hle

/-- Renaming an order does not change its place. -/
theorem restLeft_rename (o : Order) (left : Quantity) (own : List Order) :
    restLeft (o.rename x y) left (own.map (Order.rename x y))
      = (restLeft o left own).map (Order.rename x y) := by
  have hahead : ∀ a b : Order, o.side.ahead a b ↔ o.side.ahead (a.rename x y) (b.rename x y) :=
    fun _ _ => Iff.rfl
  unfold restLeft
  by_cases hleft : left = 0
  · rw [if_pos hleft, if_pos hleft]
  · have hmap := List.map_orderedInsert (r := o.side.ahead) (s := o.side.ahead) (Order.rename x y) own
      { o with remainingQty := left } (fun a _ => hahead a _) (fun a _ => hahead _ a)
    rw [if_neg hleft, if_neg hleft, hmap]
    rfl

/-! ## The priority book -/

namespace PriorityBook

/-- The book under the new name, which counts as used up. -/
def rename (x y : OrderId) (p : PriorityBook) : PriorityBook :=
  ⟨fun s => (p.side s).map (Order.rename x y), insert y p.accepted⟩

variable {p : PriorityBook} {o : Order} {id : OrderId} {c : ScenarioCommand}

@[simp] theorem side_rename (s : Side) : (p.rename x y).side s = (p.side s).map (Order.rename x y) := rfl

@[simp] theorem accepted_rename : (p.rename x y).accepted = insert y p.accepted := rfl

theorem orders_rename : (p.rename x y).orders = p.orders.map (Order.rename x y) := by
  unfold orders
  rw [List.map_append]
  rfl

/-- `x` is used up and `y` is not: what renaming needs of a book. -/
structure Renamable (x y : OrderId) (p : PriorityBook) : Prop where
  valid : p.Valid
  old : x ∈ p.accepted
  new : y ∉ p.accepted

theorem Renamable.ne_of_mem (h : p.Renamable x y) (ho : o ∈ p.orders) : o.id ≠ y := h.valid.fresh h.new o ho

/-- Looking for the renamed id finds the renamed order. -/
theorem find?_rename (h : p.Renamable x y) (hid : id ≠ y) :
    (p.rename x y).find? (renameId x y id) = (p.find? id).map (Order.rename x y) := by
  unfold find?
  rw [orders_rename, List.find?_map]
  refine congrArg _ (List.find?_congr ?_)
  intro o ho
  rw [Function.comp_apply, decide_eq_decide]
  exact renameId_inj (h.ne_of_mem ho) hid

/-- Removing the renamed id removes the renamed order. -/
theorem without_rename (h : p.Renamable x y) (hid : id ≠ y) :
    (p.rename x y).without (renameId x y id) = (p.without id).rename x y := by
  refine PriorityBook.ext (funext ?_) rfl
  intro s
  rw [side_without, side_rename, side_rename, side_without, List.filter_map]
  refine congrArg _ (List.filter_congr ?_)
  intro o ho
  have hne := h.ne_of_mem (mem_orders.mpr ⟨s, ho⟩)
  simp only [Function.comp_apply, decide_eq_decide]
  exact not_congr (renameId_inj hne hid)

theorem accept_rename (hid : id ≠ x) : (p.accept id).rename x y = (p.rename x y).accept (renameId x y id) := by
  refine PriorityBook.ext rfl ?_
  rw [renameId_of_ne hid]
  exact Finset.insert_comm y id p.accepted

/-- **Submitting** does not look at ids. -/
theorem submit_rename (p : PriorityBook) (o : Order) :
    (p.rename x y).submit (o.rename x y)
      = ((p.submit o).1.rename x y, (p.submit o).2.map (Trade.rename x y)) := by
  have hfill := ((fill_fills o (p.side o.side.opposite) o.remainingQty).rename x y).fill_eq
  unfold submit
  simp only [side_rename, Order.rename_side, Order.rename_remainingQty, hfill]
  refine Prod.ext (ext_sides o.side ?_ ?_ rfl) rfl
  · show (withSides _ _ _ _).side o.side = ((withSides _ _ _ _).side o.side).map (Order.rename x y)
    rw [side_withSides_own, side_withSides_own, restLeft_rename]
  · show (withSides _ _ _ _).side o.side.opposite = ((withSides _ _ _ _).side o.side.opposite).map (Order.rename x y)
    rw [side_withSides_opposite, side_withSides_opposite]

/-- **Every command that does not name `y`** does under the new name what it did under the old one. -/
theorem exec_rename (p : PriorityBook) (c : ScenarioCommand) (h : p.Renamable x y) (hc : c.orderId ≠ y) :
    (p.rename x y).exec (c.rename x y) = ((p.exec c).1.rename x y, renameResult x y (p.exec c).2) := by
  cases c with
  | add o =>
      have hne : o.id ≠ y := hc
      show (p.rename x y).addOrder (o.rename x y) = ((p.addOrder o).1.rename x y, renameResult x y (p.addOrder o).2)
      unfold addOrder
      by_cases h0 : o.remainingQty = 0
      · rw [if_pos h0, if_pos (show (o.rename x y).remainingQty = 0 from h0)]
        rfl
      rw [if_neg h0, if_neg (show ¬(o.rename x y).remainingQty = 0 from h0)]
      have hacc : (o.rename x y).id ∈ (p.rename x y).accepted ↔ o.id ∈ p.accepted := by
        show renameId x y o.id ∈ insert y p.accepted ↔ _
        by_cases hx : o.id = x
        · -- both names are used up
          rw [hx, renameId_self]
          exact ⟨fun _ => h.old, fun _ => Finset.mem_insert_self y _⟩
        · rw [renameId_of_ne hx, Finset.mem_insert]
          exact ⟨fun hmem => hmem.resolve_left hne, Or.inr⟩
      by_cases hid : o.id ∈ p.accepted
      · rw [if_pos hid, if_pos (hacc.mpr hid)]
        rfl
      · have hx : o.id ≠ x := fun heq => hid (heq ▸ h.old)
        have hsubmit : ((p.rename x y).accept (o.rename x y).id).submit (o.rename x y)
            = (((p.accept o.id).submit o).1.rename x y, ((p.accept o.id).submit o).2.map (Trade.rename x y)) := by
          rw [← submit_rename, accept_rename hx]
          rfl
        rw [if_neg hid, if_neg (mt hacc.mp hid), hsubmit]
        rfl
  | cancel id =>
      have hne : id ≠ y := hc
      show (p.rename x y).cancelOrder (renameId x y id)
        = ((p.cancelOrder id).1.rename x y, renameResult x y (p.cancelOrder id).2)
      unfold cancelOrder
      rw [find?_rename h hne]
      cases p.find? id with
      | none => rfl
      | some old =>
          show ((p.rename x y).without (renameId x y id), _) = _
          rw [without_rename h hne]
          rfl
  | modify id price qty =>
      have hne : id ≠ y := hc
      show (p.rename x y).modifyOrder (renameId x y id) price qty
        = ((p.modifyOrder id price qty).1.rename x y, renameResult x y (p.modifyOrder id price qty).2)
      unfold modifyOrder
      by_cases h0 : qty = 0
      · rw [if_pos h0, if_pos h0]
        rfl
      rw [if_neg h0, if_neg h0, find?_rename h hne]
      cases p.find? id with
      | none => rfl
      | some old =>
          have hnew : Order.new (renameId x y id) (old.rename x y).side price qty
              = (Order.new id old.side price qty).rename x y := rfl
          simp only [Option.map_some, hnew, without_rename h hne, submit_rename]
          rfl

/-- A command that does not name `y` leaves `y` free. -/
theorem renamable_exec (p : PriorityBook) (c : ScenarioCommand) (h : p.Renamable x y) (hc : c.orderId ≠ y) :
    (p.exec c).1.Renamable x y := by
  have haccepted : ∀ id, id ∈ (p.exec c).1.accepted ↔ id ∈ p.accepted ∨ id ∈ acceptedId c (p.exec c).2 :=
    fun _ => (p.exec_step c).mem_accepted
  refine ⟨h.valid.exec c, (haccepted x).mpr (Or.inl h.old), ?_⟩
  rw [haccepted, not_or]
  refine ⟨h.new, ?_⟩
  intro hmem
  cases c with
  | add o =>
      cases hres : (p.exec (.add o)).2 with
      | error e =>
          rw [hres] at hmem
          cases hmem
      | ok trades =>
          rw [hres] at hmem
          exact hc (List.mem_singleton.mp hmem).symm
  | cancel id => cases hmem
  | modify id price qty => cases hmem

section Run

variable {later : List ScenarioCommand}

/-- **A run of renamed commands** is the run, renamed. -/
theorem run_rename (h : p.Renamable x y) (hlater : ∀ c ∈ later, c.orderId ≠ y) :
    Machine.run exec (p.rename x y) (later.map (ScenarioCommand.rename x y))
      = ((Machine.run exec p later).1.rename x y, (Machine.run exec p later).2.map (renameResult x y)) := by
  exact Machine.run_map_of (g := renameResult x y) renamable_exec exec_rename h hlater

/-- Renaming changes no number of orders. -/
theorem always_rename (h : p.Renamable x y) (hlater : ∀ c ∈ later, c.orderId ≠ y) {n : Nat}
    (halways : Machine.Always (fun p => p.orders.length ≤ n) exec p later) :
    Machine.Always (fun p => p.orders.length ≤ n) exec (p.rename x y)
      (later.map (ScenarioCommand.rename x y)) := by
  refine Machine.Always.map_of (g := renameResult x y) renamable_exec exec_rename ?_ h hlater halways
  intro p hp
  rw [orders_rename, List.length_map]
  exact hp

end Run

/-! ## The two ways to move an order -/

/-- The book after the order `x` is modified. -/
def moved (p : PriorityBook) (x : OrderId) (s : Side) (price : Price) (qty : Quantity) :
    PriorityBook × List Trade :=
  (p.without x).submit (Order.new x s price qty)

/-- **Adding under a new id what was cancelled** is modifying it and renaming it. -/
theorem submit_fresh (p : PriorityBook) (x y : OrderId) (s : Side) (price : Price) (qty : Quantity) :
    ((p.without x).accept y).submit (Order.new y s price qty)
      = ((p.moved x s price qty).1.rename x y, (p.moved x s price qty).2.map (Trade.rename x y)) := by
  have hbook : (p.without x).accept y = (p.without x).rename x y := by
    refine PriorityBook.ext (funext ?_) rfl
    intro t
    -- no order with the old name is left to rename
    refine ((List.map_congr_left ?_).trans (List.map_id _)).symm
    intro o ho
    exact Order.rename_of_ne (of_decide_eq_true (List.mem_filter.mp ho).2)
  have horder : Order.new y s price qty = (Order.new x s price qty).rename x y := by
    unfold Order.new Order.rename
    dsimp only
    rw [renameId_self]
  rw [hbook, horder, submit_rename]
  rfl

theorem find?_of_mem_ids (h : p.Valid) {s : Side} (hx : x ∈ (p.side s).map Order.id) :
    ∃ old, p.find? x = some old ∧ old.side = s := by
  obtain ⟨old, hold, hid⟩ := List.mem_map.mp hx
  exact ⟨old, h.find?_eq_some.mpr ⟨mem_orders.mpr ⟨s, hold⟩, hid⟩, h.sided s old hold⟩

section Moved

variable {s : Side} {price : Price} {qty : Quantity}

/-- Modifying an order that rests moves it. -/
theorem exec_moved (h : p.Valid) (hx : x ∈ (p.side s).map Order.id) (price : Price) (hqty : qty ≠ 0) :
    p.exec (.modify x price qty) = ((p.moved x s price qty).1, .ok (p.moved x s price qty).2) := by
  obtain ⟨old, hfind, rfl⟩ := find?_of_mem_ids h hx
  exact exec_modify hfind hqty price

theorem exec_cancel (h : p.Valid) (hx : x ∈ (p.side s).map Order.id) :
    p.exec (.cancel x) = (p.without x, .ok []) := by
  obtain ⟨old, hfind, -⟩ := find?_of_mem_ids h hx
  show p.cancelOrder x = _
  unfold cancelOrder
  rw [hfind]

theorem exec_add_fresh (hy : y ∉ p.accepted) (hqty : qty ≠ 0) :
    (p.without x).exec (.add (Order.new y s price qty))
      = ((p.moved x s price qty).1.rename x y, .ok ((p.moved x s price qty).2.map (Trade.rename x y))) := by
  rw [exec_add (p := p.without x) hy hqty, submit_fresh]

/-- The book after the modify can be renamed. -/
theorem renamable_moved (h : p.Valid) (hx : x ∈ (p.side s).map Order.id) (hy : y ∉ p.accepted)
    (hqty : qty ≠ 0) : (p.moved x s price qty).1.Renamable x y := by
  obtain ⟨old, hold, hid⟩ := List.mem_map.mp hx
  have hvalid := h.exec (.modify x price qty)
  rw [exec_moved h hx price hqty] at hvalid
  exact ⟨hvalid, hid ▸ h.known old (mem_orders.mpr ⟨s, hold⟩), hy⟩

/-- **The two ways to move an order**, and whatever comes after. -/
theorem run_moved (h : p.Valid) (hx : x ∈ (p.side s).map Order.id) (hy : y ∉ p.accepted) (hqty : qty ≠ 0)
    {later : List ScenarioCommand} (hlater : ∀ c ∈ later, c.orderId ≠ y) :
    Machine.run exec p
        (.cancel x :: .add (Order.new y s price qty) :: later.map (ScenarioCommand.rename x y))
      = ((Machine.run exec (p.moved x s price qty).1 later).1.rename x y,
        .ok [] :: .ok ((p.moved x s price qty).2.map (Trade.rename x y))
          :: (Machine.run exec (p.moved x s price qty).1 later).2.map (renameResult x y)) := by
  rw [Machine.run_cons, exec_cancel h hx, Machine.run_cons, exec_add_fresh hy hqty,
    run_rename (renamable_moved h hx hy hqty) hlater]

/-- The second way needs no more room than the first. -/
theorem always_moved (h : p.Valid) (hx : x ∈ (p.side s).map Order.id) (hy : y ∉ p.accepted) (hqty : qty ≠ 0)
    {later : List ScenarioCommand} (hlater : ∀ c ∈ later, c.orderId ≠ y) {n : Nat}
    (halways : Machine.Always (fun p => p.orders.length ≤ n) exec p (.modify x price qty :: later)) :
    Machine.Always (fun p => p.orders.length ≤ n) exec p
      (.cancel x :: .add (Order.new y s price qty) :: later.map (ScenarioCommand.rename x y)) := by
  obtain ⟨hroom, hafter⟩ := halways
  rw [exec_moved h hx price hqty] at hafter
  have hcancelled : (p.without x).orders.length ≤ p.orders.length := by
    unfold orders
    rw [List.length_append, List.length_append]
    exact Nat.add_le_add (List.length_filter_le _ _) (List.length_filter_le _ _)
  refine ⟨hroom, ?_⟩
  rw [exec_cancel h hx]
  refine ⟨hcancelled.trans hroom, ?_⟩
  rw [exec_add_fresh hy hqty]
  exact always_rename (renamable_moved h hx hy hqty) hlater hafter

end Moved

end PriorityBook

/-! ## The snapshot -/

theorem Depicts.rename {snap : BookSnapshot} {p : PriorityBook} (h : Depicts snap p) (x y : OrderId) :
    Depicts (snap.rename x y) (p.rename x y) := by
  obtain ⟨L, hlevels, hsides⟩ := h
  refine ⟨fun s => (L s).map id (fun _ _ h => h) (Order.rename x y), ?_, ?_⟩
  · intro s
    show _ = renameLevels x y (L s).levels
    rw [← hlevels]
    cases s <;> rfl
  · intro s
    refine ⟨(hsides s).1.map (fun _ _ h => h) fun _ => rfl, ?_⟩
    rw [Ladder.flat_map, (hsides s).2]
    rfl

/-- **A modify is a cancel and a fresh add.** After every run, modifying a resting order `x` and cancelling it
    and adding an order under a fresh id `y` return the same trades up to renaming `x` to `y`, and so does
    every run of commands that do not name `y`, which also ends with the same snapshot. The modified order
    is last at its price, and did not trade with its old version. -/
theorem modify_is_cancel_then_add (mode : EventMode) (cmds later : List ScenarioCommand) (x : OrderId)
    (price : Price) (qty : Quantity) (hqty : qty ≠ 0)
    (hroom : OrderBook.NeverOverfull mode (cmds ++ .modify x price qty :: later)) :
    ∃ b results snap, OrderBook.run mode cmds = .ok (b, results) ∧ b.snapshot = .ok snap
      ∧ ∀ s, x ∈ (snap.orders s).map Order.id →
        ∃ trades b' snap', OrderBook.run mode (cmds ++ [.modify x price qty]) = .ok (b', results ++ [.ok trades])
          ∧ b'.snapshot = .ok snap'
          ∧ (∀ t ∈ trades, t.makerOrderId ≠ x)
          ∧ (∀ l ∈ snap'.levels s, ∀ o ∈ l.2, o.id = x → l.1 = price ∧ l.2.getLast? = some o)
          ∧ ∀ y, y ∉ acceptedIds cmds results → (∀ c ∈ later, c.orderId ≠ y) → ∀ done, done <+: later →
              ∃ b₁ b₂ laterResults laterSnap,
                OrderBook.run mode (cmds ++ .modify x price qty :: done)
                    = .ok (b₁, results ++ .ok trades :: laterResults)
                ∧ b₁.snapshot = .ok laterSnap
                ∧ OrderBook.run mode
                    (cmds ++ .cancel x :: .add (Order.new y s price qty)
                      :: done.map (ScenarioCommand.rename x y))
                    = .ok (b₂, results ++ .ok [] :: .ok (trades.map (Trade.rename x y))
                        :: laterResults.map (renameResult x y))
                ∧ b₂.snapshot = .ok (laterSnap.rename x y) := by
  have hmodify : OrderBook.NeverOverfull mode (cmds ++ [.modify x price qty]) :=
    hroom.of_prefix ⟨later, by simp⟩
  obtain ⟨b, snap, hrun, hsnap, hdepicts⟩ := run_depicts (hroom.of_prefix (List.prefix_append _ _))
  obtain ⟨b', snap', hrun', hsnap', hdepicts'⟩ := run_depicts hmodify
  refine ⟨b, _, snap, hrun, hsnap, ?_⟩
  intro s hx
  rw [hdepicts.orders_eq] at hx
  have hvalid := priorityRun_valid cmds
  have hmoved := PriorityBook.exec_moved hvalid hx price hqty
  have hvalid' := hvalid.exec (.modify x price qty)
  have hstep := (priorityRun cmds).1.exec_step (.modify x price qty)
  rw [hmoved] at hvalid' hstep
  rw [priorityRun_append, Machine.run_cons, hmoved] at hrun' hdepicts'
  refine ⟨_, b', snap', hrun', hsnap', fun t ht => ((hstep.trades hvalid).2 t ht).2.1, ?_, ?_⟩
  · intro l hl o ho hid
    have hallocates := allocates_submit (o := Order.new x s price qty) (hvalid.without x)
      (fun z hz => (PriorityBook.mem_orders_without.mp hz).2) (hdepicts.remove x) hdepicts'
    refine hallocates.last ?_ (hdepicts'.ids_eq ▸ hvalid'.distinct) hl ho hid
    rw [(hdepicts.remove x).ids_eq, List.mem_map]
    rintro ⟨z, hz, hid⟩
    exact (PriorityBook.mem_orders_without.mp hz).2 hid
  · intro y hy hlater done hdone
    have hfresh : y ∉ (priorityRun cmds).1.accepted := mt (PriorityBook.mem_accepted_priorityRun cmds y).mp hy
    have hdoneLater : ∀ c ∈ done, c.orderId ≠ y := fun c hc => hlater c (hdone.subset hc)
    have hroom₁ : OrderBook.NeverOverfull mode (cmds ++ .modify x price qty :: done) :=
      hroom.of_prefix ((List.prefix_append_right_inj cmds).mpr ((List.prefix_cons_inj _).mpr hdone))
    have hroom₂ : OrderBook.NeverOverfull mode
        (cmds ++ .cancel x :: .add (Order.new y s price qty) :: done.map (ScenarioCommand.rename x y)) := by
      rw [neverOverfull_iff_always, Machine.always_append] at hroom₁ ⊢
      exact ⟨hroom₁.1, PriorityBook.always_moved hvalid hx hfresh hqty hdoneLater hroom₁.2⟩
    obtain ⟨b₁, snap₁, hrun₁, hsnap₁, hdepicts₁⟩ := run_depicts hroom₁
    obtain ⟨b₂, snap₂, hrun₂, hsnap₂, hdepicts₂⟩ := run_depicts hroom₂
    rw [priorityRun_append, Machine.run_cons, hmoved] at hrun₁ hdepicts₁
    rw [priorityRun_append, PriorityBook.run_moved hvalid hx hfresh hqty hdoneLater] at hrun₂ hdepicts₂
    have hsame : snap₂ = snap₁.rename x y := hdepicts₂.eq (hdepicts₁.rename x y)
    rw [hsame] at hsnap₂
    exact ⟨b₁, b₂, _, snap₁, hrun₁, hsnap₁, hrun₂, hsnap₂⟩

/-- Order 1 of the session, moved up to the asks, trades and comes to rest; order 9 in its place does the
    same, and sells as order 1 would. -/
theorem modify_is_cancel_then_add_session :
    ∃ results b₁ b₂ laterResults laterSnap,
      OrderBook.run .full (session.take 5 ++ [.modify 1 105 5, .add ⟨6, .sell, 105, 1⟩])
          = .ok (b₁, results ++ .ok [⟨3, 1, 105, 3⟩] :: laterResults)
        ∧ b₁.snapshot = .ok laterSnap
        ∧ OrderBook.run .full
            (session.take 5 ++ [.cancel 1, .add (Order.new 9 .buy 105 5), .add ⟨6, .sell, 105, 1⟩])
          = .ok (b₂, results ++ .ok [] :: .ok [⟨3, 9, 105, 3⟩] :: laterResults.map (renameResult 1 9))
        ∧ b₂.snapshot = .ok (laterSnap.rename 1 9) := by
  obtain ⟨b, results, snap, hrun, hsnap, hmoved⟩ :=
    modify_is_cancel_then_add .full (session.take 5) [.add ⟨6, .sell, 105, 1⟩] 1 105 5 (by decide)
      (by decide +kernel)
  have hshown : (do
      let (b, results) ← OrderBook.run .full (session.take 5)
      let snap ← b.snapshot
      pure (decide (1 ∈ (snap.orders .buy).map Order.id ∧ 9 ∉ acceptedIds (session.take 5) results)))
        = .ok true := by decide +kernel
  rw [hrun, Machine.ok_bind] at hshown
  dsimp only at hshown
  rw [hsnap, Machine.ok_bind] at hshown
  obtain ⟨hx, hy⟩ := of_decide_eq_true (Except.ok.inj hshown)
  obtain ⟨trades, b', snap', hrun', -, -, -, hlater⟩ := hmoved .buy hx
  have htrades : (OrderBook.run .full (session.take 5 ++ [.modify 1 105 5])).map (fun r => r.2.getLast?)
      = .ok (some (.ok [⟨3, 1, 105, 3⟩])) := by decide +kernel
  rw [hrun'] at htrades
  have hlast := Except.ok.inj htrades
  dsimp only at hlast
  rw [List.getLast?_concat] at hlast
  cases hlast
  obtain ⟨b₁, b₂, laterResults, laterSnap, h⟩ := hlater 9 hy (by decide) _ (List.prefix_refl _)
  exact ⟨results, b₁, b₂, laterResults, laterSnap, h⟩

end LimitOrderBook
