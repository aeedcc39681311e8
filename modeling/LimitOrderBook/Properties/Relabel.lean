import Mathlib.Data.List.Find
import LimitOrderBook.Events.Log
import LimitOrderBook.Refinement.Run

/-!
# `Properties.Relabel` — only the order of prices and the names of orders matter

Only the order of prices and the names of orders matter. The engine compares prices, compares ids for equality, and
adds and subtracts quantities. So a run under new prices in the same order, new ids that are as different, and
quantities in a finer unit is the same run under the new names: its results, its snapshot and its log are the old ones
renamed.

No total map on 64-bit prices but the identity keeps their order. So a `Relabelling` says which prices, ids and
quantities it is for; `Covers` and `Knows` say that an order or a command is made of these.

The proof goes along the layers of the priority book: quantities and prices, matching (`fills_relabel`), submitting
(`submit_relabel`), commands (`exec_relabel`) and runs (`priorityRun_relabel`), each with a lemma that what comes out
is covered again (`Covered.step`). `Depicts.relabel` and `runEvents_relabel` read the snapshot and the log, and
`engine_relabels` is the result for a run of the source.
-/

namespace LimitOrderBook

/-! ## Renamings -/

/-- New names for the prices of `prices` and the ids of `ids`, and a finer unit for quantities up to
    `most`. -/
structure Relabelling where
  price : Price → Price
  id : OrderId → OrderId
  scale : Nat
  prices : List Price
  ids : List OrderId
  most : Quantity
  price_lt : ∀ p ∈ prices, ∀ q ∈ prices, p < q → price p < price q
  id_inj : ∀ x ∈ ids, ∀ y ∈ ids, id x = id y → x = y
  scale_pos : 0 < scale
  fits : most.toNat * scale < 2 ^ 64

namespace Relabelling

/-- A quantity in the finer unit. -/
def quantity (r : Relabelling) (q : Quantity) : Quantity := UInt64.ofNat (q.toNat * r.scale)

def order (r : Relabelling) (o : Order) : Order := ⟨r.id o.id, o.side, r.price o.price, r.quantity o.remainingQty⟩

def trade (r : Relabelling) (t : Trade) : Trade :=
  ⟨r.id t.makerOrderId, r.id t.takerOrderId, r.price t.price, r.quantity t.quantity⟩

def command (r : Relabelling) : ScenarioCommand → ScenarioCommand
  | .add order => .add (r.order order)
  | .cancel id => .cancel (r.id id)
  | .modify id newPrice newQuantity => .modify (r.id id) (r.price newPrice) (r.quantity newQuantity)

def result (r : Relabelling) (res : CommandResult) : CommandResult := res.map (List.map r.trade)

def event (r : Relabelling) : BookEvent → BookEvent
  | .orderAccepted order => .orderAccepted (r.order order)
  | .orderCancelled id => .orderCancelled (r.id id)
  | .orderModified id newPrice newQuantity =>
      .orderModified (r.id id) (r.price newPrice) (r.quantity newQuantity)
  | .tradeExecuted trade => .tradeExecuted (r.trade trade)

def levels (r : Relabelling) (levels : List (Price × List Order)) : List (Price × List Order) :=
  levels.map fun l => (r.price l.1, l.2.map r.order)

def snapshot (r : Relabelling) (snap : BookSnapshot) : BookSnapshot := ⟨r.levels snap.bids, r.levels snap.asks⟩

/-- An order made of values that the renaming is for. -/
structure Covers (r : Relabelling) (o : Order) : Prop where
  price : o.price ∈ r.prices
  id : o.id ∈ r.ids
  quantity : o.remainingQty ≤ r.most

/-- A command made of values that the renaming is for. -/
def Knows (r : Relabelling) : ScenarioCommand → Prop
  | .add order => r.Covers order
  | .cancel id => id ∈ r.ids
  | .modify id newPrice newQuantity => id ∈ r.ids ∧ newPrice ∈ r.prices ∧ newQuantity ≤ r.most

instance (r : Relabelling) (o : Order) : Decidable (r.Covers o) :=
  decidable_of_iff (o.price ∈ r.prices ∧ o.id ∈ r.ids ∧ o.remainingQty ≤ r.most)
    ⟨fun h => ⟨h.1, h.2.1, h.2.2⟩, fun h => ⟨h.1, h.2, h.3⟩⟩

instance (r : Relabelling) : DecidablePred r.Knows
  | .add order => inferInstanceAs (Decidable (r.Covers order))
  | .cancel id => inferInstanceAs (Decidable (id ∈ r.ids))
  | .modify id newPrice newQuantity =>
      inferInstanceAs (Decidable (id ∈ r.ids ∧ newPrice ∈ r.prices ∧ newQuantity ≤ r.most))

variable {r : Relabelling}

@[simp] theorem order_side (o : Order) : (r.order o).side = o.side := rfl

@[simp] theorem order_remainingQty (o : Order) : (r.order o).remainingQty = r.quantity o.remainingQty := rfl

/-! ## Quantities -/

section Quantities

variable {q q' : Quantity}

theorem toNat_quantity (h : q ≤ r.most) : (r.quantity q).toNat = q.toNat * r.scale := by
  have hle : q.toNat * r.scale ≤ r.most.toNat * r.scale :=
    Nat.mul_le_mul_right _ (UInt64.le_iff_toNat_le.mp h)
  exact UInt64.toNat_ofNat_of_lt' (hle.trans_lt r.fits)

/-- Quantities keep their order. -/
theorem quantity_le (h : q ≤ r.most) (h' : q' ≤ r.most) : r.quantity q ≤ r.quantity q' ↔ q ≤ q' := by
  rw [UInt64.le_iff_toNat_le, toNat_quantity h, toNat_quantity h', UInt64.le_iff_toNat_le]
  exact Nat.mul_le_mul_right_iff r.scale_pos

/-- In a finer unit nothing is still nothing. -/
theorem quantity_eq_zero (h : q ≤ r.most) : r.quantity q = 0 ↔ q = 0 := by
  rw [← UInt64.toNat_inj, toNat_quantity h, ← UInt64.toNat_inj]
  show q.toNat * r.scale = 0 ↔ q.toNat = 0
  rw [Nat.mul_eq_zero]
  exact or_iff_left r.scale_pos.ne'

theorem sub_le_most (h : q ≤ r.most) (hle : q' ≤ q) : q - q' ≤ r.most := by
  rw [UInt64.le_iff_toNat_le, UInt64.toNat_sub_of_le _ _ hle]
  exact (Nat.sub_le _ _).trans (UInt64.le_iff_toNat_le.mp h)

/-- The finer unit does not change what is left. -/
theorem quantity_sub (h : q ≤ r.most) (hle : q' ≤ q) : r.quantity (q - q') = r.quantity q - r.quantity q' := by
  have h' : q' ≤ r.most := UInt64.le_trans hle h
  rw [← UInt64.toNat_inj, toNat_quantity (sub_le_most h hle),
    UInt64.toNat_sub_of_le _ _ ((quantity_le h' h).mpr hle), toNat_quantity h, toNat_quantity h',
    UInt64.toNat_sub_of_le _ _ hle, Nat.sub_mul]

end Quantities

/-! ## Prices -/

section Prices

variable {s : Side} {p q : Price}

/-- Prices keep their order. -/
theorem price_lt_iff (hp : p ∈ r.prices) (hq : q ∈ r.prices) : r.price p < r.price q ↔ p < q := by
  constructor
  · intro hlt
    by_contra hnot
    rcases UInt64.lt_or_eq_of_le (UInt64.not_lt.mp hnot) with hgt | rfl
    · exact UInt64.lt_asymm hlt (r.price_lt q hq p hp hgt)
    · exact UInt64.lt_irrefl _ hlt
  · exact r.price_lt p hp q hq

theorem better_price (hp : p ∈ r.prices) (hq : q ∈ r.prices) :
    s.better (r.price p) (r.price q) ↔ s.better p q := by
  cases s with
  | buy => exact price_lt_iff hq hp
  | sell => exact price_lt_iff hp hq

/-- So the same orders cross. -/
theorem crosses_price (hp : p ∈ r.prices) (hq : q ∈ r.prices) :
    s.crosses (r.price p) (r.price q) ↔ s.crosses p q := by
  rw [Side.crosses_iff, Side.crosses_iff, better_price hp hq]

end Prices

/-- Ids are as different as before. -/
theorem id_eq_iff {x y : OrderId} (hx : x ∈ r.ids) (hy : y ∈ r.ids) : r.id x = r.id y ↔ x = y :=
  ⟨r.id_inj x hx y hy, congrArg r.id⟩

/-! ## Matching and resting -/

/-- **Matching commutes with renaming**: each way a step can go is the same way under the new names. -/
theorem fills_relabel {taker : Order} {xs ys : List Order} {left left' : Quantity} {trades : List Trade}
    (h : Fills taker xs left ys left' trades) (htaker : taker.price ∈ r.prices) (hxs : ∀ x ∈ xs, r.Covers x)
    (hleft : left ≤ r.most) :
    Fills (r.order taker) (xs.map r.order) (r.quantity left) (ys.map r.order) (r.quantity left')
      (trades.map r.trade) := by
  induction h with
  | empty left => exact .empty _
  | @stop maker rest left hstop =>
      have hmaker := hxs maker List.mem_cons_self
      refine .stop (hstop.imp (quantity_eq_zero hleft).mpr ?_)
      intro hcross hrenamed
      exact hcross ((crosses_price htaker hmaker.price).mp hrenamed)
  | @full maker rest rest' left left' trades h0 hcross hle _ ih =>
      obtain ⟨hmaker, hrest⟩ := List.forall_mem_cons.mp hxs
      have ih := ih hrest (sub_le_most hleft hle)
      rw [quantity_sub hleft hle] at ih
      apply Fills.full
      · exact mt (quantity_eq_zero hleft).mp h0
      · exact (crosses_price htaker hmaker.price).mpr hcross
      · exact (quantity_le hmaker.quantity hleft).mpr hle
      · exact ih
  | @part maker rest left h0 hcross hle =>
      have hmaker := hxs maker List.mem_cons_self
      have hlt : left ≤ maker.remainingQty := UInt64.le_of_lt (UInt64.not_le.mp hle)
      have hfront : r.order { maker with remainingQty := maker.remainingQty - left }
          = { r.order maker with remainingQty := (r.order maker).remainingQty - r.quantity left } := by
        show Order.mk _ _ _ (r.quantity _) = _
        rw [quantity_sub hmaker.quantity hlt]
        rfl
      have hzero : r.quantity 0 = 0 := (quantity_eq_zero (UInt64.zero_le)).mpr rfl
      rw [List.map_cons, List.map_cons, hfront, hzero]
      apply Fills.part
      · exact mt (quantity_eq_zero hleft).mp h0
      · exact (crosses_price htaker hmaker.price).mpr hcross
      · exact mt (quantity_le hmaker.quantity hleft).mp hle

/-- Matching makes no order larger. -/
theorem covers_fills {taker : Order} {xs ys : List Order} {left left' : Quantity} {trades : List Trade}
    (h : Fills taker xs left ys left' trades) (hxs : ∀ x ∈ xs, r.Covers x) (hleft : left ≤ r.most) :
    (∀ y ∈ ys, r.Covers y) ∧ left' ≤ r.most := by
  induction h with
  | empty left => exact ⟨hxs, hleft⟩
  | stop hstop => exact ⟨hxs, hleft⟩
  | full _ _ hle _ ih => exact ih (List.forall_mem_cons.mp hxs).2 (sub_le_most hleft hle)
  | @part maker rest left _ _ hle =>
      obtain ⟨hmaker, hrest⟩ := List.forall_mem_cons.mp hxs
      have hlt : left ≤ maker.remainingQty := UInt64.le_of_lt (UInt64.not_le.mp hle)
      refine ⟨List.forall_mem_cons.mpr ⟨?_, hrest⟩, UInt64.zero_le⟩
      exact ⟨hmaker.price, hmaker.id, sub_le_most hmaker.quantity hlt⟩

/-- The renamed order rests in the same place. -/
theorem restLeft_relabel {o : Order} {left : Quantity} {own : List Order} (ho : o.price ∈ r.prices)
    (hown : ∀ x ∈ own, r.Covers x) (hleft : left ≤ r.most) :
    restLeft (r.order o) (r.quantity left) (own.map r.order) = (restLeft o left own).map r.order := by
  unfold restLeft
  by_cases h0 : left = 0
  · rw [if_pos h0, if_pos ((quantity_eq_zero hleft).mpr h0)]
  · -- the new prices keep who is ahead of whom
    have hmap := List.map_orderedInsert (r := o.side.ahead) (s := (r.order o).side.ahead) r.order own
      { o with remainingQty := left } (fun x hx => (better_price (hown x hx).price ho).symm)
      (fun x hx => (better_price ho (hown x hx).price).symm)
    rw [if_neg h0, if_neg (mt (quantity_eq_zero hleft).mp h0), hmap]
    rfl

end Relabelling

/-! ## The priority book -/

namespace PriorityBook

variable {r : Relabelling} {p : PriorityBook} {o : Order} {id : OrderId} {c : ScenarioCommand}

/-- The book under the new names. -/
def relabel (r : Relabelling) (p : PriorityBook) : PriorityBook :=
  ⟨fun s => (p.side s).map r.order, p.accepted.image r.id⟩

@[simp] theorem side_relabel (s : Side) : (p.relabel r).side s = (p.side s).map r.order := rfl

theorem orders_relabel : (p.relabel r).orders = p.orders.map r.order := by
  unfold orders
  rw [List.map_append]
  rfl

/-- A book made of values that the renaming is for. -/
structure Covered (r : Relabelling) (p : PriorityBook) : Prop where
  orders : ∀ o ∈ p.orders, r.Covers o
  accepted : ∀ id ∈ p.accepted, id ∈ r.ids

theorem Covered.side (h : p.Covered r) (s : Side) : ∀ o ∈ p.side s, r.Covers o :=
  fun o ho => h.orders o (mem_orders.mpr ⟨s, ho⟩)

theorem Covered.accept (h : p.Covered r) (hid : id ∈ r.ids) : (p.accept id).Covered r := by
  refine ⟨h.orders, ?_⟩
  intro id' hid'
  rcases Finset.mem_insert.mp hid' with rfl | hid'
  · exact hid
  · exact h.accepted id' hid'

theorem Covered.without (h : p.Covered r) (id : OrderId) : (p.without id).Covered r :=
  ⟨fun o ho => h.orders o (mem_orders_without.mp ho).1, h.accepted⟩

/-- Submitting brings no other values into the book. -/
theorem Covered.submit (h : p.Covered r) (ho : r.Covers o) : (p.submit o).1.Covered r := by
  obtain ⟨left, hfills, hown⟩ := p.submit_spec o
  obtain ⟨hopposite, hleft⟩ := Relabelling.covers_fills hfills (h.side _) ho.quantity
  refine ⟨?_, h.accepted⟩
  intro x hx
  obtain ⟨s, hx⟩ := mem_orders.mp hx
  rcases s.eq_or_eq_opposite o.side with rfl | rfl
  · rw [hown, mem_restLeft] at hx
    rcases hx with hx | ⟨-, rfl⟩
    · exact h.side _ x hx
    · exact ⟨ho.price, ho.id, hleft⟩
  · exact hopposite x hx

theorem mem_accepted_relabel (h : p.Covered r) (hid : id ∈ r.ids) :
    r.id id ∈ (p.relabel r).accepted ↔ id ∈ p.accepted := by
  constructor
  · intro hmem
    obtain ⟨id', hid', heq⟩ := Finset.mem_image.mp hmem
    rw [← r.id_inj id' (h.accepted id' hid') id hid heq]
    exact hid'
  · exact Finset.mem_image_of_mem r.id

/-- Looking for a renamed id finds the renamed order. -/
theorem find?_relabel (h : p.Covered r) (hid : id ∈ r.ids) :
    (p.relabel r).find? (r.id id) = (p.find? id).map r.order := by
  unfold find?
  rw [orders_relabel, List.find?_map]
  refine congrArg _ (List.find?_congr ?_)
  intro o ho
  rw [Function.comp_apply, decide_eq_decide]
  exact Relabelling.id_eq_iff (h.orders o ho).id hid

theorem without_relabel (h : p.Covered r) (hid : id ∈ r.ids) :
    (p.relabel r).without (r.id id) = (p.without id).relabel r := by
  refine PriorityBook.ext (funext ?_) rfl
  intro s
  rw [side_without, side_relabel, side_relabel, side_without, List.filter_map]
  refine congrArg _ (List.filter_congr ?_)
  intro o ho
  simp only [Function.comp_apply, decide_eq_decide]
  exact not_congr (Relabelling.id_eq_iff (h.side s o ho).id hid)

theorem accept_relabel (p : PriorityBook) (id : OrderId) :
    (p.relabel r).accept (r.id id) = (p.accept id).relabel r :=
  PriorityBook.ext rfl (Finset.image_insert r.id id p.accepted).symm

/-- **Submitting commutes with renaming.** -/
theorem submit_relabel (h : p.Covered r) (ho : r.Covers o) :
    (p.relabel r).submit (r.order o) = ((p.submit o).1.relabel r, (p.submit o).2.map r.trade) := by
  have hfills := fill_fills o (p.side o.side.opposite) o.remainingQty
  have hrenamed := Relabelling.fills_relabel hfills ho.price (h.side _) ho.quantity
  obtain ⟨-, hleft⟩ := Relabelling.covers_fills hfills (h.side _) ho.quantity
  unfold submit
  simp only [side_relabel, Relabelling.order_side, Relabelling.order_remainingQty, hrenamed.fill_eq]
  refine Prod.ext (ext_sides o.side ?_ ?_ rfl) rfl
  · show (withSides _ _ _ _).side o.side = ((withSides _ _ _ _).side o.side).map r.order
    rw [side_withSides_own, side_withSides_own]
    exact Relabelling.restLeft_relabel ho.price (h.side _) hleft
  · show (withSides _ _ _ _).side o.side.opposite = ((withSides _ _ _ _).side o.side.opposite).map r.order
    rw [side_withSides_opposite, side_withSides_opposite]

/-- The order that a modify submits is made of the same values. -/
theorem covers_new {price : Price} {qty : Quantity} (hc : r.Knows (.modify id price qty)) (s : Side) :
    r.Covers (Order.new id s price qty) := ⟨hc.2.1, hc.1, hc.2.2⟩

/-- **Every command commutes with renaming.** -/
theorem exec_relabel (p : PriorityBook) (c : ScenarioCommand) (h : p.Covered r) (hc : r.Knows c) :
    (p.relabel r).exec (r.command c) = ((p.exec c).1.relabel r, r.result (p.exec c).2) := by
  cases c with
  | add o =>
      have ho : r.Covers o := hc
      have hzero : (r.order o).remainingQty = 0 ↔ o.remainingQty = 0 := Relabelling.quantity_eq_zero ho.quantity
      have hseen : (r.order o).id ∈ (p.relabel r).accepted ↔ o.id ∈ p.accepted := mem_accepted_relabel h ho.id
      show (p.relabel r).addOrder (r.order o) = ((p.addOrder o).1.relabel r, r.result (p.addOrder o).2)
      unfold addOrder
      by_cases h0 : o.remainingQty = 0
      · rw [if_pos h0, if_pos (hzero.mpr h0)]
        rfl
      rw [if_neg h0, if_neg (mt hzero.mp h0)]
      by_cases hid : o.id ∈ p.accepted
      · rw [if_pos hid, if_pos (hseen.mpr hid)]
        rfl
      · have hsubmit : ((p.relabel r).accept (r.order o).id).submit (r.order o)
            = (((p.accept o.id).submit o).1.relabel r, ((p.accept o.id).submit o).2.map r.trade) := by
          rw [← submit_relabel (h.accept ho.id) ho, ← accept_relabel]
          rfl
        rw [if_neg hid, if_neg (mt hseen.mp hid), hsubmit]
        rfl
  | cancel id =>
      have hid : id ∈ r.ids := hc
      show (p.relabel r).cancelOrder (r.id id) = ((p.cancelOrder id).1.relabel r, r.result (p.cancelOrder id).2)
      unfold cancelOrder
      rw [find?_relabel h hid]
      cases p.find? id with
      | none => rfl
      | some old =>
          show ((p.relabel r).without (r.id id), _) = _
          rw [without_relabel h hid]
          rfl
  | modify id price qty =>
      have hnew := covers_new hc
      obtain ⟨hid, -, hqty⟩ := hc
      show (p.relabel r).modifyOrder (r.id id) (r.price price) (r.quantity qty)
        = ((p.modifyOrder id price qty).1.relabel r, r.result (p.modifyOrder id price qty).2)
      unfold modifyOrder
      by_cases h0 : qty = 0
      · rw [if_pos h0, if_pos ((Relabelling.quantity_eq_zero hqty).mpr h0)]
        rfl
      rw [if_neg h0, if_neg (mt (Relabelling.quantity_eq_zero hqty).mp h0), find?_relabel h hid]
      cases p.find? id with
      | none => rfl
      | some old =>
          have horder : Order.new (r.id id) (r.order old).side (r.price price) (r.quantity qty)
              = r.order (Order.new id old.side price qty) := rfl
          simp only [Option.map_some, horder, without_relabel h hid, submit_relabel (h.without id) (hnew old.side)]
          rfl

/-- A command made of known values leaves a book made of known values. -/
theorem Covered.step {p' : PriorityBook} {res : CommandResult} (h : p.Covered r) (hc : r.Knows c)
    (hstep : p.Step c p' res) : p'.Covered r := by
  cases hstep with
  | rejected _ => exact h
  | @added o h0 hnew =>
      have ho : r.Covers o := hc
      exact (h.accept ho.id).submit ho
  | cancelled _ => exact h.without _
  | modified h0 hold => exact (h.without _).submit (covers_new hc _)

theorem covered_exec (p : PriorityBook) (c : ScenarioCommand) (h : p.Covered r) (hc : r.Knows c) :
    (p.exec c).1.Covered r := h.step hc (p.exec_step c)

theorem covered_empty (r : Relabelling) : Covered r {} := by
  refine ⟨?_, ?_⟩ <;> simp [orders]

end PriorityBook

section Run

variable {r : Relabelling} {cmds : List ScenarioCommand}

/-- **Every run commutes with renaming.** -/
theorem priorityRun_relabel (hknows : ∀ c ∈ cmds, r.Knows c) :
    priorityRun (cmds.map r.command)
      = ((priorityRun cmds).1.relabel r, (priorityRun cmds).2.map r.result) :=
  Machine.run_map_of (g := r.result) PriorityBook.covered_exec PriorityBook.exec_relabel
    (PriorityBook.covered_empty r) hknows

/-- A run of covered commands leads to a covered book. -/
theorem priorityRun_covered (hknows : ∀ c ∈ cmds, r.Knows c) : (priorityRun cmds).1.Covered r :=
  Machine.run_invariant_of PriorityBook.covered_exec (PriorityBook.covered_empty r) hknows

/-- A renamed run rests as many orders. -/
theorem NeverOverfull.relabel {mode : EventMode} (h : OrderBook.NeverOverfull mode cmds)
    (hknows : ∀ c ∈ cmds, r.Knows c) : OrderBook.NeverOverfull mode (cmds.map r.command) := by
  rw [neverOverfull_iff_always] at h ⊢
  refine Machine.Always.map_of (h := PriorityBook.relabel r) (g := r.result) PriorityBook.covered_exec
    PriorityBook.exec_relabel ?_ (PriorityBook.covered_empty r) hknows h
  intro p hp
  rw [PriorityBook.orders_relabel, List.length_map]
  exact hp

end Run

/-! ## The snapshot and the log -/

section Views

variable {r : Relabelling} {p : PriorityBook} {snap : BookSnapshot} {cmds : List ScenarioCommand}
  {results : List CommandResult}

/-- A renamed book shows the renamed snapshot. -/
theorem Depicts.relabel (h : Depicts snap p) (hcovered : p.Covered r) :
    Depicts (r.snapshot snap) (p.relabel r) := by
  obtain ⟨L, hlevels, hsides⟩ := h
  have hkeys : ∀ s, ∀ l ∈ (L s).levels, l.1 ∈ r.prices := by
    intro s l hl
    obtain ⟨x, hx, hkey⟩ := (hsides s).1.exists_key hl
    rw [(hsides s).2] at hx
    rw [← hkey]
    exact (hcovered.side s x hx).price
  refine ⟨fun s => (L s).mapOn r.price r.order fun a ha b hb hab =>
    (Relabelling.better_price (hkeys s a ha) (hkeys s b hb)).mpr hab, ?_, ?_⟩
  · intro s
    show _ = r.levels (L s).levels
    rw [← hlevels]
    cases s <;> rfl
  · intro s
    refine ⟨(hsides s).1.mapOn fun _ => rfl, ?_⟩
    rw [Ladder.flat_mapOn, (hsides s).2]
    rfl

theorem callEvents_relabel (c : ScenarioCommand) (res : CommandResult) :
    callEvents (r.command c) (r.result res) = (callEvents c res).map r.event := by
  have htrades : ∀ trades : List Trade, (trades.map r.trade).map BookEvent.tradeExecuted
      = (trades.map BookEvent.tradeExecuted).map r.event := by
    intro trades
    rw [List.map_map, List.map_map]
    rfl
  cases res with
  | error e => cases c <;> rfl
  | ok trades =>
      cases c with
      | add order => exact congrArg (BookEvent.orderAccepted (r.order order) :: ·) (htrades trades)
      | cancel id => rfl
      | modify id price qty => exact congrArg (r.event (.orderModified id price qty) :: ·) (htrades trades)

/-- The log of the renamed run is the log renamed. -/
theorem runEvents_relabel :
    runEvents (cmds.map r.command) (results.map r.result) = (runEvents cmds results).map r.event := by
  unfold runEvents
  rw [List.zipWith_map, List.map_flatten, List.map_zipWith]
  have hcall : (fun c res => callEvents (r.command c) (r.result res))
      = fun c res => (callEvents c res).map r.event :=
    funext fun c => funext fun res => callEvents_relabel c res
  exact congrArg (fun f => (List.zipWith f cmds results).flatten) hcall

/-- Renaming an event does not change its kind. -/
theorem keeps_event (mode : EventMode) (e : BookEvent) : mode.keeps (r.event e) = mode.keeps e := by
  cases mode <;> cases e <;> rfl

end Views

/-- **Only the order of prices and the names of orders matter.** If every command is made of values that the
    renaming is for, the run under the new names returns the renamed results, shows the renamed snapshot
    and keeps the renamed log. -/
theorem engine_relabels (mode : EventMode) (r : Relabelling) (cmds : List ScenarioCommand)
    (hknows : ∀ c ∈ cmds, r.Knows c) (hroom : OrderBook.NeverOverfull mode cmds) :
    ∃ b b' results snap, OrderBook.run mode cmds = .ok (b, results) ∧ b.snapshot = .ok snap
      ∧ OrderBook.run mode (cmds.map r.command) = .ok (b', results.map r.result)
      ∧ b'.snapshot = .ok (r.snapshot snap) ∧ b'.events = b.events.map r.event := by
  obtain ⟨b, snap, hrun, hsnap, hdepicts⟩ := run_depicts hroom
  obtain ⟨b', snap', hrun', hsnap', hdepicts'⟩ := run_depicts (NeverOverfull.relabel hroom hknows)
  rw [priorityRun_relabel hknows] at hrun' hdepicts'
  have hsame : snap' = r.snapshot snap := hdepicts'.eq (hdepicts.relabel (priorityRun_covered hknows))
  rw [hsame] at hsnap'
  refine ⟨b, b', _, snap, hrun, hsnap, hrun', hsnap', ?_⟩
  obtain ⟨hlog, -⟩ := OrderBook.tryRun_log hrun
  obtain ⟨hlog', -⟩ := OrderBook.tryRun_log hrun'
  have hkeeps : mode.keeps ∘ r.event = mode.keeps := funext (keeps_event mode)
  rw [hlog', hlog, runEvents_relabel]
  show [] ++ _ = ([] ++ _ : List BookEvent).map r.event
  rw [List.nil_append, List.nil_append, List.filter_map]
  exact congrArg (fun f => ((runEvents cmds _).filter f).map r.event) hkeeps

/-- Prices doubled and moved up, ids counted down, quantities in thirds. -/
def sessionRelabelling : Relabelling where
  price p := 2 * p + 7
  id x := 100 - x
  scale := 3
  prices := [1, 100, 105, 107]
  ids := [1, 2, 3, 4, 5, 6, 99]
  most := 20
  price_lt := by simp
  id_inj := by simp
  scale_pos := by decide
  fits := by decide

/-- The session under new names. -/
theorem engine_relabels_session :
    ∃ b b' results snap, OrderBook.run .full session = .ok (b, results) ∧ b.snapshot = .ok snap
      ∧ OrderBook.run .full (session.map sessionRelabelling.command)
          = .ok (b', results.map sessionRelabelling.result)
      ∧ b'.snapshot = .ok (sessionRelabelling.snapshot snap)
      ∧ b'.events = b.events.map sessionRelabelling.event :=
  engine_relabels .full sessionRelabelling session (by decide +kernel) (by decide +kernel)

end LimitOrderBook
