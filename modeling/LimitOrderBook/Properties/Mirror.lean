import LimitOrderBook.Refinement.Run
import LimitOrderBook.Reference.Steps

/-!
# `Properties.Mirror` — buy and sell are mirror images

Buy and sell are mirror images. Swapping the sides and turning every price `p` into `2 ^ 64 - 1 - p` turns a run into
a run, with the mirrored trades and the mirrored book after every prefix.

On the priority book the mirror is a homomorphism: each part of a command commutes with it. Prices keep their order
the other way round (`mirrorPrice_lt`), so what is better or crosses on one side is better or crosses on the other;
matching and resting follow (`Fills.mirror`, `restLeft_mirror`), then submitting (`submit_mirror`), commands
(`exec_mirror`) and runs (`priorityRun_mirror`). `Represents.snapshot_mirror` reads the result off the two books,
whose sides are kept in two different maps with two different orders.
-/

namespace LimitOrderBook

/-! ## Mirroring -/

/-- `u64::MAX - p`. -/
def mirrorPrice (p : Price) : Price := 0xFFFFFFFFFFFFFFFF - p

def Order.mirror (o : Order) : Order := { o with side := o.side.opposite, price := mirrorPrice o.price }

def Trade.mirror (t : Trade) : Trade := { t with price := mirrorPrice t.price }

def ScenarioCommand.mirror : ScenarioCommand → ScenarioCommand
  | .add order => .add order.mirror
  | .cancel id => .cancel id
  | .modify id newPrice newQuantity => .modify id (mirrorPrice newPrice) newQuantity

def mirrorResult (res : CommandResult) : CommandResult := res.map (List.map Trade.mirror)

def mirrorLevels (levels : List (Price × List Order)) : List (Price × List Order) :=
  levels.map fun l => (mirrorPrice l.1, l.2.map Order.mirror)

/-- Bids and asks exchanged, all prices mirrored. -/
def BookSnapshot.mirror (snap : BookSnapshot) : BookSnapshot :=
  ⟨mirrorLevels snap.asks, mirrorLevels snap.bids⟩

@[simp] theorem Order.mirror_side (o : Order) : o.mirror.side = o.side.opposite := rfl

@[simp] theorem Order.mirror_remainingQty (o : Order) : o.mirror.remainingQty = o.remainingQty := rfl

/-! ## Prices -/

theorem toNat_mirrorPrice (p : Price) : (mirrorPrice p).toNat = 2 ^ 64 - 1 - p.toNat := by
  have hle : p ≤ 0xFFFFFFFFFFFFFFFF := by
    rw [UInt64.le_iff_toNat_le]
    have := p.toNat_lt
    show p.toNat ≤ 2 ^ 64 - 1
    omega
  unfold mirrorPrice
  rw [UInt64.toNat_sub_of_le _ _ hle]
  rfl

/-- The mirror turns the order of prices around. -/
theorem mirrorPrice_lt {p q : Price} : mirrorPrice p < mirrorPrice q ↔ q < p := by
  rw [UInt64.lt_iff_toNat_lt, UInt64.lt_iff_toNat_lt, toNat_mirrorPrice, toNat_mirrorPrice]
  have hp := p.toNat_lt
  have hq := q.toNat_lt
  omega

/-- What is better for one side is better for the other, mirrored. -/
theorem better_mirrorPrice {s : Side} {p q : Price} :
    s.opposite.better (mirrorPrice p) (mirrorPrice q) ↔ s.better p q := by
  cases s with
  | buy => exact mirrorPrice_lt
  | sell => exact mirrorPrice_lt

/-- Mirrored prices cross as the prices do. -/
theorem crosses_mirrorPrice {s : Side} {limit price : Price} :
    s.opposite.crosses (mirrorPrice limit) (mirrorPrice price) ↔ s.crosses limit price := by
  rw [Side.crosses_iff, Side.crosses_iff, better_mirrorPrice]

/-! ## Matching and resting -/

/-- **Matching mirrors**: each way a step can go is the mirror of the same way. -/
theorem Fills.mirror {taker : Order} {xs ys : List Order} {left left' : Quantity} {trades : List Trade}
    (h : Fills taker xs left ys left' trades) :
    Fills taker.mirror (xs.map Order.mirror) left (ys.map Order.mirror) left'
      (trades.map Trade.mirror) := by
  induction h with
  | empty left => exact .empty left
  | stop hstop =>
      refine .stop (hstop.imp id ?_)
      intro hcross hmirror
      exact hcross (crosses_mirrorPrice.mp hmirror)
  | full hleft hcross hle _ ih => exact .full hleft (crosses_mirrorPrice.mpr hcross) hle ih
  | part hleft hcross hle => exact .part hleft (crosses_mirrorPrice.mpr hcross) hle

/-- The mirrored order rests in the mirrored place. -/
theorem restLeft_mirror (o : Order) (left : Quantity) (own : List Order) :
    restLeft o.mirror left (own.map Order.mirror) = (restLeft o left own).map Order.mirror := by
  have hahead : ∀ x y : Order, o.side.ahead x y ↔ o.mirror.side.ahead x.mirror y.mirror :=
    fun _ _ => better_mirrorPrice.symm
  unfold restLeft
  by_cases hleft : left = 0
  · rw [if_pos hleft, if_pos hleft]
  · -- mirroring keeps who is ahead of whom
    have hmap := List.map_orderedInsert (r := o.side.ahead) (s := o.mirror.side.ahead) Order.mirror own
      { o with remainingQty := left } (fun a _ => hahead a _) (fun a _ => hahead _ a)
    rw [if_neg hleft, if_neg hleft, hmap]
    rfl

/-! ## The priority book -/

namespace PriorityBook

def mirror (p : PriorityBook) : PriorityBook :=
  { p with side := fun s => (p.side s.opposite).map Order.mirror }

@[simp] theorem side_mirror (p : PriorityBook) (s : Side) :
    p.mirror.side s = (p.side s.opposite).map Order.mirror := rfl

theorem mem_orders_mirror {p : PriorityBook} {y : Order} :
    y ∈ p.mirror.orders ↔ ∃ x ∈ p.orders, x.mirror = y := by
  rw [mem_orders]
  constructor
  · rintro ⟨s, hy⟩
    obtain ⟨x, hx, rfl⟩ := List.mem_map.mp hy
    exact ⟨x, mem_orders.mpr ⟨_, hx⟩, rfl⟩
  · rintro ⟨x, hx, rfl⟩
    obtain ⟨s, hx⟩ := mem_orders.mp hx
    refine ⟨s.opposite, List.mem_map.mpr ⟨x, ?_, rfl⟩⟩
    rw [Side.opposite_opposite]
    exact hx

/-- An id finds the mirrored order. -/
theorem find?_mirror {p : PriorityBook} (hp : p.Valid) (id : OrderId) :
    p.mirror.find? id = (p.find? id).map Order.mirror := by
  cases hfind : p.mirror.find? id with
  | none =>
      -- the mirrored book holds the mirrored orders and no others
      have hnone : p.find? id = none := by
        rw [find?_eq_none] at hfind ⊢
        intro x hx
        exact hfind x.mirror (mem_orders_mirror.mpr ⟨x, hx, rfl⟩)
      rw [hnone]
      rfl
  | some y =>
      obtain ⟨hid, hy⟩ := of_find? hfind
      obtain ⟨x, hx, rfl⟩ := mem_orders_mirror.mp hy
      rw [hp.find?_eq_some.mpr ⟨hx, hid⟩]
      rfl

theorem without_mirror (p : PriorityBook) (id : OrderId) :
    p.mirror.without id = (p.without id).mirror := by
  refine PriorityBook.ext (funext ?_) rfl
  intro s
  show ((p.side s.opposite).map Order.mirror).filter _ = ((p.side s.opposite).filter _).map Order.mirror
  rw [List.filter_map]
  rfl

/-- **Submitting mirrors.** -/
theorem submit_mirror (p : PriorityBook) (o : Order) :
    p.mirror.submit o.mirror = ((p.submit o).1.mirror, (p.submit o).2.map Trade.mirror) := by
  have hfill := (fill_fills o (p.side o.side.opposite) o.remainingQty).mirror.fill_eq
  unfold submit
  simp only [side_mirror, Order.mirror_side, Order.mirror_remainingQty, Side.opposite_opposite, hfill]
  refine Prod.ext (ext_sides o.side ?_ ?_ rfl) rfl
  · show _ = ((withSides _ _ _ _).side o.side.opposite).map Order.mirror
    rw [side_withSides_opposite]
    simp [withSides]
  · show _ = ((withSides _ _ _ _).side o.side.opposite.opposite).map Order.mirror
    rw [Side.opposite_opposite, side_withSides_own, side_withSides_own]
    exact restLeft_mirror o _ _

/-- **Every command mirrors.** -/
theorem exec_mirror {p : PriorityBook} (hp : p.Valid) (c : ScenarioCommand) :
    p.mirror.exec c.mirror = ((p.exec c).1.mirror, mirrorResult (p.exec c).2) := by
  cases c with
  | add o =>
      show p.mirror.addOrder o.mirror = ((p.addOrder o).1.mirror, mirrorResult (p.addOrder o).2)
      have haccept : p.mirror.accept o.mirror.id = (p.accept o.id).mirror := rfl
      unfold addOrder
      by_cases h0 : o.remainingQty = 0
      · rw [if_pos h0, if_pos (show o.mirror.remainingQty = 0 from h0)]
        rfl
      rw [if_neg h0, if_neg (show ¬o.mirror.remainingQty = 0 from h0)]
      by_cases hid : o.id ∈ p.accepted
      · rw [if_pos hid, if_pos (show o.mirror.id ∈ p.mirror.accepted from hid)]
        rfl
      · rw [if_neg hid, if_neg (show o.mirror.id ∉ p.mirror.accepted from hid), haccept, submit_mirror]
        rfl
  | cancel id =>
      show p.mirror.cancelOrder id = ((p.cancelOrder id).1.mirror, mirrorResult (p.cancelOrder id).2)
      unfold cancelOrder
      rw [find?_mirror hp]
      cases p.find? id with
      | none => rfl
      | some old =>
          show (p.mirror.without id, _) = _
          rw [without_mirror]
          rfl
  | modify id price qty =>
      show p.mirror.modifyOrder id (mirrorPrice price) qty
        = ((p.modifyOrder id price qty).1.mirror, mirrorResult (p.modifyOrder id price qty).2)
      unfold modifyOrder
      by_cases h0 : qty = 0
      · rw [if_pos h0, if_pos h0]
        rfl
      rw [if_neg h0, if_neg h0, find?_mirror hp]
      cases p.find? id with
      | none => rfl
      | some old =>
          have hnew : Order.new id old.mirror.side (mirrorPrice price) qty
              = (Order.new id old.side price qty).mirror := rfl
          simp only [Option.map_some, hnew, without_mirror, submit_mirror]
          rfl

end PriorityBook

/-- **Every run mirrors.** -/
theorem priorityRun_mirror (cmds : List ScenarioCommand) :
    priorityRun (cmds.map ScenarioCommand.mirror)
      = ((priorityRun cmds).1.mirror, (priorityRun cmds).2.map mirrorResult) := by
  have hvalid : ∀ (p : PriorityBook) (c : ScenarioCommand), p.Valid → (p.exec c).1.Valid :=
    fun _ c hp => hp.exec c
  have hexec : ∀ (p : PriorityBook) (c : ScenarioCommand), p.Valid →
      p.mirror.exec c.mirror = ((p.exec c).1.mirror, mirrorResult (p.exec c).2) :=
    fun _ c hp => PriorityBook.exec_mirror hp c
  exact Machine.run_map hvalid hexec PriorityBook.valid_empty cmds

/-- A mirrored run rests as many orders. -/
theorem NeverOverfull.mirror {mode : EventMode} {cmds : List ScenarioCommand}
    (h : OrderBook.NeverOverfull mode cmds) :
    OrderBook.NeverOverfull mode (cmds.map ScenarioCommand.mirror) := by
  rw [neverOverfull_iff_priority] at h ⊢
  intro done hdone
  obtain ⟨done', hdone', rfl⟩ := List.prefix_map_iff.mp hdone
  rw [priorityRun_mirror]
  have hlength : (priorityRun done').1.mirror.orders.length = (priorityRun done').1.orders.length := by
    unfold PriorityBook.orders
    rw [List.length_append, List.length_append, PriorityBook.side_mirror, PriorityBook.side_mirror,
      List.length_map, List.length_map, Nat.add_comm]
    rfl
  rw [hlength]
  exact h done' hdone'

/-! ## The snapshot -/

/-- The ladder of the other side, mirrored. -/
def mirrorLadder {s : Side} (L : SideLadder s.opposite) : SideLadder s :=
  L.map mirrorPrice (fun _ _ h => by
    have hmirror := better_mirrorPrice.mpr h
    rw [Side.opposite_opposite] at hmirror
    exact hmirror) Order.mirror

/-- A book that stands for the mirrored priority book shows the mirrored snapshot. -/
theorem Represents.snapshot_mirror {b b' : OrderBook} {p : PriorityBook} (h : Represents b p)
    (h' : Represents b' p.mirror) :
    ∃ snap, b.snapshot = .ok snap ∧ b'.snapshot = .ok snap.mirror := by
  obtain ⟨L, hsnap, hL⟩ := h.snapshot_ladders
  obtain ⟨M, hsnap', hM⟩ := h'.snapshot_ladders
  have hladder : ∀ s : Side, M s = mirrorLadder (L s.opposite) := by
    intro s
    have hkeyed : (mirrorLadder (L s.opposite)).Keyed Order.price :=
      (hL s.opposite).1.map _ fun _ => rfl
    refine (hM s).1.ext_flat hkeyed ?_
    rw [(hM s).2, PriorityBook.side_mirror, ← (hL s.opposite).2]
    exact Ladder.flat_map.symm
  refine ⟨_, hsnap, ?_⟩
  rw [hsnap', hladder, hladder]
  rfl

/-- **Buy and sell sides are exact mirror images.** After every part of a run, the mirrored run has
    returned the mirrored results and shows the mirrored snapshot. -/
theorem sides_mirror (mode : EventMode) (cmds : List ScenarioCommand)
    (hroom : OrderBook.NeverOverfull mode cmds) (done : List ScenarioCommand) (hdone : done <+: cmds) :
    ∃ b b' results snap, OrderBook.run mode done = .ok (b, results) ∧ b.snapshot = .ok snap
      ∧ OrderBook.run mode (done.map ScenarioCommand.mirror) = .ok (b', results.map mirrorResult)
      ∧ b'.snapshot = .ok snap.mirror := by
  have hroom := hroom.of_prefix hdone
  obtain ⟨b, hrun, hrep⟩ := run_represents hroom
  obtain ⟨b', hrun', hrep'⟩ := run_represents (NeverOverfull.mirror hroom)
  rw [priorityRun_mirror] at hrun' hrep'
  obtain ⟨snap, hsnap, hsnap'⟩ := hrep.snapshot_mirror hrep'
  exact ⟨b, b', _, snap, hrun, hsnap, hrun', hsnap'⟩

/-- The session and its mirror image. -/
theorem sides_mirror_session :
    ∃ b b' results snap, OrderBook.run .full session = .ok (b, results) ∧ b.snapshot = .ok snap
      ∧ OrderBook.run .full (session.map ScenarioCommand.mirror) = .ok (b', results.map mirrorResult)
      ∧ b'.snapshot = .ok snap.mirror :=
  sides_mirror .full session (by decide +kernel) session List.prefix_rfl

end LimitOrderBook
