import LimitOrderBook.Reference.ReferenceBook

/-!
# `Reference.PriorityBook` — each side as one list of orders in priority order

The reference book with the levels flattened away: a side is a single list, best price first and oldest first within a
price (`Side.ahead`). Matching consumes a front part of the opposite list (`fill`), resting is a stable insertion
(`restLeft`), removing is a filter. Every law about runs is proved of this book, where an operation is one list
function, and is carried back to the book of the source by `Refinement.Run`.

The second half is the connection with the reference book. `Placed` says that every order stands at its own side and
price, which every command keeps. Then flattening commutes with everything: sweeping the levels of a ladder is filling
its flat list (`sweepSide_flat`, from `fill_append` one level at a time), pushing an order on its queue is the stable
insertion, and removing is the filter. `flatten_exec` puts these together for any command.
-/

namespace LimitOrderBook

/-- `s.ahead x y`: on side `s`, `x` is ahead of `y` by price alone. -/
def Side.ahead (s : Side) (x y : Order) : Prop := s.better x.price y.price

instance (s : Side) : DecidableRel s.ahead := fun x y => by unfold Side.ahead; infer_instance

/-- Trade `left` units of `taker` against the orders of the opposite side, in priority order. -/
def fill (taker : Order) : List Order → Quantity → List Order × Quantity × List Trade
  | [], left => ([], left, [])
  | maker :: rest, left =>
      if left = 0 ∨ ¬taker.side.crosses taker.price maker.price then (maker :: rest, left, [])
      else if maker.remainingQty ≤ left then
        let (rest', left', trades) := fill taker rest (left - maker.remainingQty)
        (rest', left', ⟨maker.id, taker.id, maker.price, maker.remainingQty⟩ :: trades)
      else
        ({ maker with remainingQty := maker.remainingQty - left } :: rest, 0,
          [⟨maker.id, taker.id, maker.price, left⟩])

/-- The incoming order joins its own side unless nothing is left of it. -/
def restLeft (order : Order) (left : Quantity) (own : List Order) : List Order :=
  if left = 0 then own else own.orderedInsert order.side.ahead { order with remainingQty := left }

@[ext] structure PriorityBook where
  side : Side → List Order := fun _ => []
  accepted : Finset OrderId := ∅

namespace PriorityBook

/-- Replace both sides, named from the incoming order's point of view. -/
def withSides (b : PriorityBook) (s : Side) (own opposite : List Order) : PriorityBook :=
  { b with side := fun t => if t = s then own else opposite }

@[simp] theorem side_withSides_own (b : PriorityBook) (s : Side) (own opposite : List Order) :
    (b.withSides s own opposite).side s = own := by simp [withSides]

@[simp] theorem side_withSides_opposite (b : PriorityBook) (s : Side) (own opposite : List Order) :
    (b.withSides s own opposite).side s.opposite = opposite := by simp [withSides]

@[simp] theorem accepted_withSides (b : PriorityBook) (s : Side) (own opposite : List Order) :
    (b.withSides s own opposite).accepted = b.accepted := rfl

/-- A book is its two sides, named from either of them. -/
theorem ext_sides {b c : PriorityBook} (s : Side) (hown : b.side s = c.side s)
    (hopp : b.side s.opposite = c.side s.opposite) (hacc : b.accepted = c.accepted) : b = c := by
  refine PriorityBook.ext (funext fun t => ?_) hacc
  cases s <;> cases t <;> assumption

/-- Match an incoming order and rest what is left of it. -/
def submit (b : PriorityBook) (incoming : Order) : PriorityBook × List Trade :=
  let (opposite, left, trades) := fill incoming (b.side incoming.side.opposite) incoming.remainingQty
  (b.withSides incoming.side (restLeft incoming left (b.side incoming.side)) opposite, trades)

/-- The orders of the book: bids, then asks, best first. -/
def orders (b : PriorityBook) : List Order := b.side .buy ++ b.side .sell

def find? (b : PriorityBook) (id : OrderId) : Option Order := b.orders.find? fun o => o.id = id

/-- Take the order with an id out of the book. -/
def without (b : PriorityBook) (id : OrderId) : PriorityBook :=
  { b with side := fun s => (b.side s).filter fun o => o.id ≠ id }

def accept (b : PriorityBook) (id : OrderId) : PriorityBook :=
  { b with accepted := insert id b.accepted }

def addOrder (b : PriorityBook) (order : Order) : PriorityBook × CommandResult :=
  if order.remainingQty = 0 then (b, .error .zeroQuantity)
  else if order.id ∈ b.accepted then (b, .error .duplicateOrderId)
  else
    let (b, trades) := (b.accept order.id).submit order
    (b, .ok trades)

def cancelOrder (b : PriorityBook) (id : OrderId) : PriorityBook × CommandResult :=
  match b.find? id with
  | none => (b, .error .unknownOrderId)
  | some _ => (b.without id, .ok [])

def modifyOrder (b : PriorityBook) (id : OrderId) (newPrice : Price) (newQuantity : Quantity) :
    PriorityBook × CommandResult :=
  if newQuantity = 0 then (b, .error .zeroQuantity)
  else match b.find? id with
    | none => (b, .error .unknownOrderId)
    | some old =>
        let (b, trades) := (b.without id).submit (Order.new id old.side newPrice newQuantity)
        (b, .ok trades)

def exec (b : PriorityBook) : ScenarioCommand → PriorityBook × CommandResult
  | .add order => b.addOrder order
  | .cancel id => b.cancelOrder id
  | .modify id newPrice newQuantity => b.modifyOrder id newPrice newQuantity

end PriorityBook

/-! ## Flattening the reference book -/

/-- A sweep that empties a queue goes on with the orders behind it. -/
theorem fill_append {taker : Order} {price : Price} {xs : List Order}
    (hxs : ∀ x ∈ xs, x.price = price) (hcross : taker.side.crosses taker.price price)
    (ys : List Order) (left : Quantity) :
    fill taker (xs ++ ys) left =
      if (fillQueue taker.id price xs left).1 = [] then
        let (ys', left', trades) := fill taker ys (fillQueue taker.id price xs left).2.1
        (ys', left', (fillQueue taker.id price xs left).2.2 ++ trades)
      else
        ((fillQueue taker.id price xs left).1 ++ ys, (fillQueue taker.id price xs left).2) := by
  induction xs generalizing left with
  | nil => simp [fillQueue]
  | cons x xs ih =>
      have hx : x.price = price := hxs x List.mem_cons_self
      have ih := ih fun y hy => hxs y (List.mem_cons_of_mem _ hy)
      by_cases hleft : left = 0
      · simp [fill, fillQueue, hleft]
      · by_cases hle : x.remainingQty ≤ left
        · simp only [List.cons_append, fill, fillQueue, hx, hcross, hleft, hle, ih, not_true_eq_false,
            or_self, if_false, if_true]
          split <;> rfl
        · simp [fill, fillQueue, hx, hcross, hleft, hle]

/-- Sweeping the levels is filling from the flat side. -/
theorem fill_flatMap {taker : Order} {L : List (Price × List Order)}
    (hkey : ∀ l ∈ L, ∀ x ∈ l.2, x.price = l.1) (hfilled : ∀ l ∈ L, l.2 ≠ []) (left : Quantity) :
    fill taker (L.flatMap Prod.snd) left =
      ((Ladder.sweepLevels (fun price left => left ≠ 0 ∧ taker.side.crosses taker.price price)
          (fillQueue taker.id) L left).1.flatMap Prod.snd,
        (Ladder.sweepLevels (fun price left => left ≠ 0 ∧ taker.side.crosses taker.price price)
          (fillQueue taker.id) L left).2) := by
  induction L generalizing left with
  | nil => simp [Ladder.sweepLevels, fill]
  | cons m rest ih =>
      obtain ⟨price, xs⟩ := m
      have hxs : ∀ x ∈ xs, x.price = price := hkey (price, xs) List.mem_cons_self
      have ih := ih (fun l hl => hkey l (List.mem_cons_of_mem _ hl))
        (fun l hl => hfilled l (List.mem_cons_of_mem _ hl))
      simp only [Ladder.sweepLevels, List.flatMap_cons]
      by_cases hgo : left ≠ 0 ∧ taker.side.crosses taker.price price
      · rw [fill_append hxs hgo.2]
        simp only [hgo, ne_eq, not_false_eq_true, decide_true, and_self, if_true, List.isEmpty_iff]
        split
        · rw [ih]
        · rfl
      · obtain ⟨x, xs', rfl⟩ := List.exists_cons_of_ne_nil (hfilled (price, xs) List.mem_cons_self)
        have hx : x.price = price := hxs x List.mem_cons_self
        have hstop : left = 0 ∨ ¬taker.side.crosses taker.price x.price := by
          rw [hx]; by_cases h0 : left = 0
          · exact Or.inl h0
          · exact Or.inr fun hc => hgo ⟨h0, hc⟩
        simp only [hgo, decide_false, Bool.false_eq_true, if_false, List.flatMap_cons]
        rw [List.cons_append, fill, if_pos hstop]

namespace ReferenceBook

/-- Every order is on the level of its price. -/
def Placed (b : ReferenceBook) : Prop := ∀ s, (b.ladder s).Keyed Order.price

def flatten (b : ReferenceBook) : PriorityBook :=
  { side := fun s => (b.ladder s).flat, accepted := b.accepted }

@[simp] theorem side_flatten (b : ReferenceBook) (s : Side) : b.flatten.side s = (b.ladder s).flat := rfl

/-- Filling a queue keeps its price. -/
theorem fillQueue_keyed {taker : OrderId} {price : Price} {xs : List Order} {left : Quantity}
    (h : ∀ x ∈ xs, x.price = price) : ∀ x ∈ (fillQueue taker price xs left).1, x.price = price := by
  induction xs generalizing left with
  | nil => simp [fillQueue]
  | cons x xs ih =>
      have hx := h x List.mem_cons_self
      have hxs := fun y hy => h y (List.mem_cons_of_mem x hy)
      simp only [fillQueue]
      split
      · exact h
      · split
        · exact ih hxs
        · intro y hy
          rcases List.mem_cons.mp hy with rfl | hy
          · exact hx
          · exact hxs y hy

/-- So does sweeping, at every price. -/
theorem sweepSide_keyed {incoming : Order} {s : Side} {L : SideLadder s} (hL : L.Keyed Order.price) :
    (sweepSide incoming L).1.Keyed Order.price := by
  let P : Price → List Order → Prop := fun price xs => ∀ x ∈ xs, x.price = price
  have hf : ∀ price xs left, P price xs → P price (fillQueue incoming.id price xs left).1 :=
    fun _ _ _ h => fillQueue_keyed h
  exact Ladder.forall_sweepLevels hf hL incoming.remainingQty

/-- **Sweeping** the levels is filling from the front of the flat list. -/
theorem sweepSide_flat {incoming : Order} {s : Side} {L : SideLadder s} (hL : L.Keyed Order.price) :
    fill incoming L.flat incoming.remainingQty
      = ((sweepSide incoming L).1.flat, (sweepSide incoming L).2) :=
  fill_flatMap hL L.filled incoming.remainingQty

theorem Placed.setLadder {b : ReferenceBook} (hb : b.Placed) {s : Side} {L : SideLadder s}
    (hL : L.Keyed Order.price) : (b.setLadder s L).Placed := by
  intro t
  have := hb t
  cases s <;> cases t <;> assumption

theorem Placed.submit {b : ReferenceBook} (hb : b.Placed) (o : Order) : (b.submit o).1.Placed := by
  have hopp : (sweepSide o (b.ladder o.side.opposite)).1.Keyed Order.price := sweepSide_keyed (hb _)
  unfold ReferenceBook.submit
  dsimp only
  split
  · exact hb.setLadder hopp
  · have hown := (hb o.side).push
      { o with remainingQty := (sweepSide o (b.ladder o.side.opposite)).2.1 }
    rw [ladder_setLadder_opposite]
    exact (hb.setLadder hopp).setLadder hown

theorem Placed.without {b : ReferenceBook} (hb : b.Placed) (id : OrderId) : (b.without id).Placed := by
  intro s
  rw [ladder_without]
  refine (hb s).filterMap ?_
  intro x y hxy
  rw [(Option.guard_eq_some_iff.mp hxy).1]

/-- Every command keeps the orders in their places. -/
theorem Placed.exec {b : ReferenceBook} (hb : b.Placed) (c : ScenarioCommand) :
    (b.exec c).1.Placed := by
  cases c with
  | add o =>
      simp only [ReferenceBook.exec, addOrder]
      split
      · exact hb
      · split
        · exact hb
        · exact Placed.submit (b := { b with accepted := insert o.id b.accepted })
            (fun s => by cases s <;> [exact hb .buy; exact hb .sell]) o
  | cancel id =>
      simp only [ReferenceBook.exec, cancelOrder]
      split
      · exact hb
      · exact hb.without id
  | modify id p q =>
      simp only [ReferenceBook.exec, modifyOrder]
      split
      · exact hb
      · split
        · exact hb
        · exact (hb.without id).submit _

theorem placed_empty : Placed {} := by
  intro s l hl
  cases s <;> exact absurd hl (by simp [ladder, Ladder.empty])

/-- Removing an order commutes with flattening. -/
theorem flatten_without (b : ReferenceBook) (id : OrderId) :
    (b.without id).flatten = b.flatten.without id := by
  refine PriorityBook.ext (funext fun s => ?_) rfl
  rw [side_flatten, ladder_without, Ladder.flat_filterMap, List.filterMap_eq_filter]
  rfl

theorem flatten_find? (b : ReferenceBook) (id : OrderId) : b.flatten.find? id = b.find? id := rfl

/-- Submitting an order commutes with flattening. -/
theorem flatten_submit {b : ReferenceBook} (hb : b.Placed) (o : Order) :
    b.flatten.submit o = ((b.submit o).1.flatten, (b.submit o).2) := by
  unfold PriorityBook.submit ReferenceBook.submit
  rw [side_flatten, sweepSide_flat (hb _), side_flatten]
  dsimp only
  by_cases hleft : (sweepSide o (b.ladder o.side.opposite)).2.1 = 0
  · rw [if_pos hleft]
    refine Prod.ext (PriorityBook.ext_sides o.side ?_ ?_ ?_) rfl
    · simp [restLeft, hleft]
    · simp
    · simp [flatten]
  · rw [if_neg hleft]
    refine Prod.ext (PriorityBook.ext_sides o.side ?_ ?_ ?_) rfl
    · have hpush := (hb o.side).flat_push
        { o with remainingQty := (sweepSide o (b.ladder o.side.opposite)).2.1 }
      simp only [side_flatten, ladder_setLadder, ladder_setLadder_opposite,
        PriorityBook.side_withSides_own, restLeft, if_neg hleft]
      exact hpush.symm
    · simp
    · simp [flatten]

/-- **Flattening commutes with every command.** -/
theorem flatten_exec {b : ReferenceBook} (hb : b.Placed) (c : ScenarioCommand) :
    b.flatten.exec c = ((b.exec c).1.flatten, (b.exec c).2) := by
  cases c with
  | add o =>
      have hb' : Placed { b with accepted := insert o.id b.accepted } :=
        fun s => by cases s <;> [exact hb .buy; exact hb .sell]
      have hacc : b.flatten.accept o.id = flatten { b with accepted := insert o.id b.accepted } :=
        PriorityBook.ext (funext fun s => by cases s <;> rfl) rfl
      simp only [PriorityBook.exec, PriorityBook.addOrder, ReferenceBook.exec, addOrder]
      split
      · rfl
      · show (if o.id ∈ b.accepted then _ else _) = _
        split
        · rfl
        · rw [hacc, flatten_submit hb']
  | cancel id =>
      simp only [PriorityBook.exec, PriorityBook.cancelOrder, ReferenceBook.exec, cancelOrder,
        flatten_find?]
      cases b.find? id with
      | none => rfl
      | some old => rw [flatten_without]
  | modify id p q =>
      simp only [PriorityBook.exec, PriorityBook.modifyOrder, ReferenceBook.exec, modifyOrder,
        flatten_find?]
      split
      · rfl
      · cases b.find? id with
        | none => rfl
        | some old =>
            rw [← flatten_without]
            simp only [flatten_submit (hb.without id)]

end ReferenceBook
end LimitOrderBook
