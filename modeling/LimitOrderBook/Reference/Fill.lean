import LimitOrderBook.Reference.PriorityBook

/-!
# `Reference.Fill` — what matching does to the orders it meets

Matching an order of the priority book is `fill`, which consumes a front part of the opposite side. `Fills` is the
relation between what goes in and what comes out, with a constructor for each way a step can go: the incoming order
stops, fills the order at the front, or is filled by it. `fill_fills` and `fill_eq` say that it is `fill`, and every
other lemma of this module is an induction on it.

* **What is left of the side.** The orders that are left are the last ones, each in its place (`Fills.places`), all
  with something left, and unless the incoming order is filled it crosses none of them (`Fills.not_crosses`).
* **The trades.** Each is at the price of its maker, and the orders ahead of that maker have been filled before
  (`Fills.trade_at`). The makers are a front part of the side. What an order has traded as a maker is `tradedAsMaker`,
  and `Fills.balance` says that traded and left add up to what it had.
-/

namespace LimitOrderBook

/-- What an order keeps while it rests: its id, its side and its price. -/
def Order.place (o : Order) : OrderId × Side × Price := (o.id, o.side, o.price)

/-- The trade that fills `maker` completely. -/
def fullTrade (taker maker : Order) : Trade :=
  ⟨maker.id, taker.id, maker.price, maker.remainingQty⟩

/-- How much of an order was traded while it rested. -/
def tradedAsMaker (id : OrderId) (trades : List Trade) : Nat :=
  ((trades.filter fun t => t.makerOrderId = id).map fun t => t.quantity.toNat).sum

/-- What is traded in two parts is added. -/
theorem tradedAsMaker_append (id : OrderId) (ts us : List Trade) :
    tradedAsMaker id (ts ++ us) = tradedAsMaker id ts + tradedAsMaker id us := by
  simp [tradedAsMaker]

theorem tradedAsMaker_cons_self (t : Trade) (ts : List Trade) :
    tradedAsMaker t.makerOrderId (t :: ts) = t.quantity.toNat + tradedAsMaker t.makerOrderId ts := by
  simp [tradedAsMaker]

/-- A trade of another maker does not count. -/
theorem tradedAsMaker_cons_of_ne {id : OrderId} {t : Trade} (h : t.makerOrderId ≠ id)
    (ts : List Trade) : tradedAsMaker id (t :: ts) = tradedAsMaker id ts := by
  simp [tradedAsMaker, h]

/-- An order that is no maker in the trades traded nothing in them. -/
theorem tradedAsMaker_eq_zero {id : OrderId} {ts : List Trade}
    (h : ∀ t ∈ ts, t.makerOrderId ≠ id) : tradedAsMaker id ts = 0 := by
  induction ts with
  | nil => rfl
  | cons t ts ih =>
      rw [tradedAsMaker_cons_of_ne (h t List.mem_cons_self),
        ih fun u hu => h u (List.mem_cons_of_mem t hu)]

/-- A maker with one trade traded its quantity. -/
theorem tradedAsMaker_cons_last {t : Trade} {ts : List Trade}
    (h : ∀ u ∈ ts, u.makerOrderId ≠ t.makerOrderId) :
    tradedAsMaker t.makerOrderId (t :: ts) = t.quantity.toNat := by
  rw [tradedAsMaker_cons_self, tradedAsMaker_eq_zero h, Nat.add_zero]

/-- A price that crosses a limit crosses it from anywhere ahead of it. -/
theorem Side.not_crosses_of_not_better {s : Side} {limit p q : Price}
    (hp : ¬s.crosses limit p) (hpq : ¬s.opposite.better q p) : ¬s.crosses limit q := by
  rw [Side.crosses_iff, not_not] at hp ⊢
  by_cases h : s.opposite.better p q
  · exact IsTrans.trans _ _ _ hp h
  · have heq : p = q := Std.Trichotomous.trichotomous p q h hpq
    rw [← heq]
    exact hp

/-- **How matching can go** against the orders `xs` of the opposite side, with `left` units to trade: the
    incoming order stops, fills the order at the front and goes on, or is filled by it. -/
inductive Fills (taker : Order) :
    List Order → Quantity → List Order → Quantity → List Trade → Prop
  | empty (left : Quantity) : Fills taker [] left [] left []
  | stop {maker : Order} {rest : List Order} {left : Quantity}
      (hstop : left = 0 ∨ ¬taker.side.crosses taker.price maker.price) :
      Fills taker (maker :: rest) left (maker :: rest) left []
  | full {maker : Order} {rest rest' : List Order} {left left' : Quantity} {trades : List Trade}
      (hleft : left ≠ 0) (hcross : taker.side.crosses taker.price maker.price)
      (hle : maker.remainingQty ≤ left)
      (hrest : Fills taker rest (left - maker.remainingQty) rest' left' trades) :
      Fills taker (maker :: rest) left rest' left' (fullTrade taker maker :: trades)
  | part {maker : Order} {rest : List Order} {left : Quantity}
      (hleft : left ≠ 0) (hcross : taker.side.crosses taker.price maker.price)
      (hle : ¬maker.remainingQty ≤ left) :
      Fills taker (maker :: rest) left
        ({ maker with remainingQty := maker.remainingQty - left } :: rest) 0
        [⟨maker.id, taker.id, maker.price, left⟩]

/-- `fill` goes one of these ways. -/
theorem fill_fills (taker : Order) (xs : List Order) (left : Quantity) :
    Fills taker xs left (fill taker xs left).1 (fill taker xs left).2.1 (fill taker xs left).2.2 := by
  induction xs generalizing left with
  | nil => exact .empty left
  | cons maker rest ih =>
      by_cases hstop : left = 0 ∨ ¬taker.side.crosses taker.price maker.price
      · -- nothing left to trade, or the front order is out of reach
        rw [fill, if_pos hstop]
        exact .stop hstop
      · obtain ⟨hleft, hcross⟩ := not_or.mp hstop
        by_cases hle : maker.remainingQty ≤ left
        · rw [fill, if_neg hstop, if_pos hle]
          exact .full hleft (not_not.mp hcross) hle (ih _)
        · rw [fill, if_neg hstop, if_neg hle]
          exact .part hleft (not_not.mp hcross) hle

namespace Fills

variable {taker : Order} {xs ys : List Order} {left left' : Quantity} {trades : List Trade}

/-- Nothing is left to decide: the side, the rest and the trades are functions of the start. -/
theorem fill_eq (h : Fills taker xs left ys left' trades) : fill taker xs left = (ys, left', trades) := by
  induction h with
  | empty left => rfl
  | stop hstop => rw [fill, if_pos hstop]
  | full hleft hcross hle _ ih =>
      rw [fill, if_neg (not_or.mpr ⟨hleft, not_not_intro hcross⟩), if_pos hle, ih]
      rfl
  | part hleft hcross hle =>
      rw [fill, if_neg (not_or.mpr ⟨hleft, not_not_intro hcross⟩), if_neg hle]

/-! ## What is left of the side -/

/-- The orders that are left are the last ones, each where it was. -/
theorem places (h : Fills taker xs left ys left' trades) :
    ys.map Order.place <:+ xs.map Order.place := by
  induction h with
  | empty left => exact List.suffix_rfl
  | stop _ => exact List.suffix_rfl
  | full _ _ _ _ ih => exact ih.trans (List.suffix_cons _ _)
  | part _ _ _ => exact List.suffix_rfl

/-- The ids that are left are a suffix of those of the side. -/
theorem ids (h : Fills taker xs left ys left' trades) : ys.map Order.id <:+ xs.map Order.id := by
  obtain ⟨front, hfront⟩ := h.places
  refine ⟨front.map Prod.fst, ?_⟩
  have hids : ∀ zs : List Order, zs.map Order.id = (zs.map Order.place).map Prod.fst := by
    intro zs
    rw [List.map_map]
    rfl
  rw [hids ys, hids xs, ← List.map_append, hfront]

/-- An order that is left was there, in the same place. -/
theorem exists_of_mem (h : Fills taker xs left ys left' trades) {y : Order} (hy : y ∈ ys) :
    ∃ x ∈ xs, x.place = y.place := by
  have hmem : y.place ∈ xs.map Order.place := h.places.subset (List.mem_map.mpr ⟨y, hy, rfl⟩)
  obtain ⟨x, hx, hplace⟩ := List.mem_map.mp hmem
  exact ⟨x, hx, hplace⟩

/-- No order that is left has nothing left. -/
theorem positive (h : Fills taker xs left ys left' trades) (hxs : ∀ x ∈ xs, x.remainingQty ≠ 0) :
    ∀ y ∈ ys, y.remainingQty ≠ 0 := by
  induction h with
  | empty left => exact hxs
  | stop _ => exact hxs
  | full _ _ _ _ ih => exact ih fun x hx => hxs x (List.mem_cons_of_mem _ hx)
  | @part maker rest left _ _ hle =>
      intro y hy
      rcases List.mem_cons.mp hy with rfl | hy
      · show maker.remainingQty - left ≠ 0
        grind
      · exact hxs y (List.mem_cons_of_mem _ hy)

/-- **An incoming order with something left crosses nothing that is left.** -/
theorem not_crosses (h : Fills taker xs left ys left' trades)
    (hsorted : xs.Pairwise fun x y => ¬taker.side.opposite.ahead y x) (hleft : left' ≠ 0) :
    ∀ y ∈ ys, ¬taker.side.crosses taker.price y.price := by
  induction h with
  | empty left => simp
  | @stop maker rest left hstop =>
      obtain ⟨hhead, -⟩ := List.pairwise_cons.mp hsorted
      have hmaker := hstop.resolve_left hleft
      intro y hy
      rcases List.mem_cons.mp hy with rfl | hy
      · exact hmaker
      · exact Side.not_crosses_of_not_better hmaker (hhead y hy)
  | full _ _ _ _ ih => exact ih (List.pairwise_cons.mp hsorted).2 hleft
  | part _ _ _ => exact absurd rfl hleft

/-! ## The trades -/

/-- **Where a trade stands.** The orders ahead of the maker of a trade have been filled completely by the
    trades before it, in their order. -/
theorem trade_at (h : Fills taker xs left ys left' trades) {before after : List Trade} {t : Trade}
    (hsplit : trades = before ++ t :: after) :
    ∃ filled maker rest, xs = filled ++ maker :: rest ∧ before = filled.map (fullTrade taker)
      ∧ t.makerOrderId = maker.id ∧ t.takerOrderId = taker.id ∧ t.price = maker.price
      ∧ taker.side.crosses taker.price maker.price ∧ t.quantity ≤ maker.remainingQty := by
  induction h generalizing before with
  | empty left => simp at hsplit
  | stop _ => simp at hsplit
  | @full maker rest rest' left left' trades hleft hcross hle _ ih =>
      cases before with
      | nil =>
          injection hsplit with ht _
          exact ⟨[], maker, rest, rfl, rfl, by rw [← ht]; rfl, by rw [← ht]; rfl, by rw [← ht]; rfl,
            hcross, by rw [← ht]; exact UInt64.le_refl _⟩
      | cons u before =>
          injection hsplit with hu hsplit
          obtain ⟨filled, m, tail, hrest, hbefore, hm⟩ := ih hsplit
          refine ⟨maker :: filled, m, tail, ?_, ?_, hm⟩
          · rw [hrest]; rfl
          · rw [← hu, hbefore]; rfl
  | @part maker rest left hleft hcross hle =>
      cases before with
      | nil =>
          injection hsplit with ht _
          refine ⟨[], maker, rest, rfl, rfl, by rw [← ht], by rw [← ht], by rw [← ht], hcross, ?_⟩
          rw [← ht]
          exact UInt64.le_of_lt (UInt64.not_le.mp hle)
      | cons u before => simp at hsplit

/-- The makers are the front orders of the side. -/
theorem makers (h : Fills taker xs left ys left' trades) :
    trades.map Trade.makerOrderId <+: xs.map Order.id := by
  induction h with
  | empty left => exact List.nil_prefix
  | stop _ => exact List.nil_prefix
  | full _ _ _ _ ih => exact List.cons_prefix_cons.mpr ⟨rfl, ih⟩
  | part _ _ _ => exact List.cons_prefix_cons.mpr ⟨rfl, List.nil_prefix⟩

/-- The incoming order is the taker of all of them. -/
theorem takers (h : Fills taker xs left ys left' trades) : ∀ t ∈ trades, t.takerOrderId = taker.id := by
  intro t ht
  obtain ⟨before, after, hsplit⟩ := List.append_of_mem ht
  obtain ⟨-, -, -, -, -, -, htaker, -⟩ := h.trade_at hsplit
  exact htaker

/-- There is at most one trade for each order that the incoming order crosses. -/
theorem length_trades_le (h : Fills taker xs left ys left' trades) :
    trades.length ≤ (xs.filter fun m => taker.side.crosses taker.price m.price).length := by
  induction h with
  | empty left => simp
  | stop _ => simp
  | full _ hcross _ _ ih =>
      rw [List.filter_cons_of_pos (by simpa using hcross)]
      exact Nat.succ_le_succ ih
  | part _ hcross _ =>
      rw [List.filter_cons_of_pos (by simpa using hcross)]
      exact Nat.succ_le_succ (Nat.zero_le _)

/-- An id that the side has not is the maker's in no trade. -/
theorem makers_ne (h : Fills taker xs left ys left' trades) {id : OrderId} (hout : id ∉ xs.map Order.id) :
    ∀ t ∈ trades, t.makerOrderId ≠ id := by
  rintro t ht rfl
  exact hout (h.makers.subset (List.mem_map.mpr ⟨t, ht, rfl⟩))

/-- **What a resting order loses it traded.** An order of the side either is left with what it had less
    what it traded, or it is gone and traded all it had. -/
theorem balance (h : Fills taker xs left ys left' trades) (hnd : (xs.map Order.id).Nodup) {x : Order}
    (hx : x ∈ xs) :
    (∃ y ∈ ys, y.place = x.place
        ∧ y.remainingQty.toNat + tradedAsMaker x.id trades = x.remainingQty.toNat)
      ∨ (x.id ∉ ys.map Order.id ∧ tradedAsMaker x.id trades = x.remainingQty.toNat) := by
  induction h with
  | empty left => exact absurd hx (by simp)
  | stop _ => exact Or.inl ⟨x, hx, rfl, rfl⟩
  | @full maker rest rest' left left' trades hleft hcross hle hrest ih =>
      obtain ⟨hout, hnd'⟩ := List.nodup_cons.mp hnd
      rcases List.mem_cons.mp hx with rfl | hx
      · -- filled now, and in none of the later trades
        refine Or.inr ⟨fun hmem => hout (hrest.ids.subset hmem), ?_⟩
        exact tradedAsMaker_cons_last (t := fullTrade taker x) (hrest.makers_ne hout)
      · have hne : (fullTrade taker maker).makerOrderId ≠ x.id := by
          intro hid
          exact hout (List.mem_map.mpr ⟨x, hx, hid.symm⟩)
        rw [tradedAsMaker_cons_of_ne hne]
        exact ih hnd' hx
  | @part maker rest left hleft hcross hle =>
      obtain ⟨hout, -⟩ := List.nodup_cons.mp hnd
      rcases List.mem_cons.mp hx with rfl | hx
      · refine Or.inl ⟨_, List.mem_cons_self, rfl, ?_⟩
        have hnow : tradedAsMaker x.id [(⟨x.id, taker.id, x.price, left⟩ : Trade)] = left.toNat :=
          tradedAsMaker_cons_last (t := ⟨x.id, taker.id, x.price, left⟩) (by simp)
        rw [hnow]
        have hlt : left ≤ x.remainingQty := UInt64.le_of_lt (UInt64.not_le.mp hle)
        rw [UInt64.toNat_sub_of_le _ _ hlt]
        have := UInt64.le_iff_toNat_le.mp hlt
        omega
      · have hne : maker.id ≠ x.id := fun hid => hout (List.mem_map.mpr ⟨x, hx, hid.symm⟩)
        refine Or.inl ⟨x, List.mem_cons_of_mem _ hx, rfl, ?_⟩
        rw [tradedAsMaker_cons_of_ne hne]
        rfl

end Fills
end LimitOrderBook
