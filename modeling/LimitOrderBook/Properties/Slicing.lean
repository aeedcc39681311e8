import LimitOrderBook.Properties.Allocation
import LimitOrderBook.Properties.Lifecycle

/-!
# `Properties.Slicing` — slicing an order changes nothing for the market

An order is compared with two slices of it, added one after the other at the same price. The market cannot tell the
two apart: the opposite side is the same, and every maker has traded as much.

Two sweeps with one limit, the second against what the first left, are one sweep for the sum of their quantities
(`Fills.add`). The first slice can end inside a resting order (`Fills.add_of_part`): then the trade with that order is
cut in two, and every other trade is the same. `Slices` says how the trades of the two slices make up those of the
whole, and `Slices.makers_total` that every maker has the same total.

`submit_slices` is about two submissions to a priority book, with what rests of the slices adding up to what rests of
the whole. `restOn` says where that is in the snapshot, and `slicing_changes_nothing` is the law for every run.
-/

namespace LimitOrderBook

def Trade.takenBy (taker : OrderId) (t : Trade) : Trade := { t with takerOrderId := taker }

/-- The trades of two slices `a` and `b` are those of the whole order, which has the id of `a`: all of them,
    or with one trade cut in two where the first slice ends. -/
inductive Slices (a b : OrderId) (first second whole : List Trade) : Prop
  | uncut (h : whole = first ++ second.map (Trade.takenBy a))
  | cut (before after : List Trade) (t : Trade) (x y : Quantity) (hx : x ≠ 0) (hy : y ≠ 0)
      (hsum : x.toNat + y.toNat = t.quantity.toNat)
      (hfirst : first = before ++ [{ t with quantity := x }])
      (hsecond : second = { t with takerOrderId := b, quantity := y } :: after)
      (hwhole : whole = before ++ t :: after.map (Trade.takenBy a))

namespace Slices

variable {a b : OrderId} {first second whole : List Trade}

/-- A trade more at the front of the first slice is a trade more at the front of the whole. -/
theorem cons (h : Slices a b first second whole) (t : Trade) : Slices a b (t :: first) second (t :: whole) := by
  cases h with
  | uncut h => exact .uncut (congrArg _ h)
  | cut before after u x y hx hy hsum hfirst hsecond hwhole =>
      exact .cut (t :: before) after u x y hx hy hsum (congrArg _ hfirst) hsecond (congrArg _ hwhole)

/-- Who takes does not matter to what a maker has traded. -/
theorem tradedAsMaker_takenBy (id : OrderId) (trades : List Trade) :
    tradedAsMaker id (trades.map (Trade.takenBy a)) = tradedAsMaker id trades := by
  unfold tradedAsMaker
  rw [List.filter_map, List.map_map]
  rfl

/-- **Every maker trades the same total.** -/
theorem makers_total (h : Slices a b first second whole) (id : OrderId) :
    tradedAsMaker id (first ++ second) = tradedAsMaker id whole := by
  have hcons : ∀ (u : Trade) (us : List Trade), tradedAsMaker id (u :: us)
      = (if u.makerOrderId = id then u.quantity.toNat else 0) + tradedAsMaker id us := by
    intro u us
    by_cases hid : u.makerOrderId = id
    · rw [if_pos hid, ← hid, tradedAsMaker_cons_self]
    · rw [if_neg hid, tradedAsMaker_cons_of_ne hid, Nat.zero_add]
  cases h with
  | uncut h => rw [h, tradedAsMaker_append, tradedAsMaker_append, tradedAsMaker_takenBy]
  | cut before after t x y hx hy hsum hfirst hsecond hwhole =>
      rw [hfirst, hsecond, hwhole, tradedAsMaker_append, tradedAsMaker_append, tradedAsMaker_append,
        hcons, hcons, hcons t, tradedAsMaker_takenBy, show tradedAsMaker id [] = 0 from rfl]
      dsimp only
      split_ifs <;> omega

end Slices

/-! ## Two sweeps -/

namespace Fills

variable {a b : Order} {xs ys zs : List Order} {left left' q₁ q₂ l₁ l₂ : Quantity} {trades first second : List Trade}

/-- Matching does not look at the id of the incoming order. -/
theorem takenBy (h : Fills b xs left ys left' trades) (hside : a.side = b.side) (hprice : a.price = b.price) :
    Fills a xs left ys left' (trades.map (Trade.takenBy a.id)) := by
  induction h with
  | empty left => exact .empty left
  | stop hstop =>
      rw [← hside, ← hprice] at hstop
      exact .stop hstop
  | full hleft hcross hle _ ih =>
      rw [← hside, ← hprice] at hcross
      exact .full hleft hcross hle ih
  | part hleft hcross hle =>
      rw [← hside, ← hprice] at hcross
      exact .part hleft hcross hle

/-- The first slice ends inside the order at the front, and the second goes on with what is left of it. -/
theorem add_of_part {maker : Order} {rest : List Order} {left : Quantity} (hleft : left ≠ 0)
    (hcross : a.side.crosses a.price maker.price) (hlt : left < maker.remainingQty)
    (h₂ : Fills b ({ maker with remainingQty := maker.remainingQty - left } :: rest) q₂ zs l₂ second)
    (hside : a.side = b.side) (hprice : a.price = b.price) (hq₂ : q₂ ≠ 0)
    (hsum : left.toNat + q₂.toNat < 2 ^ 64) :
    ∃ l trades, Fills a (maker :: rest) (left + q₂) zs l trades ∧ l.toNat = l₂.toNat
      ∧ Slices a.id b.id [⟨maker.id, a.id, maker.price, left⟩] second trades := by
  have hadd := toNat_add_of_lt hsum
  have hlt' := UInt64.lt_iff_toNat_lt.mp hlt
  have hrest : (maker.remainingQty - left).toNat = maker.remainingQty.toNat - left.toNat :=
    UInt64.toNat_sub_of_le _ _ (UInt64.le_of_lt hlt)
  have hcross' := hcross
  rw [hside, hprice] at hcross'
  cases h₂ with
  | stop hstop =>
      rcases hstop with h0 | hmaker
      · exact absurd h0 hq₂
      · exact absurd hcross' hmaker
  | @full _ _ _ _ _ trades _ _ hle₂ hlater =>
      have hle₂ : maker.remainingQty - left ≤ q₂ := hle₂
      have hle₂' := UInt64.le_iff_toNat_le.mp hle₂
      have hreach : maker.remainingQty ≤ left + q₂ := UInt64.le_iff_toNat_le.mpr (by omega)
      have hmove : q₂ - (maker.remainingQty - left) = left + q₂ - maker.remainingQty := by grind
      have hlater : Fills b rest (q₂ - (maker.remainingQty - left)) zs l₂ trades := hlater
      rw [hmove] at hlater
      have hcut : maker.remainingQty - left ≠ 0 := by
        intro h0
        rw [h0] at hrest
        have hzero : (0 : Quantity).toNat = 0 := rfl
        omega
      have hwhole : left.toNat + (maker.remainingQty - left).toNat = maker.remainingQty.toNat := by omega
      refine ⟨l₂, _, .full (add_ne_zero hsum hq₂) hcross hreach (hlater.takenBy hside hprice), rfl, ?_⟩
      exact .cut [] trades (fullTrade a maker) left (maker.remainingQty - left) hleft hcut hwhole rfl rfl rfl
  | part _ _ hle₂ =>
      have hle₂ : ¬maker.remainingQty - left ≤ q₂ := hle₂
      rw [UInt64.le_iff_toNat_le] at hle₂
      have hreach : ¬maker.remainingQty ≤ left + q₂ := by
        rw [UInt64.le_iff_toNat_le]
        omega
      have hmove : maker.remainingQty - left - q₂ = maker.remainingQty - (left + q₂) := by grind
      have hfills : Fills a (maker :: rest) (left + q₂)
          ({ maker with remainingQty := maker.remainingQty - left - q₂ } :: rest) 0
          [⟨maker.id, a.id, maker.price, left + q₂⟩] := by
        rw [hmove]
        exact .part (add_ne_zero hsum hq₂) hcross hreach
      refine ⟨0, _, hfills, rfl, ?_⟩
      exact .cut [] [] ⟨maker.id, a.id, maker.price, left + q₂⟩ left q₂ hleft hq₂ hadd.symm rfl rfl rfl

/-- **Two sweeps are one.** A sweep and a sweep with the same limit against what it left match as one sweep
    for both quantities. -/
theorem add (h₁ : Fills a xs q₁ ys l₁ first) (h₂ : Fills b ys q₂ zs l₂ second) (hside : a.side = b.side)
    (hprice : a.price = b.price) (hq₂ : q₂ ≠ 0) (hsum : q₁.toNat + q₂.toNat < 2 ^ 64) :
    ∃ l trades, Fills a xs (q₁ + q₂) zs l trades ∧ l.toNat = l₁.toNat + l₂.toNat
      ∧ Slices a.id b.id first second trades := by
  induction h₁ with
  | empty left =>
      -- nothing to trade with, for either slice
      cases h₂ with
      | empty _ => exact ⟨_, [], .empty _, toNat_add_of_lt hsum, .uncut rfl⟩
  | @stop maker rest left hstop =>
      rcases hstop with rfl | hcross
      · -- the first slice is used up: the second does it all
        rw [UInt64.zero_add]
        exact ⟨l₂, _, h₂.takenBy hside hprice, (Nat.zero_add _).symm, .uncut rfl⟩
      · -- the front order is out of reach, for either slice
        have hcross' := hcross
        rw [hside, hprice] at hcross'
        cases h₂ with
        | stop _ => exact ⟨_, [], .stop (Or.inr hcross), toNat_add_of_lt hsum, .uncut rfl⟩
        | full _ hmaker _ _ => exact absurd hmaker hcross'
        | part _ hmaker _ => exact absurd hmaker hcross'
  | @full maker rest rest' left left' trades hleft hcross hle _ ih =>
      have hadd := toNat_add_of_lt hsum
      have hle' := UInt64.le_iff_toNat_le.mp hle
      have hrest : (left - maker.remainingQty).toNat = left.toNat - maker.remainingQty.toNat :=
        UInt64.toNat_sub_of_le _ _ hle
      obtain ⟨l, whole, hfills, htotal, hslices⟩ := ih h₂ (by omega)
      have hmove : left - maker.remainingQty + q₂ = left + q₂ - maker.remainingQty := by grind
      rw [hmove] at hfills
      have hreach : maker.remainingQty ≤ left + q₂ := UInt64.le_iff_toNat_le.mpr (by omega)
      exact ⟨l, _, .full (add_ne_zero hsum hq₂) hcross hreach hfills, htotal, hslices.cons _⟩
  | @part maker rest left hleft hcross hle =>
      obtain ⟨l, whole, hfills, htotal, hslices⟩ :=
        add_of_part hleft hcross (UInt64.not_le.mp hle) h₂ hside hprice hq₂ hsum
      exact ⟨l, whole, hfills, htotal.trans (Nat.zero_add _).symm, hslices⟩

/-- Matching does not look at the quantity the incoming order came with. -/
theorem resize (h : Fills a xs left ys left' trades) (qty : Quantity) :
    Fills { a with remainingQty := qty } xs left ys left' trades := by
  induction h with
  | empty left => exact .empty left
  | stop hstop => exact .stop hstop
  | full hleft hcross hle _ ih => exact .full hleft hcross hle ih
  | part hleft hcross hle => exact .part hleft hcross hle

end Fills

/-! ## Two submissions -/

namespace PriorityBook

variable {p₁ : PriorityBook} {q₁ q₂ : Quantity}

/-- **Two slices and the whole**: the same opposite side, and what rests of the slices adds up to what rests
    of the whole. -/
theorem submit_slices (p : PriorityBook) (s : Side) (price : Price) (a b : OrderId) (hq₂ : q₂ ≠ 0)
    (hsum : q₁.toNat + q₂.toNat < 2 ^ 64) (hp₁ : p₁.side = (p.submit (Order.new a s price q₁)).1.side) :
    ∃ l l₁ l₂ : Quantity, l.toNat = l₁.toNat + l₂.toNat
      ∧ Slices a b (p.submit (Order.new a s price q₁)).2 (p₁.submit (Order.new b s price q₂)).2
          (p.submit (Order.new a s price (q₁ + q₂))).2
      ∧ (p₁.submit (Order.new b s price q₂)).1.side s.opposite
          = (p.submit (Order.new a s price (q₁ + q₂))).1.side s.opposite
      ∧ (p.submit (Order.new a s price (q₁ + q₂))).1.side s
          = restLeft (Order.new a s price (q₁ + q₂)) l (p.side s)
      ∧ p₁.side s = restLeft (Order.new a s price q₁) l₁ (p.side s)
      ∧ (p₁.submit (Order.new b s price q₂)).1.side s = restLeft (Order.new b s price q₂) l₂ (p₁.side s) := by
  obtain ⟨l₁, hfills₁, hown₁⟩ := p.submit_spec (Order.new a s price q₁)
  obtain ⟨l₂, hfills₂, hown₂⟩ := p₁.submit_spec (Order.new b s price q₂)
  obtain ⟨l, hfills, hown⟩ := p.submit_spec (Order.new a s price (q₁ + q₂))
  rw [← hp₁] at hfills₁ hown₁
  obtain ⟨l', trades, hboth, htotal, hslices⟩ := hfills₁.add hfills₂ rfl rfl hq₂ hsum
  have hsame := (hboth.resize (q₁ + q₂)).fill_eq.symm.trans hfills.fill_eq
  obtain ⟨hopposite, hrest⟩ := Prod.mk.inj hsame
  obtain ⟨rfl, rfl⟩ := Prod.mk.inj hrest
  exact ⟨l', l₁, l₂, htotal, hslices, hopposite, hown, hown₁, hown₂⟩

/-- The whole leaves no more orders than the slices. -/
theorem length_whole (p : PriorityBook) (s : Side) (price : Price) (a b : OrderId) (hq₂ : q₂ ≠ 0)
    (hsum : q₁.toNat + q₂.toNat < 2 ^ 64) (hp₁ : p₁.side = (p.submit (Order.new a s price q₁)).1.side) :
    (p.submit (Order.new a s price (q₁ + q₂))).1.orders.length
      ≤ (p₁.submit (Order.new b s price q₂)).1.orders.length := by
  obtain ⟨l, l₁, l₂, htotal, -, hopposite, hown, hown₁, hown₂⟩ :=
    submit_slices p s price a b hq₂ hsum hp₁
  rw [length_orders _ s, length_orders _ s, hopposite, hown, hown₂, hown₁, length_restLeft,
    length_restLeft, length_restLeft]
  -- an order rests of the whole only if one rests of a slice
  have hrests : l ≠ 0 → l₁ ≠ 0 ∨ l₂ ≠ 0 := by
    rintro hl
    by_contra hnone
    push Not at hnone
    rw [hnone.1, hnone.2] at htotal
    exact hl (UInt64.toNat_inj.mp htotal)
  by_cases hl : l = 0
  · rw [if_pos hl]
    omega
  · rw [if_neg hl]
    rcases hrests hl with h | h
    · rw [if_neg h]
      omega
    · rw [if_neg h]
      omega

variable {p : PriorityBook} {a b : OrderId}

/-- The whole order is accepted and submitted. -/
theorem run_whole (ha : a ∉ p.accepted) {qty : Quantity} (hqty : qty ≠ 0) (s : Side) (price : Price) :
    Machine.run exec p [.add (Order.new a s price qty)]
      = (((p.accept a).submit (Order.new a s price qty)).1,
        [.ok ((p.accept a).submit (Order.new a s price qty)).2]) := by
  rw [Machine.run_cons, Machine.run_nil, exec_add ha hqty]

/-- So are the two slices, one after the other. -/
theorem run_slices (ha : a ∉ p.accepted) (hb : b ∉ p.accepted) (hab : a ≠ b) (hq₁ : q₁ ≠ 0) (hq₂ : q₂ ≠ 0)
    (s : Side) (price : Price) :
    Machine.run exec p [.add (Order.new a s price q₁), .add (Order.new b s price q₂)]
      = (((((p.accept a).submit (Order.new a s price q₁)).1.accept b).submit (Order.new b s price q₂)).1,
        [.ok ((p.accept a).submit (Order.new a s price q₁)).2,
          .ok ((((p.accept a).submit (Order.new a s price q₁)).1.accept b).submit (Order.new b s price q₂)).2]) := by
  have hb' : b ∉ ((p.accept a).submit (Order.new a s price q₁)).1.accepted := by
    rw [accepted_submit, accepted_accept, Finset.mem_insert, not_or]
    exact ⟨hab.symm, hb⟩
  rw [Machine.run_cons, Machine.run_cons, Machine.run_nil, exec_add ha hq₁, exec_add hb' hq₂]

/-- The whole needs no more room than the slices. -/
theorem always_whole (ha : a ∉ p.accepted) (hb : b ∉ p.accepted) (hab : a ≠ b) (hq₁ : q₁ ≠ 0) (hq₂ : q₂ ≠ 0)
    (hsum : q₁.toNat + q₂.toNat < 2 ^ 64) (s : Side) (price : Price) {n : Nat}
    (halways : Machine.Always (fun p => p.orders.length ≤ n) exec p
      [.add (Order.new a s price q₁), .add (Order.new b s price q₂)]) :
    Machine.Always (fun p => p.orders.length ≤ n) exec p [.add (Order.new a s price (q₁ + q₂))] := by
  obtain ⟨hstart, -, hend⟩ := halways
  have hend : (Machine.run exec p [.add (Order.new a s price q₁),
      .add (Order.new b s price q₂)]).1.orders.length ≤ n := hend
  rw [run_slices ha hb hab hq₁ hq₂] at hend
  refine ⟨hstart, ?_⟩
  show (exec p (.add (Order.new a s price (q₁ + q₂)))).1.orders.length ≤ n
  rw [exec_add ha (add_ne_zero hsum hq₂)]
  exact (length_whole (p.accept a) s price a b hq₂ hsum rfl).trans hend

end PriorityBook

/-! ## Runs -/

/-- The levels of a side after an order came to rest at the end of the queue of its price, unless nothing
    was left of it. -/
def restOn (o : Order) (levels : List (Price × List Order)) : List (Price × List Order) :=
  if o.remainingQty = 0 then levels else Ladder.join o.side.better o.price o levels

/-- What is left of an order is last in its queue of the snapshot. -/
theorem Depicts.restOn {before after : BookSnapshot} {p p' : PriorityBook} (h : Depicts before p)
    (h' : Depicts after p') {id : OrderId} {s : Side} {price : Price} {qty left : Quantity}
    (hown : p'.side s = restLeft (Order.new id s price qty) left (p.side s)) :
    after.levels s = restOn (Order.new id s price left) (before.levels s) := by
  unfold LimitOrderBook.restOn
  by_cases h0 : left = 0
  · rw [if_pos (show (Order.new id s price left).remainingQty = 0 from h0)]
    refine h.levels_eq h' ?_
    rw [hown, restLeft, if_pos h0]
  · rw [if_neg (show ¬(Order.new id s price left).remainingQty = 0 from h0)]
    exact h.levels_restLeft (o := Order.new id s price qty) h' hown h0

/-- **Slicing an order changes nothing for the market.** After every run, let an order be added as two
    slices under fresh ids, or whole under the first of them. The opposite side is the same afterwards; the
    trades are the same, with at most one of them cut in two where the first slice ends, and every maker
    trades the same total; the own side is the old one with what is left at the end of the queue of the
    limit, of each slice or of the whole, and with the same total. -/
theorem slicing_changes_nothing (mode : EventMode) (cmds : List ScenarioCommand) (s : Side) (price : Price)
    (a b : OrderId) (q₁ q₂ : Quantity) (hab : a ≠ b) (hq₁ : q₁ ≠ 0) (hq₂ : q₂ ≠ 0)
    (hsum : q₁.toNat + q₂.toNat ≤ 2 ^ 64 - 1)
    (hroom : OrderBook.NeverOverfull mode
      (cmds ++ [.add (Order.new a s price q₁), .add (Order.new b s price q₂)])) :
    ∃ c results snap, OrderBook.run mode cmds = .ok (c, results) ∧ c.snapshot = .ok snap
      ∧ (a ∉ acceptedIds cmds results → b ∉ acceptedIds cmds results →
        ∃ sliced first second slicedSnap whole trades wholeSnap,
          OrderBook.run mode (cmds ++ [.add (Order.new a s price q₁), .add (Order.new b s price q₂)])
              = .ok (sliced, results ++ [.ok first, .ok second])
          ∧ sliced.snapshot = .ok slicedSnap
          ∧ OrderBook.run mode (cmds ++ [.add (Order.new a s price (q₁ + q₂))])
              = .ok (whole, results ++ [.ok trades])
          ∧ whole.snapshot = .ok wholeSnap
          ∧ slicedSnap.levels s.opposite = wholeSnap.levels s.opposite
          ∧ Slices a b first second trades
          ∧ (∀ id, tradedAsMaker id (first ++ second) = tradedAsMaker id trades)
          ∧ ∃ l l₁ l₂ : Quantity, l.toNat = l₁.toNat + l₂.toNat
              ∧ wholeSnap.levels s = restOn (Order.new a s price l) (snap.levels s)
              ∧ slicedSnap.levels s
                  = restOn (Order.new b s price l₂) (restOn (Order.new a s price l₁) (snap.levels s))) := by
  have hsum' : q₁.toNat + q₂.toNat < 2 ^ 64 := by omega
  obtain ⟨c, snap, hrun, hsnap, hdepicts⟩ := run_depicts (hroom.of_prefix (List.prefix_append _ _))
  refine ⟨c, _, snap, hrun, hsnap, ?_⟩
  intro ha hb
  have hfresh : ∀ id, id ∉ acceptedIds cmds (priorityRun cmds).2 → id ∉ (priorityRun cmds).1.accepted :=
    fun id => mt (PriorityBook.mem_accepted_priorityRun cmds id).mp
  have hroomFirst : OrderBook.NeverOverfull mode (cmds ++ [.add (Order.new a s price q₁)]) :=
    hroom.of_prefix ⟨[.add (Order.new b s price q₂)], by simp⟩
  have hroomWhole : OrderBook.NeverOverfull mode (cmds ++ [.add (Order.new a s price (q₁ + q₂))]) := by
    rw [neverOverfull_iff_always, Machine.always_append] at hroom ⊢
    exact ⟨hroom.1, PriorityBook.always_whole (hfresh a ha) (hfresh b hb) hab hq₁ hq₂ hsum' s price hroom.2⟩
  obtain ⟨half, halfSnap, -, -, hdepictsHalf⟩ := run_depicts hroomFirst
  obtain ⟨sliced, slicedSnap, hrunSliced, hslicedSnap, hdepictsSliced⟩ := run_depicts hroom
  obtain ⟨whole, wholeSnap, hrunWhole, hwholeSnap, hdepictsWhole⟩ := run_depicts hroomWhole
  rw [priorityRun_append, PriorityBook.run_whole (hfresh a ha) hq₁] at hdepictsHalf
  rw [priorityRun_append, PriorityBook.run_slices (hfresh a ha) (hfresh b hb) hab hq₁ hq₂]
    at hrunSliced hdepictsSliced
  rw [priorityRun_append, PriorityBook.run_whole (hfresh a ha) (add_ne_zero hsum' hq₂)]
    at hrunWhole hdepictsWhole
  obtain ⟨l, l₁, l₂, htotal, hslices, hopposite, hown, hown₁, hown₂⟩ :=
    PriorityBook.submit_slices ((priorityRun cmds).1.accept a) s price a b hq₂ hsum'
      (show ((((priorityRun cmds).1.accept a).submit (Order.new a s price q₁)).1.accept b).side = _ from rfl)
  refine ⟨sliced, _, _, slicedSnap, whole, _, wholeSnap, hrunSliced, hslicedSnap, hrunWhole, hwholeSnap,
    hdepictsWhole.levels_eq hdepictsSliced hopposite, hslices, hslices.makers_total, l, l₁, l₂, htotal,
    hdepicts.restOn hdepictsWhole hown, ?_⟩
  rw [← hdepicts.restOn hdepictsHalf hown₁]
  exact hdepictsHalf.restOn hdepictsSliced hown₂

/-- A buy of 6 after the session, as 1 and 5: the trade with order 3 is cut. -/
theorem slicing_changes_nothing_session :
    ∃ results sliced slicedSnap whole wholeSnap,
      OrderBook.run .full (session.take 5 ++ [.add (Order.new 8 .buy 107 1), .add (Order.new 9 .buy 107 5)])
          = .ok (sliced, results ++ [.ok [⟨3, 8, 105, 1⟩], .ok [⟨3, 9, 105, 2⟩, ⟨4, 9, 107, 1⟩]])
        ∧ sliced.snapshot = .ok slicedSnap
        ∧ OrderBook.run .full (session.take 5 ++ [.add (Order.new 8 .buy 107 (1 + 5))])
          = .ok (whole, results ++ [.ok [⟨3, 8, 105, 3⟩, ⟨4, 8, 107, 1⟩]])
        ∧ whole.snapshot = .ok wholeSnap
        ∧ slicedSnap.levels .sell = wholeSnap.levels .sell
        ∧ Slices 8 9 [⟨3, 8, 105, 1⟩] [⟨3, 9, 105, 2⟩, ⟨4, 9, 107, 1⟩] [⟨3, 8, 105, 3⟩, ⟨4, 8, 107, 1⟩] := by
  obtain ⟨c, results, snap, hrun, -, hslicing⟩ :=
    slicing_changes_nothing .full (session.take 5) .buy 107 8 9 1 5 (by decide) (by decide) (by decide)
      (by decide) (by decide +kernel)
  have hfresh : (OrderBook.run .full (session.take 5)).map (fun r => decide (8 ∉ acceptedIds (session.take 5) r.2
      ∧ 9 ∉ acceptedIds (session.take 5) r.2)) = .ok true := by decide +kernel
  rw [hrun] at hfresh
  obtain ⟨ha, hb⟩ := of_decide_eq_true (Except.ok.inj hfresh)
  obtain ⟨sliced, first, second, slicedSnap, whole, trades, wholeSnap, hsliced, hslicedSnap, hwhole, hwholeSnap,
    hopposite, hslices, -⟩ := hslicing ha hb
  have hslicedTrades : (OrderBook.run .full
      (session.take 5 ++ [.add (Order.new 8 .buy 107 1), .add (Order.new 9 .buy 107 5)])).map
      (fun r => r.2.reverse.take 2) = .ok [.ok [⟨3, 9, 105, 2⟩, ⟨4, 9, 107, 1⟩], .ok [⟨3, 8, 105, 1⟩]] := by
    decide +kernel
  have hwholeTrades : (OrderBook.run .full (session.take 5 ++ [.add (Order.new 8 .buy 107 (1 + 5))])).map
      (fun r => r.2.getLast?) = .ok (some (.ok [⟨3, 8, 105, 3⟩, ⟨4, 8, 107, 1⟩])) := by decide +kernel
  rw [hsliced] at hslicedTrades
  rw [hwhole] at hwholeTrades
  obtain ⟨rfl, rfl⟩ : second = [⟨3, 9, 105, 2⟩, ⟨4, 9, 107, 1⟩] ∧ first = [⟨3, 8, 105, 1⟩] := by
    simpa using Except.ok.inj hslicedTrades
  obtain rfl : trades = [⟨3, 8, 105, 3⟩, ⟨4, 8, 107, 1⟩] := by simpa using Except.ok.inj hwholeTrades
  exact ⟨results, sliced, slicedSnap, whole, wholeSnap, hsliced, hslicedSnap, hwhole, hwholeSnap, hopposite, hslices⟩

end LimitOrderBook
