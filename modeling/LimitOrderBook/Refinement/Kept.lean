import LimitOrderBook.Engine.Iterations
import LimitOrderBook.Events.Log

/-!
# `Refinement.Kept` — what a call keeps of the arena and the trades

Some facts hold of any book that a run reaches, also when so many orders rest that slots are no longer distinct and
the refinement does not apply. They are proved from what a call does to the arena, in any state of the book.

A call touches the arena in four ways: it writes through `get_mut`, never emptying an order; it removes orders; it
makes trades against stored orders; and, at its end and at most once, it inserts what is left of the incoming order.
So what the first three keep holds until the insertion. `KeptByWrites` and `Kept` say of a property of the arena and
the trades that the first, and all three, keep it; one lemma for each function of the level and of the loops carries
it through to `Kept.matchIncoming` and `Kept.removeOrderById`.

`ArenaStep` is what a successful call does: it matches an order, takes one out, or takes one out and matches it
changed (`exec_arenaStep`). The facts that are proved in this way are those of `Refinement.Positive`,
`Refinement.Termination` and `Properties.ArenaPeak`.
-/

namespace LimitOrderBook

theorem OrderBook.arena_setLevels (b : OrderBook) (s : Side) (levels : Levels) :
    (b.setLevels s levels).arena = b.arena := by
  cases s <;> rfl

/-- `P` of the arena and the trades so far is kept by writes that empty no order. -/
structure KeptByWrites (P : OrderArena → List Trade → Prop) : Prop where
  write : ∀ {a a' : OrderArena} {ts : List Trade} {s : Slot} {w : OrderNode → OrderNode}, P a ts →
    a.getMut s w = .ok a' →
    (∀ n, a.get s = .ok n → n.order.remainingQty ≠ 0 → (w n).order.remainingQty ≠ 0) → P a' ts

/-- `P` is kept by everything that matching and removing do. -/
structure Kept (P : OrderArena → List Trade → Prop) : Prop extends KeptByWrites P where
  remove : ∀ {a a' : OrderArena} {ts : List Trade} {s : Slot} {o : Order}, P a ts →
    a.remove s = .ok (a', o) → P a' ts
  trade : ∀ {a : OrderArena} {ts : List Trade} {s : Slot} {n : OrderNode} {left : Quantity}, P a ts →
    a.get s = .ok n → left ≠ 0 → ∀ (taker : OrderId) (price : Price),
    P a (ts ++ [⟨n.order.id, taker, price, min left n.order.remainingQty⟩])

/-! ## The level -/

namespace KeptByWrites

variable {P : OrderArena → List Trade → Prop} {a a' : OrderArena} {ts : List Trade}

/-- A write that leaves the order alone. -/
theorem link (hP : KeptByWrites P) {s : Slot} {w : OrderNode → OrderNode} (h : P a ts) (hw : a.getMut s w = .ok a')
    (hsame : ∀ n, (w n).order = n.order) : P a' ts := by
  refine hP.write h hw ?_
  intro n _ h0
  rw [hsame]
  exact h0

/-- Unlinking writes links only. -/
theorem unlink (hP : KeptByWrites P) {l l' : PriceLevel} {s : Slot} (h : P a ts)
    (hunlink : l.unlink a s = .ok (l', a')) : P a' ts := by
  unfold PriceLevel.unlink at hunlink
  obtain ⟨⟨o, prev, next⟩, -, hunlink⟩ := Machine.bind_eq_ok.mp hunlink
  cases prev with
  | none =>
      cases next with
      | none =>
          cases hunlink
          exact h
      | some next =>
          simp only [Machine.pure_eq_ok, Machine.ok_bind] at hunlink
          obtain ⟨a₁, hnext, hunlink⟩ := Machine.bind_eq_ok.mp hunlink
          cases hunlink
          exact hP.link h hnext fun _ => rfl
  | some prev =>
      obtain ⟨a₁, hprev, hunlink⟩ := Machine.bind_eq_ok.mp hunlink
      have h₁ := hP.link h hprev fun _ => rfl
      cases next with
      | none =>
          cases hunlink
          exact h₁
      | some next =>
          simp only [Machine.pure_eq_ok, Machine.ok_bind] at hunlink
          obtain ⟨a₂, hnext, hunlink⟩ := Machine.bind_eq_ok.mp hunlink
          cases hunlink
          exact hP.link h₁ hnext fun _ => rfl

/-- So does linking a slot at the end. -/
theorem pushBack (hP : KeptByWrites P) {l l' : PriceLevel} {s : Slot} (h : P a ts)
    (hpush : l.pushBack a s = .ok (l', a')) : P a' ts := by
  unfold PriceLevel.pushBack at hpush
  obtain ⟨node, -, hpush⟩ := Machine.bind_eq_ok.mp hpush
  obtain ⟨a₁, hslot, hpush⟩ := Machine.bind_eq_ok.mp hpush
  have h₁ := hP.link h hslot fun _ => rfl
  cases htail : l.tail with
  | none =>
      rw [htail] at hpush
      cases hpush
      exact h₁
  | some tail =>
      rw [htail] at hpush
      obtain ⟨a₂, hprev, hpush⟩ := Machine.bind_eq_ok.mp hpush
      cases hpush
      exact hP.link h₁ hprev fun _ => rfl

end KeptByWrites

/-- **Resting** inserts the order and then only writes links. -/
theorem OrderBook.of_restOrder {b b' : OrderBook} {o : Order} (hrest : b.restOrder o = .ok b') :
    ∃ a slot, b.arena.insert o = .ok (a, slot) ∧ ∀ P ts, KeptByWrites P → P a ts → P b'.arena ts := by
  unfold OrderBook.restOrder at hrest
  obtain ⟨⟨a, slot⟩, hinsert, hrest⟩ := Machine.bind_eq_ok.mp hrest
  obtain ⟨⟨level, a'⟩, hpush, hrest⟩ := Machine.bind_eq_ok.mp hrest
  cases hrest
  refine ⟨a, slot, hinsert, ?_⟩
  intro P ts hP h
  show P ((_ : OrderBook).setLevels _ _).arena ts
  rw [OrderBook.arena_setLevels]
  exact hP.pushBack h hpush

/-! ## The loops -/

namespace Kept

variable {P : OrderArena → List Trade → Prop} {a a' : OrderArena} {ts : List Trade}

/-- A fill that is not complete leaves something. -/
theorem sub_traded_ne_zero {left qty : Quantity} (h : ¬min left qty = qty) : qty - min left qty ≠ 0 := by
  intro h0
  exact h (sub_eq_zero.mp h0).symm

/-- An iteration of the inner loop trades, and then reduces or removes the head. -/
theorem tradeHead (hP : Kept P) {c c' : LevelCursor} {price : Price} {s : Slot} (h : P c.arena c.trades)
    (hopen : c.incoming.remainingQty ≠ 0) (htrade : c.tradeHead price s = .ok c') :
    P c'.arena c'.trades := by
  unfold LevelCursor.tradeHead at htrade
  obtain ⟨node, hnode, htrade⟩ := Machine.bind_eq_ok.mp htrade
  have htraded := hP.trade h hnode hopen c.incoming.id price
  dsimp only at htrade
  split at htrade
  next =>
    obtain ⟨⟨level, a₁⟩, hunlink, htrade⟩ := Machine.bind_eq_ok.mp htrade
    obtain ⟨⟨a₂, o⟩, hremove, htrade⟩ := Machine.bind_eq_ok.mp htrade
    cases htrade
    exact hP.remove (hP.unlink htraded hunlink) hremove
  next hpart =>
    obtain ⟨a₁, hwrite, htrade⟩ := Machine.bind_eq_ok.mp htrade
    cases htrade
    refine hP.write htraded hwrite ?_
    intro n hn _
    obtain rfl := Except.ok.inj (hnode.symm.trans hn)
    exact sub_traded_ne_zero hpart

/-- The inner loop is such iterations. -/
theorem drain (hP : Kept P) {price : Price} {fuel : Nat} {c c' : LevelCursor} (h : P c.arena c.trades)
    (hdrain : LevelCursor.drain price fuel c = .ok c') : P c'.arena c'.trades := by
  refine (LevelCursor.drain_invariant (I := fun c => P c.arena c.trades) ?_ h hdrain).1
  intro c next slot h hopen _ htrade
  exact hP.tradeHead h (mt Order.isFilled_iff.mpr hopen) htrade

variable {b b' : OrderBook} {s : Side} {incoming incoming' : Order} {trades : List Trade}

theorem matchAtLevel (hP : Kept P) {price : Price} (h : P b.arena ts)
    (hlevel : b.matchAtLevel s price incoming ts = .ok (b', incoming', trades)) : P b'.arena trades := by
  unfold OrderBook.matchAtLevel at hlevel
  split at hlevel
  next =>
    cases hlevel
    exact h
  next level _ =>
    obtain ⟨c, hdrain, hlevel⟩ := Machine.bind_eq_ok.mp hlevel
    cases hlevel
    unfold OrderBook.putLevel
    rw [OrderBook.arena_setLevels]
    exact hP.drain (c := ⟨level, b.arena, b.orderSlots, incoming, ts⟩) h hdrain

theorem matchLoop (hP : Kept P) {best : OrderBook → Option Price} {beyond : Price → Price → Bool}
    {fuel : Nat} (h : P b.arena ts)
    (hloop : OrderBook.matchLoop s best beyond fuel b incoming ts = .ok (b', incoming', trades)) :
    P b'.arena trades := by
  refine OrderBook.matchLoop_invariant (I := fun b _ ts => P b.arena ts) ?_ h hloop
  intro b incoming ts after left trades price h _ _ _ hlevel
  exact hP.matchAtLevel h hlevel

/-! ## The calls -/

/-- **Matching** fills the incoming order, or rests what is left of it at the end. -/
theorem matchIncoming (hP : Kept P) (h : P b.arena [])
    (hmatch : b.matchIncoming incoming = .ok (b', trades)) :
    P b'.arena trades
      ∨ ∃ (b₁ : OrderBook) (rest : Order), P b₁.arena trades ∧ rest.remainingQty ≠ 0
        ∧ b₁.restOrder rest = .ok b' := by
  rw [OrderBook.matchIncoming_eq] at hmatch
  unfold OrderBook.matchOrder at hmatch
  obtain ⟨⟨b₁, incoming₁, trades₁⟩, hloop, hmatch⟩ := Machine.bind_eq_ok.mp hmatch
  have hmatched := hP.matchLoop h hloop
  dsimp only at hmatch
  split at hmatch
  · cases hmatch
    exact Or.inl hmatched
  next hopen =>
    obtain ⟨b₂, hrest, hmatch⟩ := Machine.bind_eq_ok.mp hmatch
    cases hmatch
    exact Or.inr ⟨b₁, incoming₁, hmatched, mt Order.isFilled_iff.mpr hopen, hrest⟩

/-- Taking an order out writes links and removes one order. -/
theorem removeOrderById (hP : Kept P) {id : OrderId} {old : Order} (h : P b.arena ts)
    (hremove : b.removeOrderById id = .ok (b', some old)) :
    ∃ a slot, P a ts ∧ a.remove slot = .ok (b'.arena, old) := by
  unfold OrderBook.removeOrderById at hremove
  split at hremove
  · cases hremove
  next slot _ =>
    dsimp only at hremove
    obtain ⟨node, -, hremove⟩ := Machine.bind_eq_ok.mp hremove
    split at hremove
    · simp only [Machine.pure_eq_ok, Machine.ok_bind] at hremove
      obtain ⟨⟨a, o⟩, hfree, hremove⟩ := Machine.bind_eq_ok.mp hremove
      cases hremove
      exact ⟨b.arena, slot, h, hfree⟩
    next level _ =>
      obtain ⟨⟨level', a'⟩, hunlink, hremove⟩ := Machine.bind_eq_ok.mp hremove
      simp only [Machine.pure_eq_ok, Machine.ok_bind] at hremove
      obtain ⟨⟨a, o⟩, hfree, hremove⟩ := Machine.bind_eq_ok.mp hremove
      cases hremove
      unfold OrderBook.putLevel at hfree
      rw [OrderBook.arena_setLevels] at hfree
      exact ⟨a', slot, hP.unlink h hunlink, hfree⟩

end Kept

namespace OrderBook

variable {b b' : OrderBook} {c : ScenarioCommand} {trades : List Trade}

/-- **What a successful call does to the arena**: it matches an order, takes one out, or takes one out and
    matches it changed. -/
inductive ArenaStep (b : OrderBook) : ScenarioCommand → OrderArena → List Trade → Prop
  | added {o : Order} {b₀ b₁ : OrderBook} {trades : List Trade} (harena : b₀.arena = b.arena)
      (hmatch : b₀.matchIncoming o = .ok (b₁, trades)) : ArenaStep b (.add o) b₁.arena trades
  | cancelled {id : OrderId} {old : Order} {b₁ : OrderBook}
      (hremove : b.removeOrderById id = .ok (b₁, some old)) : ArenaStep b (.cancel id) b₁.arena []
  | modified {id : OrderId} {price : Price} {qty : Quantity} {old : Order} {b₀ b₁ : OrderBook}
      {trades : List Trade} (hremove : b.removeOrderById id = .ok (b₀, some old))
      (hmatch : b₀.matchIncoming (Order.new old.id old.side price qty) = .ok (b₁, trades)) :
      ArenaStep b (.modify id price qty) b₁.arena trades

theorem exec_arenaStep (hexec : b.exec c = .ok (b', .ok trades)) : b.ArenaStep c b'.arena trades := by
  cases c with
  | add o =>
      simp only [exec, addOrder] at hexec
      split at hexec
      · cases hexec
      · split at hexec
        · cases hexec
        · obtain ⟨⟨b₁, ts⟩, hmatch, hexec⟩ := Machine.bind_eq_ok.mp hexec
          cases hexec
          rw [recordTrades_eq]
          show b.ArenaStep _ b₁.arena _
          refine .added ?_ hmatch
          rw [recordOrderAccepted_eq]
          rfl
  | cancel id =>
      simp only [exec, cancelOrder] at hexec
      obtain ⟨⟨b₂, res⟩, hcancel, hexec⟩ := Machine.bind_eq_ok.mp hexec
      obtain ⟨⟨b₁, old⟩, hremove, hcancel⟩ := Machine.bind_eq_ok.mp hcancel
      cases old with
      | none =>
          cases hcancel
          cases hexec
      | some old =>
          cases hcancel
          cases hexec
          rw [recordOrderCancelled_eq]
          show b.ArenaStep _ b₁.arena _
          exact .cancelled hremove
  | modify id price qty =>
      simp only [exec, modifyOrder] at hexec
      split at hexec
      · cases hexec
      · obtain ⟨⟨b₀, old⟩, hremove, hexec⟩ := Machine.bind_eq_ok.mp hexec
        cases old with
        | none => cases hexec
        | some old =>
            obtain ⟨⟨b₁, ts⟩, hmatch, hexec⟩ := Machine.bind_eq_ok.mp hexec
            cases hexec
            rw [recordTrades_eq, recordOrderModified_eq]
            show b.ArenaStep _ b₁.arena _
            exact .modified hremove hmatch

end OrderBook
end LimitOrderBook
