import LimitOrderBook.Engine.Matching

/-!
# `Engine.Iterations` — the matching loops with a record of their iterations

The loops of `Engine.Matching` once more, each returning beside its result what it went through: the inner loop its
iterations, with the cursor before and after each, and the outer loop the calls of `matchAtLevel` that it made. They
are used to count what the source does, which the result alone does not show.

Without the record they are the loops of `Engine.Matching`: the lemmas `*_fst` say so for each function, up to
`matchIncomingTraced_fst` for a whole submission.

The rules of the loops follow. `drainTraced_rule` and `matchLoopTraced_rule` are for any relation between where a loop
starts, where it ends and its record, and `drain_invariant` and `matchLoop_invariant` are what they say when the
record is forgotten: what every iteration keeps holds at the end, together with the reason to stop.
-/

namespace LimitOrderBook

/-- An iteration of the inner loop of `matchAtLevel`. -/
structure Iteration where
  before : LevelCursor
  after : LevelCursor

/-- A call of `matchAtLevel`, and the incoming order as it leaves it. -/
structure LevelCall where
  price : Price
  before : OrderBook
  after : OrderBook
  left : Order
  iterations : List Iteration

def LevelCursor.drainTraced (price : Price) :
    Nat → LevelCursor → Except Fault (LevelCursor × List Iteration)
  | fuel, c =>
      if c.incoming.isFilled then pure (c, [])
      else match c.level.head, fuel with
        | none, _ => pure (c, [])
        | some _, 0 => .error .outOfFuel
        | some slot, fuel + 1 => do
            let next ← c.tradeHead price slot
            let (last, iterations) ← drainTraced price fuel next
            pure (last, ⟨c, next⟩ :: iterations)

namespace OrderBook

def matchAtLevelTraced (b : OrderBook) (makerSide : Side) (price : Price) (incoming : Order)
    (trades : List Trade) : Except Fault ((OrderBook × Order × List Trade) × List Iteration) :=
  match (b.levels makerSide)[price]? with
  | none => pure ((b, incoming, trades), [])
  | some level => do
      let (c, iterations) ← LevelCursor.drainTraced price (b.arena.entries.size + 1)
        { level := level, arena := b.arena, orderSlots := b.orderSlots, incoming := incoming,
          trades := trades }
      let b := { b with arena := c.arena, orderSlots := c.orderSlots }
      pure ((b.putLevel makerSide price c.level, c.incoming, c.trades), iterations)

def matchLoopTraced (makerSide : Side) (best : OrderBook → Option Price) (beyond : Price → Price → Bool) :
    Nat → OrderBook → Order → List Trade →
      Except Fault ((OrderBook × Order × List Trade) × List LevelCall)
  | fuel, b, incoming, trades =>
      if incoming.isFilled then pure ((b, incoming, trades), [])
      else match best b, fuel with
        | none, _ => pure ((b, incoming, trades), [])
        | some price, fuel =>
            if beyond price incoming.price then pure ((b, incoming, trades), [])
            else match fuel with
              | 0 => .error .outOfFuel
              | fuel + 1 => do
                  let ((after, left, trades), iterations) ←
                    b.matchAtLevelTraced makerSide price incoming trades
                  let (last, calls) ← matchLoopTraced makerSide best beyond fuel after left trades
                  pure (last, ⟨price, b, after, left, iterations⟩ :: calls)

def matchOrderTraced (makerSide : Side) (best : OrderBook → Option Price)
    (beyond : Price → Price → Bool) (b : OrderBook) (incoming : Order) :
    Except Fault ((OrderBook × List Trade) × List LevelCall) := do
  let ((b, incoming, trades), calls) ←
    matchLoopTraced makerSide best beyond (b.levels makerSide).size b incoming []
  if incoming.isFilled then pure ((b, trades), calls)
  else
    let b ← b.restOrder incoming
    pure ((b, trades), calls)

def matchBuyOrderTraced : OrderBook → Order → Except Fault ((OrderBook × List Trade) × List LevelCall) :=
  matchOrderTraced .sell bestAsk fun bestAskPrice limit => bestAskPrice > limit

def matchSellOrderTraced : OrderBook → Order → Except Fault ((OrderBook × List Trade) × List LevelCall) :=
  matchOrderTraced .buy bestBid fun bestBidPrice limit => bestBidPrice < limit

def matchIncomingTraced (b : OrderBook) (order : Order) :
    Except Fault ((OrderBook × List Trade) × List LevelCall) :=
  match order.side with
  | .buy => b.matchBuyOrderTraced order
  | .sell => b.matchSellOrderTraced order

end OrderBook

/-! ## Without the record -/

theorem LevelCursor.drainTraced_fst (price : Price) (fuel : Nat) (c : LevelCursor) :
    (drainTraced price fuel c).map Prod.fst = drain price fuel c := by
  induction fuel generalizing c with
  | zero =>
      unfold drainTraced drain
      split
      · rfl
      · cases c.level.head <;> rfl
  | succ fuel ih =>
      unfold drainTraced drain
      split
      · rfl
      · cases c.level.head with
        | none => rfl
        | some slot =>
            dsimp only
            cases c.tradeHead price slot with
            | error fault => rfl
            | ok next =>
                simp only [Machine.ok_bind]
                rw [← ih next]
                cases drainTraced price fuel next <;> rfl

namespace OrderBook

/-- One call of `matchAtLevel` without the record. -/
theorem matchAtLevelTraced_fst (b : OrderBook) (s : Side) (price : Price) (incoming : Order)
    (trades : List Trade) :
    (b.matchAtLevelTraced s price incoming trades).map Prod.fst = b.matchAtLevel s price incoming trades := by
  unfold matchAtLevelTraced matchAtLevel
  cases (b.levels s)[price]? with
  | none => rfl
  | some level =>
      dsimp only
      rw [← LevelCursor.drainTraced_fst]
      cases LevelCursor.drainTraced price _ _ <;> rfl

/-- The outer loop without the record. -/
theorem matchLoopTraced_fst (s : Side) (best : OrderBook → Option Price) (beyond : Price → Price → Bool)
    (fuel : Nat) (b : OrderBook) (incoming : Order) (trades : List Trade) :
    (matchLoopTraced s best beyond fuel b incoming trades).map Prod.fst
      = matchLoop s best beyond fuel b incoming trades := by
  induction fuel generalizing b incoming trades with
  | zero =>
      unfold matchLoopTraced matchLoop
      split
      · rfl
      · cases best b with
        | none => rfl
        | some price =>
            dsimp only
            split <;> rfl
  | succ fuel ih =>
      unfold matchLoopTraced matchLoop
      split
      · rfl
      · cases best b with
        | none => rfl
        | some price =>
            dsimp only
            split
            · rfl
            · rw [← matchAtLevelTraced_fst]
              cases b.matchAtLevelTraced s price incoming trades with
              | error fault => rfl
              | ok r =>
                  obtain ⟨⟨after, left, trades₁⟩, iterations⟩ := r
                  simp only [Machine.ok_bind, Except.map]
                  rw [← ih after left trades₁]
                  cases matchLoopTraced s best beyond fuel after left trades₁ <;> rfl

theorem matchOrderTraced_fst (s : Side) (best : OrderBook → Option Price) (beyond : Price → Price → Bool)
    (b : OrderBook) (incoming : Order) :
    (matchOrderTraced s best beyond b incoming).map Prod.fst = matchOrder s best beyond b incoming := by
  unfold matchOrderTraced matchOrder
  rw [← matchLoopTraced_fst]
  cases matchLoopTraced s best beyond (b.levels s).size b incoming [] with
  | error fault => rfl
  | ok r =>
      obtain ⟨⟨b₁, left, trades⟩, calls⟩ := r
      by_cases hfilled : left.isFilled = true
      · simp [hfilled, Except.map]
      · cases hrest : b₁.restOrder left <;> simp [hfilled, hrest, Except.map]

/-- **The matchers without their record** are the matchers. -/
theorem matchIncomingTraced_fst (b : OrderBook) (order : Order) :
    (b.matchIncomingTraced order).map Prod.fst = b.matchIncoming order := by
  unfold matchIncomingTraced matchIncoming
  cases order.side with
  | buy => exact matchOrderTraced_fst _ _ _ b order
  | sell => exact matchOrderTraced_fst _ _ _ b order

/-- Both sides take the same loop with their own tests. -/
theorem matchIncomingTraced_eq (b : OrderBook) (order : Order) :
    b.matchIncomingTraced order
      = b.matchOrderTraced order.side.opposite (bestPrice order.side.opposite) (beyondLimit order.side)
          order := by
  unfold matchIncomingTraced
  cases order.side <;> rfl

end OrderBook

/-! ## The rules of the loops -/

namespace LevelCursor

variable {price : Price} {fuel : Nat} {c c' : LevelCursor} {iterations : List Iteration}

/-- **The rule of the inner loop**: what holds of no iteration and of one more at the front holds of a run. -/
theorem drainTraced_rule {R : LevelCursor → LevelCursor → List Iteration → Prop}
    (hstop : ∀ c, c.incoming.isFilled = true ∨ c.level.head = none → R c c [])
    (hstep : ∀ c next last slot iterations, ¬c.incoming.isFilled = true → c.level.head = some slot →
      c.tradeHead price slot = .ok next → R next last iterations → R c last (⟨c, next⟩ :: iterations))
    (h : drainTraced price fuel c = .ok (c', iterations)) : R c c' iterations := by
  induction fuel generalizing c iterations with
  | zero =>
      unfold drainTraced at h
      split at h
      next hfilled =>
        cases h
        exact hstop _ (Or.inl hfilled)
      · cases hhead : c.level.head with
        | none =>
            rw [hhead] at h
            cases h
            exact hstop _ (Or.inr hhead)
        | some slot =>
            rw [hhead] at h
            cases h
  | succ fuel ih =>
      unfold drainTraced at h
      split at h
      next hfilled =>
        cases h
        exact hstop _ (Or.inl hfilled)
      next hopen =>
        cases hhead : c.level.head with
        | none =>
            rw [hhead] at h
            cases h
            exact hstop _ (Or.inr hhead)
        | some slot =>
            rw [hhead] at h
            obtain ⟨next, htrade, h⟩ := Machine.bind_eq_ok.mp h
            obtain ⟨⟨last, rest⟩, hrest, h⟩ := Machine.bind_eq_ok.mp h
            cases h
            exact hstep c next c' slot rest hopen hhead htrade (ih hrest)

/-- What the iterations keep holds at the end, where the incoming order is filled or the queue empty. -/
theorem drain_invariant {I : LevelCursor → Prop}
    (hstep : ∀ c next slot, I c → ¬c.incoming.isFilled = true → c.level.head = some slot →
      c.tradeHead price slot = .ok next → I next)
    (h : I c) (hdrain : drain price fuel c = .ok c') :
    I c' ∧ (c'.incoming.isFilled = true ∨ c'.level.head = none) := by
  obtain ⟨iterations, htraced⟩ := Machine.of_map_fst ((drainTraced_fst price fuel c).trans hdrain)
  have hrun : I c → I c' ∧ (c'.incoming.isFilled = true ∨ c'.level.head = none) := by
    refine drainTraced_rule (R := fun c c' _ => I c → I c' ∧ (c'.incoming.isFilled = true ∨ c'.level.head = none))
      ?_ ?_ htraced
    · intro c hends h
      exact ⟨h, hends⟩
    · intro c next last slot _ hopen hhead htrade hrest h
      exact hrest (hstep c next slot h hopen hhead htrade)
  exact hrun h

end LevelCursor

namespace OrderBook

variable {s : Side} {best : OrderBook → Option Price} {beyond : Price → Price → Bool} {fuel : Nat}
  {b b' : OrderBook} {incoming left : Order} {trades trades' : List Trade} {calls : List LevelCall}

/-- **The rule of the outer loop.** -/
theorem matchLoopTraced_rule
    {R : OrderBook → Order → List Trade → OrderBook → Order → List Trade → List LevelCall → Prop}
    (hstop : ∀ b incoming trades, R b incoming trades b incoming trades [])
    (hstep : ∀ b incoming trades after left₁ trades₁ iterations price b' left trades' calls,
      ¬incoming.isFilled = true → best b = some price → ¬beyond price incoming.price = true →
      b.matchAtLevelTraced s price incoming trades = .ok ((after, left₁, trades₁), iterations) →
      R after left₁ trades₁ b' left trades' calls →
      R b incoming trades b' left trades' (⟨price, b, after, left₁, iterations⟩ :: calls))
    (h : matchLoopTraced s best beyond fuel b incoming trades = .ok ((b', left, trades'), calls)) :
    R b incoming trades b' left trades' calls := by
  induction fuel generalizing b incoming trades calls with
  | zero =>
      unfold matchLoopTraced at h
      split at h
      · cases h
        exact hstop b' left trades'
      · cases hbest : best b with
        | none =>
            rw [hbest] at h
            cases h
            exact hstop b' left trades'
        | some price =>
            rw [hbest] at h
            dsimp only at h
            split at h
            · cases h
              exact hstop b' left trades'
            · cases h
  | succ fuel ih =>
      unfold matchLoopTraced at h
      split at h
      · cases h
        exact hstop b' left trades'
      next hopen =>
        cases hbest : best b with
        | none =>
            rw [hbest] at h
            cases h
            exact hstop b' left trades'
        | some price =>
            rw [hbest] at h
            dsimp only at h
            split at h
            · cases h
              exact hstop b' left trades'
            next hcross =>
              obtain ⟨⟨⟨after, left₁, trades₁⟩, iterations⟩, hlevel, h⟩ := Machine.bind_eq_ok.mp h
              obtain ⟨⟨last, rest⟩, hrest, h⟩ := Machine.bind_eq_ok.mp h
              cases h
              exact hstep _ _ _ _ _ _ _ _ _ _ _ _ hopen hbest hcross hlevel (ih hrest)

/-- What the calls of `matchAtLevel` keep holds at the end. -/
theorem matchLoop_invariant {I : OrderBook → Order → List Trade → Prop}
    (hstep : ∀ b incoming trades after left trades' price, I b incoming trades →
      ¬incoming.isFilled = true → best b = some price → ¬beyond price incoming.price = true →
      b.matchAtLevel s price incoming trades = .ok (after, left, trades') → I after left trades')
    (h : I b incoming trades)
    (hloop : matchLoop s best beyond fuel b incoming trades = .ok (b', left, trades')) : I b' left trades' := by
  obtain ⟨calls, htraced⟩ :=
    Machine.of_map_fst ((matchLoopTraced_fst s best beyond fuel b incoming trades).trans hloop)
  have hrun : I b incoming trades → I b' left trades' := by
    refine matchLoopTraced_rule
      (R := fun b incoming trades b' left trades' _ => I b incoming trades → I b' left trades') ?_ ?_ htraced
    · intro b incoming trades h
      exact h
    · intro b incoming trades after left₁ trades₁ iterations price b' left trades' _ hopen hbest hcross hlevel
        hrest h
      have hplain : b.matchAtLevel s price incoming trades = .ok (after, left₁, trades₁) := by
        rw [← matchAtLevelTraced_fst, hlevel]
        rfl
      exact hrest (hstep _ _ _ _ _ _ _ h hopen hbest hcross hplain)
  exact hrun h

end OrderBook
end LimitOrderBook
