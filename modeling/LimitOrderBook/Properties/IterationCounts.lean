import LimitOrderBook.Engine.Iterations
import LimitOrderBook.Properties.Representation
import LimitOrderBook.Refinement.Termination

/-!
# `Properties.IterationCounts` — how often the loops go round

How often the loops of the matching go round, and how many steps the walk of a level takes. The record of
`Engine.Iterations` is what is counted.

A call of `matchAtLevel` fills the incoming order or drops its price, and an iteration inside it fills the incoming
order or frees a slot, in any state of the book. `Drained` says so of the iterations at one level, `Looped` of the
calls of the outer loop; both are proved along the rules of the loops, with a lemma for one more at the front.

So the outer loop is bounded by the crossing prices: a call that drops one leaves fewer of them (`crossing_lt`). The
inner one makes one trade an iteration, and its iterations are bounded by the crossing orders of a reachable book.
`CountedMatch` has all of it, and `iteration_counts` is the result for every reachable book and any incoming order.
There the snapshot walk of a level takes one step for each of its orders, and cannot do with fewer.
-/

namespace LimitOrderBook

/-! ## The inner loop -/

/-- The iteration fills the incoming order, or frees the slot of the order at the head of the queue. -/
def Iteration.Progresses (it : Iteration) : Prop :=
  it.after.incoming.isFilled = true
    ∨ ∃ slot, it.before.level.head = some slot ∧ it.before.arena.Frees slot it.after.arena

namespace LevelCursor

variable {c c' : LevelCursor} {p : Price} {s : Slot} {iterations : List Iteration}

/-- An iteration makes one trade, and changes nothing of the incoming order but its quantity. -/
theorem tradeHead_trades (h : c.tradeHead p s = .ok c') :
    c'.trades.length = c.trades.length + 1 ∧ c'.incoming.price = c.incoming.price := by
  unfold tradeHead at h
  obtain ⟨node, -, h⟩ := Machine.bind_eq_ok.mp h
  dsimp only at h
  split at h
  · obtain ⟨⟨level, a₁⟩, -, h⟩ := Machine.bind_eq_ok.mp h
    obtain ⟨⟨a₂, o⟩, -, h⟩ := Machine.bind_eq_ok.mp h
    cases h
    simp
  · obtain ⟨a₁, -, h⟩ := Machine.bind_eq_ok.mp h
    cases h
    simp

/-- What the iterations from `c` to `c'` do. -/
structure Drained (c c' : LevelCursor) (iterations : List Iteration) : Prop where
  trades : c'.trades.length = c.trades.length + iterations.length
  price : c'.incoming.price = c.incoming.price
  progresses : ∀ it ∈ iterations, it.Progresses
  ends : c'.incoming.isFilled = true ∨ c'.level.head = none

/-- A loop that ends at once has done nothing. -/
theorem drained_nil (h : c.incoming.isFilled = true ∨ c.level.head = none) : Drained c c [] :=
  ⟨rfl, rfl, by simp, h⟩

/-- One more iteration at the front. -/
theorem Drained.cons {next : LevelCursor} (h : Drained next c' iterations) (hhead : c.level.head = some s)
    (htrade : c.tradeHead p s = .ok next) : Drained c c' (⟨c, next⟩ :: iterations) := by
  obtain ⟨htrades, hprice⟩ := tradeHead_trades htrade
  refine ⟨?_, h.price.trans hprice, ?_, h.ends⟩
  · rw [h.trades, htrades, List.length_cons]
    omega
  · intro it hit
    rcases List.mem_cons.mp hit with rfl | hit
    · rcases tradeHead_progress htrade with hfilled | hfrees
      · exact Or.inl hfilled
      · exact Or.inr ⟨s, hhead, hfrees⟩
    · exact h.progresses it hit

/-- **The inner loop**, in any state: a trade an iteration, and each iteration gets something done. -/
theorem drainTraced_drained {fuel : Nat} (h : drainTraced p fuel c = .ok (c', iterations)) :
    Drained c c' iterations := by
  refine drainTraced_rule (fun c hends => drained_nil hends) ?_ h
  intro c next last slot iterations _ hhead htrade hrest
  exact hrest.cons hhead htrade

end LevelCursor

/-! ## The outer loop -/

/-- What a call of `matchAtLevel` on the ladder of `s` does to it and to the incoming order. -/
structure LevelCall.Consumes (s : Side) (call : LevelCall) : Prop where
  fills_or_drops : call.left.isFilled = true ∨ call.price ∉ call.after.levels s
  others : ∀ q, q ≠ call.price → (q ∈ call.after.levels s ↔ q ∈ call.before.levels s)
  progresses : ∀ it ∈ call.iterations, it.Progresses

namespace OrderBook

variable {b b' : OrderBook} {s : Side} {p : Price} {incoming left : Order} {trades trades' : List Trade}
  {iterations : List Iteration} {calls : List LevelCall}

/-- **One call of `matchAtLevel`** does what it is there for, with one trade an iteration. -/
theorem matchAtLevelTraced_consumes
    (h : b.matchAtLevelTraced s p incoming trades = .ok ((b', left, trades'), iterations)) :
    LevelCall.Consumes s ⟨p, b, b', left, iterations⟩
      ∧ trades'.length = trades.length + iterations.length ∧ left.price = incoming.price := by
  unfold matchAtLevelTraced at h
  split at h
  next hnone =>
    cases h
    refine ⟨⟨Or.inr ?_, fun _ _ => Iff.rfl, by simp⟩, rfl, rfl⟩
    rw [Std.ExtTreeMap.mem_iff_isSome_getElem?, hnone]
    simp
  next level _ =>
    obtain ⟨⟨c, its⟩, hdrain, h⟩ := Machine.bind_eq_ok.mp h
    cases h
    have hdrained := LevelCursor.drainTraced_drained hdrain
    have hlevels : OrderBook.levels { b with arena := c.arena, orderSlots := c.orderSlots } s = b.levels s := by
      cases s <;> rfl
    refine ⟨⟨?_, ?_, hdrained.progresses⟩, hdrained.trades, hdrained.price⟩
    · rcases hdrained.ends with hfilled | hempty
      · exact Or.inl hfilled
      · -- an empty level is dropped with its price
        apply Or.inr
        rw [mem_levels_putLevel, if_pos ⟨rfl, rfl⟩, PriceLevel.isEmpty, hempty]
        simp
    · intro q hq
      rw [mem_levels_putLevel, if_neg fun h => hq h.2, hlevels]

/-- Dropping a crossing price leaves fewer of them. -/
theorem crossing_lt {crossing : Price → Bool} (hmem : p ∈ b.levels s) (hp : crossing p = true)
    (hout : p ∉ b'.levels s) (hothers : ∀ q, q ≠ p → (q ∈ b'.levels s ↔ q ∈ b.levels s)) :
    ((b'.levels s).keys.filter crossing).length < ((b.levels s).keys.filter crossing).length := by
  have hnodup : (p :: (b'.levels s).keys.filter crossing).Nodup := by
    refine List.nodup_cons.mpr ⟨?_, Std.ExtTreeMap.nodup_keys.filter _⟩
    rw [List.mem_filter, Std.ExtTreeMap.mem_keys]
    exact fun h => hout h.1
  have hsub : p :: (b'.levels s).keys.filter crossing ⊆ (b.levels s).keys.filter crossing := by
    intro q hq
    rw [List.mem_filter, Std.ExtTreeMap.mem_keys]
    rcases List.mem_cons.mp hq with rfl | hq
    · exact ⟨hmem, hp⟩
    · obtain ⟨hkey, hcross⟩ := List.mem_filter.mp hq
      rw [Std.ExtTreeMap.mem_keys] at hkey
      refine ⟨(hothers q ?_).mp hkey, hcross⟩
      rintro rfl
      exact hout hkey
  exact (List.subperm_of_subset hnodup hsub).length_le

/-- What the calls of the outer loop do: each trades, gets something done, and takes up a crossing price. -/
structure Looped (s : Side) (crossing : Price → Bool) (b : OrderBook) (incoming : Order) (trades trades' : List Trade)
    (calls : List LevelCall) : Prop where
  consumes : ∀ call ∈ calls, call.price ∈ call.before.levels s ∧ call.Consumes s
  trades : trades'.length = trades.length + (calls.map fun call => call.iterations.length).sum
  calls_le : calls.length ≤ ((b.levels s).keys.filter crossing).length
  filled : incoming.isFilled = true → calls = []

theorem looped_nil {crossing : Price → Bool} : Looped s crossing b incoming trades trades [] :=
  ⟨by simp, by simp, by simp, fun _ => rfl⟩

/-- One more call at the front. -/
theorem Looped.cons {crossing : Price → Bool} {trades'' : List Trade}
    (h : Looped s crossing b' left trades' trades'' calls) (hopen : ¬incoming.isFilled = true)
    (hmem : p ∈ b.levels s) (hp : crossing p = true)
    (hlevel : b.matchAtLevelTraced s p incoming trades = .ok ((b', left, trades'), iterations)) :
    Looped s crossing b incoming trades trades'' (⟨p, b, b', left, iterations⟩ :: calls) := by
  obtain ⟨hconsumes, htrades, -⟩ := matchAtLevelTraced_consumes hlevel
  refine ⟨?_, ?_, ?_, fun hfilled => absurd hfilled hopen⟩
  · intro call hcall
    rcases List.mem_cons.mp hcall with rfl | hcall
    · exact ⟨hmem, hconsumes⟩
    · exact h.consumes call hcall
  · rw [h.trades, htrades, List.map_cons, List.sum_cons]
    show _ = trades.length + (iterations.length + _)
    rw [Nat.add_assoc]
  · rcases hconsumes.fills_or_drops with hfilled | hout
    · -- the last call: one crossing price is enough
      rw [h.filled hfilled]
      exact List.length_pos_of_mem (List.mem_filter.mpr ⟨Std.ExtTreeMap.mem_keys.mpr hmem, hp⟩)
    · have hless : ((b'.levels s).keys.filter crossing).length < ((b.levels s).keys.filter crossing).length :=
        crossing_lt hmem hp hout hconsumes.others
      have hcalls := h.calls_le
      rw [List.length_cons]
      omega

/-- **The outer loop**, in any state: no more calls than crossing prices. -/
theorem matchLoopTraced_looped {best : OrderBook → Option Price} {beyond : Price → Price → Bool}
    (hbest : ∀ b p, best b = some p → p ∈ b.levels s) {fuel : Nat}
    (h : matchLoopTraced s best beyond fuel b incoming trades = .ok ((b', left, trades'), calls)) :
    Looped s (fun p => !beyond p incoming.price) b incoming trades trades' calls := by
  refine matchLoopTraced_rule (R := fun b incoming trades _ _ trades' calls =>
    Looped s (fun p => !beyond p incoming.price) b incoming trades trades' calls) ?_ ?_ h
  · intro b incoming trades
    exact looped_nil
  · intro b incoming trades after left₁ trades₁ iterations p b' left trades' calls hopen hp hcross hlevel hlooped
    -- the limit stays what it was
    obtain ⟨-, -, hprice⟩ := matchAtLevelTraced_consumes hlevel
    rw [hprice] at hlooped
    exact hlooped.cons hopen (hbest b p hp) (by simpa using hcross) hlevel

/-- The matcher makes the calls of its loop. -/
theorem matchIncomingTraced_looped (h : b.matchIncomingTraced incoming = .ok ((b', trades), calls)) :
    Looped incoming.side.opposite (fun p => !beyondLimit incoming.side p incoming.price) b incoming [] trades
      calls := by
  rw [matchIncomingTraced_eq] at h
  unfold matchOrderTraced at h
  obtain ⟨⟨⟨b₁, left, trades₁⟩, calls₁⟩, hloop, h⟩ := Machine.bind_eq_ok.mp h
  have hlooped := matchLoopTraced_looped (fun _ _ => bestPrice_mem) hloop
  dsimp only at h
  split at h
  · cases h
    exact hlooped
  · obtain ⟨b₂, -, h⟩ := Machine.bind_eq_ok.mp h
    cases h
    exact hlooped

/-! ## Reachable books -/

/-- The prices of the opposite side that an incoming order may trade at. -/
def crossingPrices (b : OrderBook) (incoming : Order) : List Price :=
  (b.levels incoming.side.opposite).keys.filter fun price => incoming.side.crosses incoming.price price

/-- The resting orders that an incoming order may trade with. -/
def crossingOrders (b : OrderBook) (incoming : Order) : List Order :=
  b.restingOrders.filter fun o =>
    o.side = incoming.side.opposite ∧ incoming.side.crosses incoming.price o.price

end OrderBook

/-- The calls of `matchAtLevel` that a matcher made on a book, counted. -/
structure CountedMatch (b : OrderBook) (incoming : Order) (trades : List Trade) (calls : List LevelCall) :
    Prop where
  /-- A call leaves the incoming order filled, or removes the price it was made at. -/
  fills_or_removes : ∀ call ∈ calls, call.left.isFilled = true
    ∨ call.price ∈ call.before.levels incoming.side.opposite
      ∧ call.price ∉ call.after.levels incoming.side.opposite
  calls_le : calls.length ≤ (b.crossingPrices incoming).length
  /-- An iteration fills the incoming order, or frees the slot of one resting order. -/
  progresses : ∀ call ∈ calls, ∀ it ∈ call.iterations, it.Progresses
  iterations_eq : (calls.map fun call => call.iterations.length).sum = trades.length
  iterations_le : trades.length ≤ (b.crossingOrders incoming).length

namespace Represents

variable {b : OrderBook} {p : PriorityBook}

/-- The orders that are crossed rest on the opposite side. -/
theorem length_crossingOrders (h : Represents b p) (hp : p.Valid) (incoming : Order) :
    ((p.side incoming.side.opposite).filter fun m => incoming.side.crosses incoming.price m.price).length
      ≤ (b.crossingOrders incoming).length := by
  show _ ≤ (b.restingOrders.filter _).length
  rw [((h.perm_restingOrders hp).filter _).length_eq]
  have hside : ((p.side incoming.side.opposite).filter fun m => incoming.side.crosses incoming.price m.price)
      = (p.side incoming.side.opposite).filter fun m =>
          m.side = incoming.side.opposite ∧ incoming.side.crosses incoming.price m.price := by
    apply List.filter_congr
    intro m hm
    simp [hp.sided _ m hm]
  rw [hside]
  have hsub : (p.side incoming.side.opposite).Sublist p.orders := by
    unfold PriorityBook.orders
    cases incoming.side.opposite with
    | buy => exact List.sublist_append_left _ _
    | sell => exact List.sublist_append_right _ _
  exact (hsub.filter _).length_le

/-- **Matching on a reachable book**: it returns, and its calls and iterations are counted. -/
theorem countedMatch (h : Represents b p) (hp : p.Valid) (incoming : Order) :
    ∃ b' trades calls, b.matchIncoming incoming = .ok (b', trades)
      ∧ b.matchIncomingTraced incoming = .ok ((b', trades), calls) ∧ CountedMatch b incoming trades calls := by
  obtain ⟨b', hmatch⟩ := h.matchIncoming_total incoming
  obtain ⟨calls, htraced⟩ := Machine.of_map_fst ((b.matchIncomingTraced_fst incoming).trans hmatch)
  have hlooped := OrderBook.matchIncomingTraced_looped htraced
  obtain ⟨left, hfills, -⟩ := p.submit_spec incoming
  refine ⟨b', _, calls, hmatch, htraced, ?_, ?_, ?_, ?_, ?_⟩
  · intro call hcall
    obtain ⟨hmem, hconsumes⟩ := hlooped.consumes call hcall
    exact hconsumes.fills_or_drops.imp_right fun hout => ⟨hmem, hout⟩
  · have hcross : b.crossingPrices incoming = (b.levels incoming.side.opposite).keys.filter
        fun p => !OrderBook.beyondLimit incoming.side p incoming.price := by
      apply List.filter_congr
      intro q _
      rw [Bool.eq_iff_iff, decide_eq_true_eq, Bool.not_eq_true', ← Bool.not_eq_true,
        OrderBook.beyondLimit_iff, not_not]
    rw [hcross]
    exact hlooped.calls_le
  · intro call hcall
    exact (hlooped.consumes call hcall).2.progresses
  · show (calls.map fun call => call.iterations.length).sum = (p.submit incoming).2.length
    simpa using hlooped.trades.symm
  · exact hfills.length_trades_le.trans (h.length_crossingOrders hp incoming)

/-- **Walking a level** of a reachable book takes a step for each order that rests there. -/
theorem walkOrders_steps (h : Represents b p) (hp : p.Valid) {s : Side} {q : Price} {level : PriceLevel}
    (hlevel : (b.levels s)[q]? = some level) :
    ∃ orders, b.levelOrders level = .ok orders
      ∧ orders.length = (b.restingOrders.filter fun o => o.side = s ∧ o.price = q).length
      ∧ ∀ fuel, OrderBook.walkOrders b.arena fuel level.head
          = if orders.length ≤ fuel then .ok orders else .error .outOfFuel := by
  have hnodup := (h.perm_restingOrders hp).nodup_iff.mpr (hp.distinct.of_map _)
  obtain ⟨r, href, -, rfl⟩ := h
  have hstore := href.holds.store
  rw [← OrderBook.levelAt_of_some hlevel]
  refine ⟨r.queue s q, href.holds.levelOrders_eq s q, ?_, fun fuel => hstore.walkOrders_steps s q⟩
  obtain ⟨slots, free, hw, -⟩ := href.holds.store
  refine List.Perm.length_eq ((List.perm_ext_iff_of_nodup (hstore.nodup s q).of_map (hnodup.filter _)).mpr ?_)
  intro o
  rw [hstore.mem_queue, List.mem_filter, OrderBook.mem_restingOrders hw.free.fits, decide_eq_true_eq]

end Represents

/-- **The loops of every reachable book are counted**: matching any incoming order makes at most a call for
    each crossing price and at most an iteration for each crossing order, and walking a level takes exactly a
    step for each of its orders. -/
theorem iteration_counts (mode : EventMode) (cmds : List ScenarioCommand)
    (hroom : OrderBook.NeverOverfull mode cmds) :
    ∃ b results, OrderBook.run mode cmds = .ok (b, results)
      ∧ (∀ incoming, ∃ b' trades calls, b.matchIncoming incoming = .ok (b', trades)
          ∧ b.matchIncomingTraced incoming = .ok ((b', trades), calls)
          ∧ CountedMatch b incoming trades calls)
      ∧ ∀ s q level, (b.levels s)[q]? = some level →
          ∃ orders, b.levelOrders level = .ok orders
            ∧ orders.length = (b.restingOrders.filter fun o => o.side = s ∧ o.price = q).length
            ∧ ∀ fuel, OrderBook.walkOrders b.arena fuel level.head
                = if orders.length ≤ fuel then .ok orders else .error .outOfFuel := by
  obtain ⟨b, hrun, hrep⟩ := run_represents hroom
  have hvalid := priorityRun_valid cmds
  exact ⟨b, _, hrun, hrep.countedMatch hvalid, fun _ _ _ hlevel => hrep.walkOrders_steps hvalid hlevel⟩

theorem iteration_counts_session :
    ∃ b results, OrderBook.run .full session = .ok (b, results)
      ∧ (∀ incoming, ∃ b' trades calls, b.matchIncoming incoming = .ok (b', trades)
          ∧ b.matchIncomingTraced incoming = .ok ((b', trades), calls)
          ∧ CountedMatch b incoming trades calls)
      ∧ ∀ s q level, (b.levels s)[q]? = some level →
          ∃ orders, b.levelOrders level = .ok orders
            ∧ orders.length = (b.restingOrders.filter fun o => o.side = s ∧ o.price = q).length
            ∧ ∀ fuel, OrderBook.walkOrders b.arena fuel level.head
                = if orders.length ≤ fuel then .ok orders else .error .outOfFuel :=
  iteration_counts .full session (by decide +kernel)

end LimitOrderBook
