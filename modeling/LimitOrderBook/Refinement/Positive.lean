import LimitOrderBook.Refinement.Arena
import LimitOrderBook.Refinement.Kept

/-!
# `Refinement.Positive` — no stored order and no trade is empty

An order is stored with something left, a fill that empties it removes it, and a trade takes something of both sides.
`Positive` says so of an arena and the trades made so far. It holds of every run that returns, also when more orders
rest than slots can be told apart (`tryRun_positive`), and is read off a snapshot by `snapshot_positive`.

The proof does not use the refinement. `node?_getMut`, `node?_remove` and `node?_insert` say where a node comes from
after an operation of the arena that returned, whatever the state of its free list. With them the property is `Kept`
by the loops (`kept_positive`), and a call ends with the insertion of an order that has something left.
-/

namespace LimitOrderBook

namespace OrderArena

/-- Every stored order has something left, and every trade moved something. -/
def Positive (a : OrderArena) (trades : List Trade) : Prop :=
  (∀ s n, a.node? s = some n → n.order.remainingQty ≠ 0) ∧ ∀ t ∈ trades, t.quantity ≠ 0

variable {a a' : OrderArena} {trades : List Trade} {s t : Slot} {n : OrderNode}

theorem positive_empty : Positive {} [] := by
  refine ⟨?_, fun t ht => by cases ht⟩
  intro s n h
  cases h

/-- After a write a node is the one written, or it was there. -/
theorem node?_getMut {w : OrderNode → OrderNode} (hwrite : a.getMut s w = .ok a')
    (h : a'.node? t = some n) : (∃ m, a.node? s = some m ∧ n = w m) ∨ a.node? t = some n := by
  obtain ⟨m, hm⟩ := of_getMut hwrite
  obtain ⟨a₁, hwrite₁, hnode, -⟩ := getMut_spec hm w
  rw [hwrite] at hwrite₁
  cases hwrite₁
  rw [hnode] at h
  by_cases hts : t = s
  · subst hts
    rw [Function.update_self] at h
    exact Or.inl ⟨m, hm, (Option.some.inj h).symm⟩
  · rw [Function.update_of_ne hts] at h
    exact Or.inr h

/-- After a removal a node was there before. -/
theorem node?_remove {o : Order} (hremove : a.remove s = .ok (a', o)) (h : a'.node? t = some n) :
    a.node? t = some n := by
  unfold remove at hremove
  split at hremove
  · cases hremove
  · cases hremove
  next node hnode =>
    cases hremove
    have hs := (Array.getElem?_eq_some_iff.mp hnode).1
    rw [(nextFree?_set (b := ⟨a.entries.set! s.toNat (.vacant a.freeHead), some s, a.len - 1⟩) hs rfl).1] at h
    by_cases hts : t = s
    · subst hts
      rw [Function.update_self] at h
      cases h
    · rwa [Function.update_of_ne hts] at h

/-- After an insertion a node holds the order inserted, or it was there. -/
theorem node?_insert {o : Order} (hinsert : a.insert o = .ok (a', s)) (h : a'.node? t = some n) :
    n.order = o ∨ a.node? t = some n := by
  unfold insert at hinsert
  dsimp only at hinsert
  split at hinsert
  · cases hinsert
    rw [(node?_push (a := a) rfl t).1] at h
    split at h
    · cases h
      exact Or.inl rfl
    · exact Or.inr h
  next slot _ =>
    split at hinsert
    · cases hinsert
    · cases hinsert
    next next hvacant =>
      cases hinsert
      have hs := (Array.getElem?_eq_some_iff.mp hvacant).1
      rw [(node?_set (b := ⟨a.entries.set! s.toNat (.occupied ⟨o, none, none⟩), next, a.len + 1⟩) hs rfl).1] at h
      by_cases hts : t = s
      · subst hts
        rw [Function.update_self] at h
        cases h
        exact Or.inl rfl
      · rw [Function.update_of_ne hts] at h
        exact Or.inr h

/-- A trade takes something when both sides have something left. -/
theorem min_ne_zero {q r : Quantity} (hq : q ≠ 0) (hr : r ≠ 0) : min q r ≠ 0 := by
  rcases Std.MinEqOr.min_eq_or q r with hmin | hmin
  · rwa [hmin]
  · rwa [hmin]

/-- Writing, removing and trading keep it. -/
theorem kept_positive : Kept Positive where
  write := by
    rintro a a' ts s w ⟨hnodes, htrades⟩ hwrite hkeeps
    refine ⟨?_, htrades⟩
    intro t n hn
    rcases node?_getMut hwrite hn with ⟨m, hm, rfl⟩ | hn
    · exact hkeeps m (get_eq hm) (hnodes s m hm)
    · exact hnodes t n hn
  remove := by
    rintro a a' ts s o ⟨hnodes, htrades⟩ hremove
    exact ⟨fun t n hn => hnodes t n (node?_remove hremove hn), htrades⟩
  trade := by
    rintro a ts s n left ⟨hnodes, htrades⟩ hget hleft taker price
    refine ⟨hnodes, ?_⟩
    intro t ht
    rcases List.mem_append.mp ht with ht | ht
    · exact htrades t ht
    · obtain rfl := List.mem_singleton.mp ht
      exact min_ne_zero hleft (hnodes s n (of_get hget))

end OrderArena

namespace OrderBook

variable {b b' : OrderBook} {incoming : Order} {c : ScenarioCommand} {trades : List Trade}

theorem matchIncoming_positive (h : b.arena.Positive []) (hmatch : b.matchIncoming incoming = .ok (b', trades)) :
    b'.arena.Positive trades := by
  rcases OrderArena.kept_positive.matchIncoming h hmatch with hdone | ⟨b₁, rest, ⟨hnodes, htrades⟩, h0, hrest⟩
  · exact hdone
  · obtain ⟨a, slot, hinsert, hlinks⟩ := of_restOrder hrest
    refine hlinks _ trades OrderArena.kept_positive.toKeptByWrites ⟨?_, htrades⟩
    intro t n hn
    rcases OrderArena.node?_insert hinsert hn with rfl | hn
    · exact h0
    · exact hnodes t n hn

theorem removeOrderById_positive {id : OrderId} {old : Order} (h : b.arena.Positive trades)
    (hremove : b.removeOrderById id = .ok (b', some old)) : b'.arena.Positive trades := by
  obtain ⟨a, slot, hunlinked, hfreed⟩ := OrderArena.kept_positive.removeOrderById h hremove
  exact OrderArena.kept_positive.remove hunlinked hfreed

/-- **A call stores no empty order and makes no empty trade.** -/
theorem exec_positive {res : CommandResult} (h : b.arena.Positive []) (hexec : b.exec c = .ok (b', res)) :
    b'.arena.Positive (returnedTrades [res]) := by
  cases res with
  | error e =>
      rw [exec_rejected hexec]
      exact h
  | ok trades =>
      rw [returnedTrades_ok]
      have hstep := exec_arenaStep hexec
      generalize b'.arena = arena at hstep
      cases hstep with
      | added harena hmatch =>
          rw [← harena] at h
          exact matchIncoming_positive h hmatch
      | cancelled hremove => exact removeOrderById_positive h hremove
      | modified hremove hmatch => exact matchIncoming_positive (removeOrderById_positive h hremove) hmatch

/-- **Neither does a run.** -/
theorem tryRun_positive {cmds : List ScenarioCommand} {results : List CommandResult} (h : b.arena.Positive [])
    (hrun : Machine.tryRun exec b cmds = .ok (b', results)) : b'.arena.Positive (returnedTrades results) := by
  induction cmds generalizing b results with
  | nil =>
      cases hrun
      exact h
  | cons c cmds ih =>
      obtain ⟨b₁, res, results', hexec, hrest, rfl⟩ := Machine.tryRun_cons_ok hrun
      obtain ⟨hnodes, htrades⟩ := exec_positive h hexec
      obtain ⟨hnodes', htrades'⟩ := ih ⟨hnodes, fun t ht => by cases ht⟩ hrest
      refine ⟨hnodes', ?_⟩
      rw [returnedTrades_cons]
      exact fun t ht => (List.mem_append.mp ht).elim (htrades t) (htrades' t)

/-! ## Snapshots -/

/-- What a walk reads is stored. -/
theorem walkOrders_positive {a : OrderArena} (h : a.Positive trades) {fuel : Nat} {slot : Option Slot}
    {orders : List Order} (hwalk : walkOrders a fuel slot = .ok orders) :
    ∀ o ∈ orders, o.remainingQty ≠ 0 := by
  induction fuel generalizing slot orders with
  | zero =>
      cases slot with
      | none =>
          cases hwalk
          exact fun o ho => by cases ho
      | some s => cases hwalk
  | succ fuel ih =>
      cases slot with
      | none =>
          cases hwalk
          exact fun o ho => by cases ho
      | some s =>
          unfold walkOrders at hwalk
          obtain ⟨node, hget, hwalk⟩ := Machine.bind_eq_ok.mp hwalk
          obtain ⟨rest, hrest, hwalk⟩ := Machine.bind_eq_ok.mp hwalk
          cases hwalk
          exact List.forall_mem_cons.mpr ⟨h.1 s node (OrderArena.of_get hget), ih hrest⟩

theorem readLevels_positive (h : b.arena.Positive trades) {ladder : List (Price × PriceLevel)}
    {levels : List (Price × List Order)} (hread : b.readLevels ladder = .ok levels) :
    ∀ o ∈ levels.flatMap Prod.snd, o.remainingQty ≠ 0 := by
  induction ladder generalizing levels with
  | nil =>
      cases hread
      exact fun o ho => by cases ho
  | cons l ladder ih =>
      unfold readLevels at hread ih
      rw [List.mapM_cons] at hread
      obtain ⟨entry, hlevel, hread⟩ := Machine.bind_eq_ok.mp hread
      obtain ⟨orders, hwalk, hlevel⟩ := Machine.bind_eq_ok.mp hlevel
      obtain ⟨rest, hrest, hread⟩ := Machine.bind_eq_ok.mp hread
      cases hlevel
      cases hread
      rw [List.flatMap_cons]
      exact fun o ho => (List.mem_append.mp ho).elim (walkOrders_positive h hwalk o) (ih hrest o)

/-- Every order that a snapshot lists has something left. -/
theorem snapshot_positive (h : b.arena.Positive trades) {snap : BookSnapshot} (hsnap : b.snapshot = .ok snap)
    (s : Side) : ∀ o ∈ snap.orders s, o.remainingQty ≠ 0 := by
  unfold snapshot at hsnap
  obtain ⟨bids, hbids, hsnap⟩ := Machine.bind_eq_ok.mp hsnap
  obtain ⟨asks, hasks, hsnap⟩ := Machine.bind_eq_ok.mp hsnap
  cases hsnap
  cases s with
  | buy => exact readLevels_positive h hbids
  | sell => exact readLevels_positive h hasks

end OrderBook
end LimitOrderBook
