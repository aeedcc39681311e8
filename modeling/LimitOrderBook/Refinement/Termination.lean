import LimitOrderBook.Engine.Api
import LimitOrderBook.Refinement.Arena
import LimitOrderBook.Refinement.Kept

/-!
# `Refinement.Termination` — the loops end before their bounds, in any state

The matching loops of the model carry a bound on their iterations, which the loops of the source do not have. This
module shows that no call ever runs into it, whatever the state of the book, reachable or not. So a fault of the model
is always a panic of the source, and never the bound.

The measures are two. An iteration of the inner loop either fills the incoming order or frees an occupied slot
(`tradeHead_progress`), so it is the number of `occupied` slots that falls. An iteration of the outer loop either
fills the order or drops a price (`matchAtLevel_progress`), so the size of the ladder falls.

`Terminates` says of a computation that it does not end by its bound. It is closed under `bind`, and the functions
without a loop have it at once; `drain_terminates` and `matchLoop_terminates` are by induction on the bound. The
results are `exec_terminates` for every command on any book and `run_terminates` for every run.
-/

namespace LimitOrderBook

/-- A computation that did not run out of iterations. -/
def Terminates {α : Type} (x : Except Fault α) : Prop := x ≠ .error .outOfFuel

namespace Terminates

variable {α β : Type}

theorem ok (a : α) : Terminates (.ok a : Except Fault α) := by
  intro h
  cases h

/-- A computation terminates when its parts do. -/
theorem bind {x : Except Fault α} {f : α → Except Fault β} (hx : Terminates x)
    (hf : ∀ a, x = .ok a → Terminates (f a)) : Terminates (x >>= f) := by
  cases x with
  | error e =>
      intro h
      injection h with h
      exact hx (by rw [h])
  | ok a => exact hf a rfl

end Terminates

/-! ## The arena -/

def Entry.isOccupied : Entry → Bool
  | .occupied _ => true
  | .vacant _ => false

namespace OrderArena

variable {a a' : OrderArena} {s : Slot}

/-- The number of occupied slots. -/
def occupied (a : OrderArena) : Nat := a.entries.countP Entry.isOccupied

/-- Not more slots are occupied than there are. -/
theorem occupied_le_size (a : OrderArena) : a.occupied ≤ a.entries.size := Array.countP_le_size

theorem get_terminates : Terminates (a.get s) := by
  unfold get
  split <;> (intro h; cases h)

theorem getMut_terminates {w : OrderNode → OrderNode} : Terminates (a.getMut s w) := by
  unfold getMut
  split <;> (intro h; cases h)

theorem remove_terminates : Terminates (a.remove s) := by
  unfold remove
  split <;> (intro h; cases h)

theorem insert_terminates {o : Order} : Terminates (a.insert o) := by
  unfold insert
  split
  · exact .ok _
  · split <;> (intro h; cases h)

/-- Writing an entry over an occupied one. -/
theorem occupied_set {i : Nat} {n : OrderNode} {e : Entry} (h : a.entries[i]? = some (.occupied n)) :
    (a.entries.set! i e).countP Entry.isOccupied + 1
      = a.occupied + (if e.isOccupied then 1 else 0) := by
  obtain ⟨hi, hent⟩ := Array.getElem?_eq_some_iff.mp h
  have hpos : 0 < a.occupied := by
    unfold occupied
    refine Array.countP_pos_iff.mpr ⟨a.entries[i], Array.getElem_mem hi, ?_⟩
    rw [hent]
    rfl
  rw [Array.set!_eq_setIfInBounds, Array.setIfInBounds, dif_pos hi, Array.countP_set hi, hent]
  unfold occupied at hpos ⊢
  show _ - 1 + _ + 1 = _
  omega

/-- A write through `get_mut` keeps the number of occupied slots. -/
theorem getMut_occupied {w : OrderNode → OrderNode} (h : a.getMut s w = .ok a') :
    a'.occupied = a.occupied := by
  unfold getMut at h
  split at h
  · cases h
  · cases h
  next node hnode =>
    injection h with h
    have hset := occupied_set (e := .occupied (w node)) hnode
    rw [← h]
    show (a.entries.set! s.toNat _).countP Entry.isOccupied = _
    simp only [Entry.isOccupied, if_true] at hset
    omega

/-- Writing to orders keeps the number of occupied slots. -/
theorem keptByWrites_occupied (n : Nat) : KeptByWrites fun a _ => a.occupied = n where
  write h hwrite _ := (getMut_occupied hwrite).trans h

/-- Removing an order frees one slot. -/
theorem remove_occupied {o : Order} (h : a.remove s = .ok (a', o)) : a'.occupied + 1 = a.occupied := by
  unfold remove at h
  split at h
  · cases h
  · cases h
  next node hnode =>
    injection h with h
    injection h with h _
    have hset := occupied_set (e := .vacant a.freeHead) hnode
    rw [← h]
    show (a.entries.set! s.toNat _).countP Entry.isOccupied + 1 = _
    rw [hset]
    rfl

/-- The slot of a removed order is empty. -/
theorem remove_vacates {o : Order} (h : a.remove s = .ok (a', o)) : a'.node? s = none := by
  unfold remove at h
  split at h
  · cases h
  · cases h
  next node hnode =>
    cases h
    have hin := lt_size_of_node? (node?_eq_some.mpr hnode)
    obtain ⟨hnode', -⟩ :=
      nextFree?_set (b := ⟨a.entries.set! s.toNat (.vacant a.freeHead), some s, a.len - 1⟩) hin rfl
    rw [hnode', Function.update_self]

/-- The slot `s` of `a` holds an order that is gone in `a'`, and one slot less is occupied there. -/
structure Frees (a : OrderArena) (s : Slot) (a' : OrderArena) : Prop where
  held : ∃ node, a.node? s = some node
  vacated : a'.node? s = none
  fewer : a'.occupied + 1 = a.occupied

end OrderArena

/-! ## The level -/

namespace PriceLevel

variable {l l' : PriceLevel} {a a' : OrderArena} {s : Slot}

theorem pushBack_terminates : Terminates (l.pushBack a s) := by
  unfold pushBack
  apply OrderArena.get_terminates.bind
  intro node _
  apply OrderArena.getMut_terminates.bind
  intro a₁ _
  split
  · apply OrderArena.getMut_terminates.bind
    intro a₂ _
    exact .ok _
  · exact .ok _

theorem unlink_terminates : Terminates (l.unlink a s) := by
  unfold unlink
  apply OrderArena.get_terminates.bind
  rintro ⟨o, prev, next⟩ _
  cases prev with
  | none =>
      cases next with
      | none => exact .ok _
      | some next =>
          apply OrderArena.getMut_terminates.bind
          intro a₁ _
          exact .ok _
  | some prev =>
      apply OrderArena.getMut_terminates.bind
      intro a₁ _
      cases next with
      | none => exact .ok _
      | some next =>
          apply OrderArena.getMut_terminates.bind
          intro a₂ _
          exact .ok _

/-- Detaching an order only writes links. -/
theorem unlink_occupied (h : l.unlink a s = .ok (l', a')) : a'.occupied = a.occupied :=
  @KeptByWrites.unlink _ a a' [] (OrderArena.keptByWrites_occupied a.occupied) l l' s rfl h

end PriceLevel

/-! ## The inner loop -/

namespace LevelCursor

variable {c c' : LevelCursor} {p : Price} {s : Slot}

/-- The inner loop's body has no loop of its own. -/
theorem tradeHead_terminates : Terminates (c.tradeHead p s) := by
  unfold tradeHead
  apply OrderArena.get_terminates.bind
  intro node _
  dsimp only
  split
  · apply PriceLevel.unlink_terminates.bind
    rintro ⟨level, a₁⟩ _
    apply OrderArena.remove_terminates.bind
    rintro ⟨a₂, o⟩ _
    exact .ok _
  · apply OrderArena.getMut_terminates.bind
    intro a₁ _
    exact .ok _

/-- **An iteration of the inner loop** fills the incoming order or frees the slot it trades against. -/
theorem tradeHead_progress (h : c.tradeHead p s = .ok c') :
    c'.incoming.isFilled = true ∨ c.arena.Frees s c'.arena := by
  unfold tradeHead at h
  obtain ⟨node, hnode, h⟩ := Machine.bind_eq_ok.mp h
  dsimp only at h
  split at h
  next =>
    obtain ⟨⟨level, a₁⟩, hunlink, h⟩ := Machine.bind_eq_ok.mp h
    obtain ⟨⟨a₂, o⟩, hremove, h⟩ := Machine.bind_eq_ok.mp h
    injection h with h
    apply Or.inr
    rw [← h]
    -- the head was filled: unlinking keeps the count, removing lowers it
    have hocc := OrderArena.remove_occupied hremove
    rw [PriceLevel.unlink_occupied hunlink] at hocc
    exact ⟨⟨node, OrderArena.of_get hnode⟩, OrderArena.remove_vacates hremove, hocc⟩
  next hne =>
    obtain ⟨a₁, -, h⟩ := Machine.bind_eq_ok.mp h
    injection h with h
    apply Or.inl
    rw [← h]
    -- the head was not filled, so the minimum was the incoming quantity
    have hmin : min c.incoming.remainingQty node.order.remainingQty = c.incoming.remainingQty :=
      (Std.MinEqOr.min_eq_or _ _).resolve_right hne
    rw [Order.isFilled_iff, hmin, UInt64.sub_self]

/-- **The inner loop** ends before its bound. -/
theorem drain_terminates {fuel : Nat} (hfuel : c.arena.occupied < fuel) : Terminates (drain p fuel c) := by
  induction fuel generalizing c with
  | zero => omega
  | succ fuel ih =>
      unfold drain
      split
      · exact .ok _
      · cases c.level.head with
        | none => exact .ok _
        | some slot =>
            show Terminates (c.tradeHead p slot >>= fun next => drain p fuel next)
            apply tradeHead_terminates.bind
            intro next htrade
            rcases tradeHead_progress htrade with hfilled | hfrees
            · -- filled: the next test ends the loop
              rw [drain_of_filled hfilled]
              exact .ok _
            · have hless := hfrees.fewer
              exact ih (by omega)

/-- It ends with the incoming order filled or the queue empty. -/
theorem drain_ends {fuel : Nat} (h : drain p fuel c = .ok c') :
    c'.incoming.isFilled = true ∨ c'.level.head = none :=
  (drain_invariant (I := fun _ => True) (fun _ _ _ _ _ _ _ => trivial) trivial h).2

end LevelCursor

/-! ## The outer loop -/

namespace OrderBook

variable {b b' : OrderBook} {s : Side} {p : Price} {incoming incoming' : Order}
  {trades trades' : List Trade}

theorem matchAtLevel_terminates : Terminates (b.matchAtLevel s p incoming trades) := by
  unfold matchAtLevel
  split
  · exact .ok _
  next level _ =>
    refine Terminates.bind (LevelCursor.drain_terminates (Nat.lt_succ_of_le b.arena.occupied_le_size)) ?_
    intro c _
    exact .ok _

/-- An empty ladder has no price. -/
theorem size_levels_pos (hp : p ∈ b.levels s) : 0 < (b.levels s).size := by
  rw [Nat.pos_iff_ne_zero]
  intro hzero
  rw [← Std.ExtTreeMap.eq_empty_iff_size_eq_zero] at hzero
  rw [hzero] at hp
  exact absurd hp (by simp)

/-- **An iteration of the outer loop** fills the incoming order or drops the price. -/
theorem matchAtLevel_progress (hp : p ∈ b.levels s)
    (h : b.matchAtLevel s p incoming trades = .ok (b', incoming', trades')) :
    incoming'.isFilled = true ∨ (b'.levels s).size < (b.levels s).size := by
  unfold matchAtLevel at h
  split at h
  next hnone =>
    rw [Std.ExtTreeMap.mem_iff_isSome_getElem?, hnone] at hp
    cases hp
  next level _ =>
    obtain ⟨c, hdrain, h⟩ := Machine.bind_eq_ok.mp h
    injection h with h
    injection h with hb h
    injection h with hincoming _
    rcases LevelCursor.drain_ends hdrain with hfilled | hempty
    · apply Or.inl
      rw [← hincoming]
      exact hfilled
    · apply Or.inr
      have hisEmpty : c.level.isEmpty = true := by
        unfold PriceLevel.isEmpty
        rw [hempty]
        rfl
      -- an empty level is erased, and its price was there
      have hlevels : b'.levels s = (b.levels s).erase p := by
        rw [← hb]
        unfold putLevel
        rw [if_pos hisEmpty]
        cases s <;> rfl
      have hpos := size_levels_pos hp
      rw [hlevels, Std.ExtTreeMap.size_erase, if_pos (Std.ExtTreeMap.contains_iff_mem.mpr hp)]
      omega

/-- **The outer loop** ends within the number of prices. -/
theorem matchLoop_terminates {best : OrderBook → Option Price} {beyond : Price → Price → Bool}
    (hbest : ∀ b p, best b = some p → p ∈ b.levels s) {fuel : Nat} (hfuel : (b.levels s).size ≤ fuel) :
    Terminates (matchLoop s best beyond fuel b incoming trades) := by
  induction fuel generalizing b incoming trades with
  | zero =>
      unfold matchLoop
      split
      · exact .ok _
      · cases hb : best b with
        | none => exact .ok _
        | some p =>
            -- there is a best price, so the bound was not 0
            have hpos := size_levels_pos (hbest b p hb)
            omega
  | succ fuel ih =>
      unfold matchLoop
      split
      · exact .ok _
      · cases hb : best b with
        | none => exact .ok _
        | some p =>
            show Terminates (if beyond p incoming.price then _ else _)
            split
            · exact .ok _
            · apply matchAtLevel_terminates.bind
              rintro ⟨b₁, incoming₁, trades₁⟩ hlevel
              show Terminates (matchLoop s best beyond fuel b₁ incoming₁ trades₁)
              rcases matchAtLevel_progress (hbest b p hb) hlevel with hfilled | hless
              · rw [matchLoop_of_filled hfilled]
                exact .ok _
              · exact ih (show (b₁.levels s).size ≤ fuel by omega)

theorem restOrder_terminates {o : Order} : Terminates (b.restOrder o) := by
  unfold restOrder
  apply OrderArena.insert_terminates.bind
  rintro ⟨a, slot⟩ _
  apply PriceLevel.pushBack_terminates.bind
  rintro ⟨level, a'⟩ _
  exact .ok _

theorem matchIncoming_terminates : Terminates (b.matchIncoming incoming) := by
  rw [matchIncoming_eq]
  unfold matchOrder
  refine (matchLoop_terminates (fun _ _ => bestPrice_mem) le_rfl).bind ?_
  rintro ⟨b₁, left, trades₁⟩ _
  show Terminates (if left.isFilled then _ else _)
  split
  · exact .ok _
  · apply restOrder_terminates.bind
    intro b₂ _
    exact .ok _

theorem removeOrderById_terminates {id : OrderId} : Terminates (b.removeOrderById id) := by
  unfold removeOrderById
  split
  · exact .ok _
  · apply OrderArena.get_terminates.bind
    intro node _
    dsimp only
    split
    · apply OrderArena.remove_terminates.bind
      rintro ⟨a, o⟩ _
      exact .ok _
    · apply PriceLevel.unlink_terminates.bind
      rintro ⟨level, a⟩ _
      apply OrderArena.remove_terminates.bind
      rintro ⟨a', o⟩ _
      exact .ok _

/-- **No call runs into the bounds of the loops**, in any state of the book. -/
theorem exec_terminates (b : OrderBook) (c : ScenarioCommand) : Terminates (b.exec c) := by
  cases c with
  | add order =>
      unfold exec addOrder
      dsimp only
      split
      · exact .ok _
      · split
        · exact .ok _
        · apply matchIncoming_terminates.bind
          rintro ⟨b₁, trades⟩ _
          exact .ok _
  | cancel id =>
      unfold exec cancelOrder
      dsimp only
      refine Terminates.bind ?_ ?_
      · apply removeOrderById_terminates.bind
        rintro ⟨b₁, old⟩ _
        cases old <;> exact .ok _
      · rintro ⟨b₁, res⟩ _
        exact .ok _
  | modify id newPrice newQuantity =>
      unfold exec modifyOrder
      dsimp only
      split
      · exact .ok _
      · apply removeOrderById_terminates.bind
        rintro ⟨b₁, old⟩ _
        cases old with
        | none => exact .ok _
        | some o =>
            apply matchIncoming_terminates.bind
            rintro ⟨b₂, trades⟩ _
            exact .ok _

/-- No run does either. -/
theorem run_terminates (b : OrderBook) (cmds : List ScenarioCommand) :
    Terminates (Machine.tryRun exec b cmds) := by
  induction cmds generalizing b with
  | nil => exact .ok _
  | cons c cmds ih =>
      cases hexec : b.exec c with
      | error e =>
          intro h
          unfold Machine.tryRun at h
          rw [hexec] at h
          injection h with h
          exact exec_terminates b c (by rw [hexec, h])
      | ok r =>
          rw [Machine.tryRun_cons hexec]
          intro h
          cases hrun : Machine.tryRun exec r.1 cmds with
          | error e =>
              rw [hrun] at h
              injection h with h
              exact ih r.1 (by rw [hrun, h])
          | ok r' =>
              rw [hrun] at h
              cases h

end OrderBook
end LimitOrderBook
