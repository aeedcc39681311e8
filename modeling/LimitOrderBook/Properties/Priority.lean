import LimitOrderBook.Lib.Precedes
import LimitOrderBook.Refinement.Run
import LimitOrderBook.Reference.Steps
import LimitOrderBook.Events.Log

/-!
# `Properties.Priority` — queue priority is never lost

Queue priority is never lost: of two orders on one side, the one that is ahead stays ahead until it is filled or
cancelled, in every later run that modifies neither.

`Leads` is what one state has to say: `x` rests on its side with what it had less what it traded since, and `b`, if it
rests at all, is behind it. A command that spares both keeps it so, or `x` is used up or cancelled (`Leads.step`).
Inside one command the same holds between two trades: a trade that reaches `b` comes when `x` has traded all it had
(`Leads.trade_step`).

`Stands` is the invariant of a run, with what the history says of `x` when it is gone. `Stands.step` and `Stands.run`
are the induction, and `Stands.trade` what it gives for a trade of a later command. `queue_priority` reads both parts
off the snapshots and the results of a run.
-/

namespace LimitOrderBook

/-- The command does not modify the order with this id. -/
def ScenarioCommand.Spares (id : OrderId) : ScenarioCommand → Prop
  | .modify id' _ _ => id' ≠ id
  | _ => True

/-- Filling a front part of a side trades exactly what its orders had. -/
theorem tradedAsMaker_fullTrades {taker : Order} {filled : List Order}
    (hnd : (filled.map Order.id).Nodup) {x : Order} (hx : x ∈ filled) :
    tradedAsMaker x.id (filled.map (fullTrade taker)) = x.remainingQty.toNat := by
  induction filled with
  | nil => exact absurd hx List.not_mem_nil
  | cons maker filled ih =>
      obtain ⟨hout, hnd'⟩ := List.nodup_cons.mp hnd
      rw [List.map_cons]
      rcases List.mem_cons.mp hx with rfl | hx
      · refine tradedAsMaker_cons_last (t := fullTrade taker x) ?_
        intro t ht hid
        obtain ⟨y, hy, rfl⟩ := List.mem_map.mp ht
        exact hout (List.mem_map.mpr ⟨y, hy, hid⟩)
      · have hne : (fullTrade taker maker).makerOrderId ≠ x.id := by
          intro hid
          exact hout (List.mem_map.mpr ⟨x, hx, hid.symm⟩)
        rw [tradedAsMaker_cons_of_ne hne]
        exact ih hnd' hx

namespace PriorityBook

variable {p p' : PriorityBook} {s : Side} {x o : Order} {b : OrderId} {traded : Nat}
  {c : ScenarioCommand} {res : CommandResult}

/-- `x` rests on side `s` with what it had less `traded`, and ahead of `b` if that rests too. -/
structure Leads (p : PriorityBook) (s : Side) (x : Order) (b : OrderId) (traded : Nat) : Prop where
  rests : ∃ y ∈ p.side s, y.id = x.id ∧ y.remainingQty.toNat + traded = x.remainingQty.toNat
  ahead : b ∈ p.orders.map Order.id → Precedes ((p.side s).map Order.id) x.id b

namespace Leads

theorem mem (h : p.Leads s x b traded) : x.id ∈ (p.side s).map Order.id := by
  obtain ⟨y, hy, hid, -⟩ := h.rests
  exact List.mem_map.mpr ⟨y, hy, hid⟩

/-- The order that leads is in the book. -/
theorem mem_orders (h : p.Leads s x b traded) : x.id ∈ p.orders.map Order.id := by
  obtain ⟨y, hy, hid, -⟩ := h.rests
  exact List.mem_map.mpr ⟨y, PriorityBook.mem_orders.mpr ⟨s, hy⟩, hid⟩

/-- Removing another order lets `x` lead. -/
theorem without (h : p.Leads s x b traded) {id : OrderId} (hx : id ≠ x.id) :
    (p.without id).Leads s x b traded := by
  refine ⟨?_, ?_⟩
  · obtain ⟨y, hy, hid, hqty⟩ := h.rests
    refine ⟨y, List.mem_filter.mpr ⟨hy, decide_eq_true ?_⟩, hid, hqty⟩
    rw [hid]
    exact hx.symm
  · intro hb
    obtain ⟨z, hz, hzid⟩ := List.mem_map.mp hb
    obtain ⟨hz, hne⟩ := mem_orders_without.mp hz
    have hprec := h.ahead (List.mem_map.mpr ⟨z, hz, hzid⟩)
    rw [hzid] at hne
    have hfilter : (((p.without id).side s).map Order.id)
        = ((p.side s).map Order.id).filter fun i => i ≠ id := by
      rw [side_without, List.filter_map]
      rfl
    rw [hfilter]
    exact hprec.filter (decide_eq_true hx.symm) (decide_eq_true hne)

/-- **Submitting another order** leaves `x` in the lead with what it had less what it traded, or uses it
    up. -/
theorem submit (h : p.Leads s x b traded) (hp : p.Valid) (hx : o.id ≠ x.id) (hb : o.id ≠ b) :
    (p.submit o).1.Leads s x b (traded + tradedAsMaker x.id (p.submit o).2)
      ∨ (x.id ∉ (p.submit o).1.orders.map Order.id
        ∧ traded + tradedAsMaker x.id (p.submit o).2 = x.remainingQty.toNat) := by
  obtain ⟨left, hfills, hown⟩ := p.submit_spec o
  -- `b` does not join the book
  have hbold : b ∈ (p.submit o).1.orders.map Order.id → b ∈ p.orders.map Order.id := by
    intro hmem
    obtain ⟨z, hz, hzid⟩ := List.mem_map.mp hmem
    rcases mem_orders_submit hz with heq | ⟨y, hy, hplace⟩
    · exact absurd (heq.symm.trans hzid) hb
    · exact List.mem_map.mpr ⟨y, hy, (place_id hplace).trans hzid⟩
  obtain ⟨y, hy, hid, hqty⟩ := h.rests
  rcases s.eq_or_eq_opposite o.side with rfl | rfl
  · -- on the incoming order's own side nothing trades
    have hnone : tradedAsMaker x.id (p.submit o).2 = 0 := by
      apply tradedAsMaker_eq_zero
      intro t ht heq
      exact hp.not_mem_opposite h.mem (heq ▸ (submit_trade ht).2)
    rw [hnone, Nat.add_zero]
    refine Or.inl ⟨⟨y, ?_, hid, hqty⟩, ?_⟩
    · rw [hown]
      exact mem_restLeft.mpr (Or.inl hy)
    · intro hmem
      rw [hown]
      exact (h.ahead (hbold hmem)).sublist ((sublist_restLeft o left _).map Order.id)
  · have hnd : ((p.side o.side.opposite).map Order.id).Nodup := hp.nodup_side _
    rcases hfills.balance hnd hy with ⟨z, hz, hplace, hrest⟩ | ⟨hgone, hall⟩
    · have hzid : z.id = x.id := (place_id hplace).trans hid
      rw [hid] at hrest
      refine Or.inl ⟨⟨z, hz, hzid, by omega⟩, ?_⟩
      intro hmem
      -- matching takes orders from the front only, so what is left keeps its order
      exact (h.ahead (hbold hmem)).of_suffix hnd hfills.ids (List.mem_map.mpr ⟨z, hz, hzid⟩)
    · rw [hid] at hall hgone
      -- used up: `x` is on neither side any more
      refine Or.inr ⟨?_, by omega⟩
      intro hmem
      obtain ⟨z, hz, hzid⟩ := List.mem_map.mp hmem
      obtain ⟨t, hz⟩ := PriorityBook.mem_orders.mp hz
      rcases t.eq_or_eq_opposite o.side with rfl | rfl
      · rw [hown, mem_restLeft] at hz
        rcases hz with hz | ⟨-, rfl⟩
        · exact hp.not_mem_opposite (List.mem_map.mpr ⟨z, hz, hzid⟩) h.mem
        · exact hx hzid
      · exact hgone (List.mem_map.mpr ⟨z, hz, hzid⟩)

/-- **A trade that reaches `b`** comes when `x` has traded all it had. -/
theorem trade_submit (h : p.Leads s x b traded) (hp : p.Valid) {before after : List Trade} {t : Trade}
    (hsplit : (p.submit o).2 = before ++ t :: after) (ht : t.makerOrderId = b) :
    traded + tradedAsMaker x.id before = x.remainingQty.toNat := by
  obtain ⟨left, hfills, -⟩ := p.submit_spec o
  obtain ⟨filled, maker, rest, hside, hbefore, hmaker, -⟩ := hfills.trade_at hsplit
  have hmem : maker ∈ p.side o.side.opposite := by
    rw [hside]
    exact List.mem_append_right _ List.mem_cons_self
  have hb : b = maker.id := ht.symm.trans hmaker
  have hprec := h.ahead (List.mem_map.mpr ⟨maker, PriorityBook.mem_orders.mpr ⟨_, hmem⟩, hb.symm⟩)
  -- `b` is behind `x`, so both are on the side that is matched
  have hs : s = o.side.opposite := by
    rcases s.eq_or_eq_opposite o.side with rfl | rfl
    · exact absurd (List.mem_map.mpr ⟨maker, hmem, hb.symm⟩) (hp.not_mem_opposite hprec.mem_right)
    · rfl
  subst hs
  have hnd := hp.nodup_side o.side.opposite
  rw [hside, List.map_append, List.map_cons] at hprec hnd
  -- the order in the lead is in front of the maker, so it has been filled
  rw [hb] at hprec
  obtain ⟨z, hz, hzid⟩ := List.mem_map.mp (hprec.mem_front hnd)
  obtain ⟨y, hy, hid, hqty⟩ := h.rests
  have hzy : z = y := by
    have hmem' : z ∈ p.side o.side.opposite := by
      rw [hside]
      exact List.mem_append_left _ hz
    exact hp.eq_of_id (PriorityBook.mem_orders.mpr ⟨_, hmem'⟩) (PriorityBook.mem_orders.mpr ⟨_, hy⟩)
      (hzid.trans hid.symm)
  rw [hbefore, ← hzid, tradedAsMaker_fullTrades hnd.of_append_left hz, hzy]
  omega

/-- **One command** that modifies neither order keeps `x` in the lead, uses it up or cancels it. -/
theorem step (h : p.Leads s x b traded) (hp : p.Valid) (hb : b ∈ p.accepted) (hstep : p.Step c p' res)
    (hcx : c.Spares x.id) (hcb : c.Spares b) :
    p'.Leads s x b (traded + tradedAsMaker x.id (returnedTrades [res]))
      ∨ (p'.Gone x.id ∧ (traded + tradedAsMaker x.id (returnedTrades [res]) = x.remainingQty.toNat
          ∨ (c = .cancel x.id ∧ ∃ trades, res = .ok trades))) := by
  have hknown : x.id ∈ p.accepted := by
    obtain ⟨y, hy, hid⟩ := List.mem_map.mp h.mem_orders
    exact hid ▸ hp.known y hy
  cases hstep with
  | rejected _ => exact Or.inl h
  | @added o h0 hnew =>
      have hx : o.id ≠ x.id := fun heq => hnew (heq ▸ hknown)
      have hb' : o.id ≠ b := fun heq => hnew (heq ▸ hb)
      have h' : (p.accept o.id).Leads s x b traded := ⟨h.rests, h.ahead⟩
      rw [returnedTrades_ok]
      refine (h'.submit (hp.accept o.id) hx hb').imp id ?_
      rintro ⟨hout, hall⟩
      exact ⟨⟨Finset.mem_insert_of_mem hknown, hout⟩, Or.inl hall⟩
  | @cancelled id old hold =>
      by_cases hx : id = x.id
      · subst hx
        refine Or.inr ⟨⟨hknown, ?_⟩, Or.inr ⟨rfl, [], rfl⟩⟩
        intro hmem
        obtain ⟨z, hz, hzid⟩ := List.mem_map.mp hmem
        exact (mem_orders_without.mp hz).2 hzid
      · exact Or.inl (h.without hx)
  | @modified target old price qty h0 hold =>
      have hx : target ≠ x.id := hcx
      have hb' : target ≠ b := hcb
      have hsubmit := (h.without hx).submit (o := Order.new target old.side price qty)
        (hp.without target) hx hb'
      rw [returnedTrades_ok]
      apply hsubmit.imp id
      rintro ⟨hout, hall⟩
      exact ⟨⟨hknown, hout⟩, Or.inl hall⟩

/-- The trade of a command that reaches `b` comes when `x` has traded all it had. -/
theorem trade_step (h : p.Leads s x b traded) (hp : p.Valid) {before after : List Trade} {t : Trade}
    (hstep : p.Step c p' (.ok (before ++ t :: after))) (hcx : c.Spares x.id)
    (ht : t.makerOrderId = b) : traded + tradedAsMaker x.id before = x.remainingQty.toNat := by
  generalize hres : (.ok (before ++ t :: after) : CommandResult) = res at hstep
  cases hstep with
  | rejected _ => cases hres
  | @added o h0 hnew =>
      have h' : (p.accept o.id).Leads s x b traded := ⟨h.rests, h.ahead⟩
      exact h'.trade_submit (hp.accept o.id) (Except.ok.inj hres).symm ht
  | cancelled _ => simp at hres
  | @modified id old price qty h0 hold =>
      have hx : id ≠ x.id := hcx
      exact (h.without hx).trade_submit (hp.without id) (Except.ok.inj hres).symm ht

end Leads

/-! ## Runs -/

/-- An accepted order takes part in trades as a maker only, unless it is modified. -/
theorem Step.taker_ne (hp : p.Valid) (hb : b ∈ p.accepted) {trades : List Trade}
    (hstep : p.Step c p' (.ok trades)) (hcb : c.Spares b) : ∀ t ∈ trades, t.takerOrderId ≠ b := by
  intro t ht hid
  have hc : c.orderId = b := ((hstep.trades hp).2 t ht).1.symm.trans hid
  cases hstep with
  | @added o h0 hnew =>
      have hid : o.id = b := hc
      exact hnew (hid ▸ hb)
  | cancelled _ => exact List.not_mem_nil ht
  | modified h0 hold => exact hcb hc

/-- How `x` and `b` stand after the calls of a history: `x` leads, or it was used up, or cancelled. -/
structure Stands (s : Side) (x : Order) (b : OrderId) (p : PriorityBook)
    (cmds : List ScenarioCommand) (results : List CommandResult) : Prop where
  valid : p.Valid
  known : b ∈ p.accepted
  aligned : cmds.length = results.length
  stands : p.Leads s x b (tradedAsMaker x.id (returnedTrades results))
    ∨ (p.Gone x.id ∧ (tradedAsMaker x.id (returnedTrades results) = x.remainingQty.toNat
        ∨ ∃ trades, (.cancel x.id, .ok trades) ∈ cmds.zip results))

namespace Stands

variable {cmds : List ScenarioCommand} {results : List CommandResult}

/-- The history that led here, one call longer. -/
theorem step (h : Stands s x b p cmds results) (hcx : c.Spares x.id) (hcb : c.Spares b) :
    Stands s x b (p.exec c).1 (cmds ++ [c]) (results ++ [(p.exec c).2]) := by
  have hstep := p.exec_step c
  refine ⟨h.valid.exec c, hstep.mem_accepted.mpr (Or.inl h.known), by simp [h.aligned], ?_⟩
  rw [returnedTrades_append, tradedAsMaker_append]
  rcases h.stands with hleads | ⟨hgone, hwhy⟩
  · refine (hleads.step h.valid h.known hstep hcx hcb).imp id ?_
    rintro ⟨hgone, hall | ⟨rfl, trades, hok⟩⟩
    · exact ⟨hgone, Or.inl hall⟩
    · refine ⟨hgone, Or.inr ⟨trades, ?_⟩⟩
      rw [List.zip_append h.aligned, hok]
      exact List.mem_append_right _ List.mem_cons_self
  · -- an order that is gone trades no more
    obtain ⟨hgone', -, htrades⟩ := hgone.step h.valid hstep
    have hnone : tradedAsMaker x.id (returnedTrades [(p.exec c).2]) = 0 := by
      cases hres : (p.exec c).2 with
      | error e => rfl
      | ok trades =>
          rw [returnedTrades_ok]
          exact tradedAsMaker_eq_zero fun t ht => (htrades trades hres t ht).1
    refine Or.inr ⟨hgone', hwhy.imp ?_ ?_⟩
    · intro hall
      rw [hnone, Nat.add_zero]
      exact hall
    · rintro ⟨trades, hmem⟩
      refine ⟨trades, ?_⟩
      rw [List.zip_append h.aligned]
      exact List.mem_append_left _ hmem

theorem run (h : Stands s x b p [] []) (hspares : ∀ c ∈ cmds, c.Spares x.id ∧ c.Spares b) :
    Stands s x b (Machine.run exec p cmds).1 cmds (Machine.run exec p cmds).2 := by
  let Inv : PriorityBook → List ScenarioCommand → List CommandResult → Prop :=
    fun q js ps => (∀ c ∈ js, c.Spares x.id ∧ c.Spares b) → Stands s x b q js ps
  have hstart : Inv p [] [] := fun _ => h
  have hstep : ∀ q js ps i, Inv q js ps → Inv (exec q i).1 (js ++ [i]) (ps ++ [(exec q i).2]) := by
    intro q js ps i hq hall
    obtain ⟨hix, hib⟩ := hall i (List.mem_append_right _ List.mem_cons_self)
    exact (hq fun c hc => hall c (List.mem_append_left _ hc)).step hix hib
  exact Machine.run_history hstep hstart cmds hspares

/-- **No trade reaches `b`** before `x` is used up or cancelled. -/
theorem trade (h : Stands s x b p cmds results) {before after : List Trade} {t : Trade}
    (hstep : p.Step c p' (.ok (before ++ t :: after))) (hcx : c.Spares x.id) (hcb : c.Spares b)
    (ht : t.makerOrderId = b ∨ t.takerOrderId = b) :
    tradedAsMaker x.id (returnedTrades results ++ before) = x.remainingQty.toNat
      ∨ ∃ trades, (.cancel x.id, .ok trades) ∈ cmds.zip results := by
  have hmem : t ∈ before ++ t :: after := List.mem_append_right _ List.mem_cons_self
  have hmaker : t.makerOrderId = b :=
    ht.resolve_right (hstep.taker_ne h.valid h.known hcb t hmem)
  rw [tradedAsMaker_append]
  rcases h.stands with hleads | ⟨hgone, hwhy⟩
  · exact Or.inl (hleads.trade_step h.valid hstep hcx hmaker)
  · obtain ⟨-, -, htrades⟩ := hgone.step h.valid hstep
    have hnone : tradedAsMaker x.id before = 0 := by
      apply tradedAsMaker_eq_zero
      intro u hu
      exact (htrades _ rfl u (List.mem_append_left _ hu)).1
    rw [hnone, Nat.add_zero]
    exact hwhy

end Stands
end PriorityBook

/-- **Queue priority is never lost.** After a run `pre` let `x` rest ahead of `y` on a side, and let the
    calls of `post` and the call `c` after them modify neither. After `post`, if both rest, `x` is still
    ahead of `y`; and a trade of `c` in which `y` takes part comes after `x` was cancelled in `post`, or
    after it traded, in `post` and in `c` before that trade, all it had. -/
theorem queue_priority (mode : EventMode) (pre post : List ScenarioCommand)
    (hroom : OrderBook.NeverOverfull mode (pre ++ post)) :
    ∃ b results snap b' results' snap', OrderBook.run mode pre = .ok (b, results)
      ∧ b.snapshot = .ok snap
      ∧ Machine.tryRun OrderBook.exec b post = .ok (b', results') ∧ b'.snapshot = .ok snap'
      ∧ ∀ s x y, Precedes (snap.orders s) x y → (∀ c ∈ post, c.Spares x.id ∧ c.Spares y.id) →
          (x.id ∈ snap'.ids → y.id ∈ snap'.ids → Precedes ((snap'.orders s).map Order.id) x.id y.id)
          ∧ ∀ c, c.Spares x.id → c.Spares y.id → ∃ b'' res, b'.exec c = .ok (b'', res)
            ∧ ∀ before t after, res = .ok (before ++ t :: after) →
                t.makerOrderId = y.id ∨ t.takerOrderId = y.id →
                tradedAsMaker x.id (returnedTrades results' ++ before) = x.remainingQty.toNat
                ∨ ∃ trades, (.cancel x.id, .ok trades) ∈ post.zip results' := by
  obtain ⟨b, b', hrun, hrep, hlater, hrep'⟩ := run_represents_append hroom
  obtain ⟨snap, hsnap, horders⟩ := hrep.snapshot_eq
  obtain ⟨snap', hsnap', horders'⟩ := hrep'.snapshot_eq
  have hvalid := priorityRun_valid pre
  refine ⟨b, _, snap, b', _, snap', hrun, hsnap, hlater, hsnap', ?_⟩
  intro s x y hprec hspares
  rw [horders] at hprec
  have hx : x ∈ (priorityRun pre).1.side s := hprec.mem_left
  have hy : y ∈ (priorityRun pre).1.orders := PriorityBook.mem_orders.mpr ⟨s, hprec.mem_right⟩
  have hleads : (priorityRun pre).1.Leads s x y.id (tradedAsMaker x.id (returnedTrades [])) :=
    ⟨⟨x, hx, rfl, rfl⟩, fun _ => hprec.map Order.id⟩
  have hstart : PriorityBook.Stands s x y.id (priorityRun pre).1 [] [] :=
    ⟨hvalid, hvalid.known y hy, rfl, Or.inl hleads⟩
  have hstands := hstart.run hspares
  refine ⟨?_, ?_⟩
  · intro hxid hyid
    rw [hrep'.ids_eq hsnap'] at hxid hyid
    rw [horders']
    rcases hstands.stands with hleads | ⟨hgone, -⟩
    · exact hleads.ahead hyid
    · exact absurd hxid hgone.2
  · intro c hcx hcy
    obtain ⟨b'', hexec⟩ := hrep'.exec_eq c
    refine ⟨b'', _, hexec, ?_⟩
    intro before t after hres ht
    have hstep := PriorityBook.exec_step
      (Machine.run PriorityBook.exec (priorityRun pre).1 post).1 c
    rw [hres] at hstep
    exact hstands.trade hstep hcx hcy ht

/-- The first of two bids is still ahead after a sell took four of its ten units. -/
theorem queue_priority_bids :
    ∃ b results b' results' snap',
      OrderBook.run .full [.add ⟨1, .buy, 100, 10⟩, .add ⟨2, .buy, 100, 3⟩] = .ok (b, results)
      ∧ Machine.tryRun OrderBook.exec b [.add ⟨3, .sell, 100, 4⟩] = .ok (b', results')
      ∧ b'.snapshot = .ok snap'
      ∧ (1 ∈ snap'.ids → 2 ∈ snap'.ids → Precedes ((snap'.orders .buy).map Order.id) 1 2) := by
  have hbids : (do
      let (b, _) ← OrderBook.run .full [.add ⟨1, .buy, 100, 10⟩, .add ⟨2, .buy, 100, 3⟩]
      b.snapshot) = .ok ⟨[(100, [⟨1, .buy, 100, 10⟩, ⟨2, .buy, 100, 3⟩])], []⟩ := by decide +kernel
  obtain ⟨b, results, snap, b', results', snap', hrun, hsnap, hlater, hsnap', hpriority⟩ :=
    queue_priority .full [.add ⟨1, .buy, 100, 10⟩, .add ⟨2, .buy, 100, 3⟩] [.add ⟨3, .sell, 100, 4⟩]
      (by decide +kernel)
  rw [hrun, Machine.ok_bind] at hbids
  dsimp only at hbids
  rw [hsnap] at hbids
  cases Except.ok.inj hbids
  have hahead := hpriority .buy ⟨1, .buy, 100, 10⟩ ⟨2, .buy, 100, 3⟩ (by decide)
    (by simp [ScenarioCommand.Spares])
  exact ⟨b, results, b', results', snap', hrun, hlater, hsnap', hahead.1⟩

end LimitOrderBook
