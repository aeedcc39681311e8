import LimitOrderBook.Properties.Allocation
import LimitOrderBook.Properties.Invisible

/-!
# `Properties.Commuting` — independent commands commute

Two commands that are about two orders and make no trades can be issued in either order, unless they put both orders
into one queue, where the one that comes first is ahead.

A command that does not trade changes at most three things, all of them about the one order it names: the order leaves
its place, an order comes to rest, and the id is used up. `Change` has these three, and `outcome` says which they are,
and what the command returns, from what the book knows of the id (`exec_of_no_trades`).

Two such changes about two orders commute (`change_comm`), from the fact that two orders of different prices join a
side in either order (`Side.join_comm`). What a command does is not affected by a change about another order
(`outcome_change`), so the commands commute as well (`exec_comm`). For runs the condition is read off the snapshot
before the two commands (`ScenarioCommand.places`), and after them both runs are one.
-/

namespace LimitOrderBook

/-! ## Changes -/

/-- What a command without trades changes. -/
structure Change where
  leaves : Option OrderId := none
  rests : Option Order := none
  uses : Option OrderId := none

/-- The change is about the order `id`. -/
structure Change.About (ch : Change) (id : OrderId) : Prop where
  leaves : ∀ x, ch.leaves = some x → x = id
  rests : ∀ o, ch.rests = some o → o.id = id
  uses : ∀ x, ch.uses = some x → x = id

/-- An order joins a side if it is one of that side. -/
def Side.join (s : Side) : Option Order → List Order → List Order
  | none, own => own
  | some o, own => if o.side = s then own.orderedInsert s.ahead o else own

namespace PriorityBook

/-- The book after a change. -/
def change (p : PriorityBook) (ch : Change) : PriorityBook where
  side s := s.join ch.rests ((p.side s).filter fun o => ch.leaves ≠ some o.id)
  accepted := match ch.uses with
    | none => p.accepted
    | some id => insert id p.accepted

def addOutcome (p : PriorityBook) (order : Order) : Change × CommandResult :=
  if order.remainingQty = 0 then ({}, .error .zeroQuantity)
  else if order.id ∈ p.accepted then ({}, .error .duplicateOrderId)
  else ({ rests := some order, uses := some order.id }, .ok [])

def cancelOutcome (p : PriorityBook) (id : OrderId) : Change × CommandResult :=
  match p.find? id with
  | none => ({}, .error .unknownOrderId)
  | some _ => ({ leaves := some id }, .ok [])

def modifyOutcome (p : PriorityBook) (id : OrderId) (newPrice : Price) (newQuantity : Quantity) :
    Change × CommandResult :=
  if newQuantity = 0 then ({}, .error .zeroQuantity)
  else match p.find? id with
    | none => ({}, .error .unknownOrderId)
    | some old => ({ leaves := some id, rests := some (Order.new id old.side newPrice newQuantity) }, .ok [])

/-- What a command changes and returns, if it does not trade. -/
def outcome (p : PriorityBook) : ScenarioCommand → Change × CommandResult
  | .add order => p.addOutcome order
  | .cancel id => p.cancelOutcome id
  | .modify id newPrice newQuantity => p.modifyOutcome id newPrice newQuantity

end PriorityBook

section Joining

variable {s : Side} {own : List Order} {o x : Order}

@[simp] theorem Side.join_none : s.join none own = own := rfl

/-- On its own side the order is inserted. -/
theorem Side.join_own (h : o.side = s) : s.join (some o) own = own.orderedInsert s.ahead o := if_pos h

theorem Side.join_other (h : o.side ≠ s) : s.join (some o) own = own := if_neg h

/-- The order joins its side, and nothing else does. -/
theorem Side.mem_join {rests : Option Order} :
    x ∈ s.join rests own ↔ x ∈ own ∨ (rests = some x ∧ x.side = s) := by
  cases rests with
  | none => simp
  | some o =>
      by_cases hs : o.side = s
      · rw [join_own hs, List.mem_orderedInsert, or_comm, Option.some.injEq, eq_comm]
        exact or_congr_right ⟨fun h => ⟨h, h ▸ hs⟩, And.left⟩
      · rw [join_other hs, Option.some.injEq]
        refine (or_iff_left ?_).symm
        rintro ⟨rfl, hx⟩
        exact hs hx

/-- Other orders can be taken out before or after an order joins. -/
theorem Side.filter_join (hsorted : own.Pairwise fun a b => ¬s.ahead b a) {P : Order → Bool}
    {rests : Option Order} (hrests : ∀ o, rests = some o → P o = true) :
    (s.join rests own).filter P = s.join rests (own.filter P) := by
  cases rests with
  | none => rfl
  | some o =>
      by_cases hs : o.side = s
      · have hown : own.Pairwise fun a b => ¬s.better b.price a.price := hsorted
        have hinsert := Ladder.filter_orderedInsert P hown o
        rw [if_pos (hrests o rfl)] at hinsert
        rw [join_own hs, join_own hs]
        exact hinsert
      · rw [join_other hs, join_other hs]

/-- Two orders join in either order, unless they join one queue. -/
theorem Side.join_comm {r₁ r₂ : Option Order}
    (hne : ∀ o₁ o₂, r₁ = some o₁ → r₂ = some o₂ → o₁.side = o₂.side → o₁.price ≠ o₂.price) :
    s.join r₂ (s.join r₁ own) = s.join r₁ (s.join r₂ own) := by
  cases r₁ with
  | none => rfl
  | some o₁ =>
      cases r₂ with
      | none => rfl
      | some o₂ =>
          by_cases h₁ : o₁.side = s
          · by_cases h₂ : o₂.side = s
            · rw [join_own h₁, join_own h₂, join_own h₁, join_own h₂]
              exact Ladder.orderedInsert_comm (r := s.better) (hne o₁ o₂ rfl rfl (h₁.trans h₂.symm)) own
            · rw [join_other h₂, join_other h₂]
          · rw [join_other h₁, join_other h₁]

end Joining

namespace PriorityBook

variable {p : PriorityBook} {ch ch₁ ch₂ : Change} {a b : OrderId} {c c₁ c₂ : ScenarioCommand}

@[simp] theorem side_change (s : Side) :
    (p.change ch).side s = s.join ch.rests ((p.side s).filter fun o => ch.leaves ≠ some o.id) := rfl

/-- A change accepts the id that it uses up. -/
theorem mem_accepted_change : a ∈ (p.change ch).accepted ↔ a ∈ p.accepted ∨ ch.uses = some a := by
  unfold change
  cases ch.uses with
  | none => simp
  | some id => simp [eq_comm, or_comm]

/-- **Changes about two orders commute**, unless both orders come to rest in one queue. -/
theorem change_comm (hp : p.Valid) (h₁ : ch₁.About a) (h₂ : ch₂.About b) (hab : a ≠ b)
    (hne : ∀ o₁ o₂, ch₁.rests = some o₁ → ch₂.rests = some o₂ → o₁.side = o₂.side → o₁.price ≠ o₂.price) :
    (p.change ch₁).change ch₂ = (p.change ch₂).change ch₁ := by
  have hkeep : ∀ {ch ch' : Change} {a b : OrderId}, ch.About a → ch'.About b → a ≠ b → ∀ s,
      ((p.change ch).side s).filter (fun o => ch'.leaves ≠ some o.id)
        = s.join ch.rests (((p.side s).filter fun o => ch.leaves ≠ some o.id).filter
            fun o => ch'.leaves ≠ some o.id) := by
    intro ch ch' a b h h' hab s
    refine Side.filter_join ((hp.sorted s).filter _) ?_
    intro o ho
    refine decide_eq_true ?_
    intro hleaves
    exact hab ((h.rests o ho).symm.trans (h'.leaves _ hleaves))
  refine PriorityBook.ext (funext ?_) ?_
  · intro s
    rw [side_change, side_change (p := p.change ch₂), hkeep h₁ h₂ hab, hkeep h₂ h₁ hab.symm,
      List.filter_filter, List.filter_filter, Side.join_comm hne]
    simp only [Bool.and_comm]
  · ext id
    simp only [mem_accepted_change]
    rw [or_assoc, or_assoc, or_comm (a := ch₁.uses = _)]

/-! ## Commands without trades -/

theorem outcome_about (p : PriorityBook) (c : ScenarioCommand) : (p.outcome c).1.About c.orderId := by
  have hnothing : ∀ id, Change.About {} id := fun id => ⟨by simp, by simp, by simp⟩
  cases c with
  | add o =>
      show (p.addOutcome o).1.About o.id
      unfold addOutcome
      split_ifs
      · exact hnothing _
      · exact hnothing _
      · exact ⟨by simp, fun x h => (Option.some.inj h) ▸ rfl, fun x h => (Option.some.inj h).symm⟩
  | cancel id =>
      show (p.cancelOutcome id).1.About id
      unfold cancelOutcome
      cases p.find? id with
      | none => exact hnothing _
      | some old => exact ⟨fun x h => (Option.some.inj h).symm, by simp, by simp⟩
  | modify id price qty =>
      show (p.modifyOutcome id price qty).1.About id
      unfold modifyOutcome
      split_ifs
      · exact hnothing _
      cases p.find? id with
      | none => exact hnothing _
      | some old =>
          exact ⟨fun x h => (Option.some.inj h).symm, fun x h => (Option.some.inj h) ▸ rfl, by simp⟩

/-- The outcome depends on nothing but what the book knows of the id. -/
theorem outcome_congr {q : PriorityBook} (hfind : p.find? c.orderId = q.find? c.orderId)
    (haccepted : c.orderId ∈ p.accepted ↔ c.orderId ∈ q.accepted) : p.outcome c = q.outcome c := by
  cases c with
  | add o =>
      have haccepted : o.id ∈ p.accepted ↔ o.id ∈ q.accepted := haccepted
      show p.addOutcome o = q.addOutcome o
      unfold addOutcome
      simp only [haccepted]
  | cancel id =>
      have hfind : p.find? id = q.find? id := hfind
      show p.cancelOutcome id = q.cancelOutcome id
      unfold cancelOutcome
      rw [hfind]
  | modify id price qty =>
      have hfind : p.find? id = q.find? id := hfind
      show p.modifyOutcome id price qty = q.modifyOutcome id price qty
      unfold modifyOutcome
      rw [hfind]

/-- An order that meets no other comes to rest whole. -/
theorem submit_of_no_trades {o : Order} (h0 : o.remainingQty ≠ 0) (h : (p.submit o).2 = []) :
    p.submit o = (p.change ⟨none, some o, none⟩, []) := by
  obtain ⟨left, hfills, hown⟩ := p.submit_spec o
  rw [h] at hfills
  obtain ⟨hopposite, rfl⟩ := hfills.of_no_trades
  refine Prod.ext (ext_sides o.side ?_ ?_ rfl) h
  · rw [hown, restLeft, if_neg h0, side_change, Side.join_own rfl]
    simp
  · have hother : o.side ≠ o.side.opposite := by cases o.side <;> simp [Side.opposite]
    rw [hopposite, side_change, Side.join_other hother]
    simp

/-- **A command without trades** makes its change. -/
theorem exec_of_no_trades (h : ∀ trades, (p.exec c).2 = .ok trades → trades = []) :
    p.exec c = (p.change (p.outcome c).1, (p.outcome c).2) := by
  have hnothing : p.change {} = p := by
    refine PriorityBook.ext (funext ?_) rfl
    intro s
    simp
  cases c with
  | add o =>
      have h : ∀ trades, (p.addOrder o).2 = .ok trades → trades = [] := h
      show p.addOrder o = (p.change (p.addOutcome o).1, (p.addOutcome o).2)
      unfold addOrder at h ⊢
      unfold addOutcome
      by_cases h0 : o.remainingQty = 0
      · rw [if_pos h0, if_pos h0, hnothing]
      rw [if_neg h0] at h ⊢
      rw [if_neg h0]
      by_cases hid : o.id ∈ p.accepted
      · rw [if_pos hid, if_pos hid, hnothing]
      rw [if_neg hid] at h ⊢
      rw [if_neg hid]
      have hsubmit := submit_of_no_trades (p := p.accept o.id) h0 (h _ rfl)
      rw [hsubmit]
      rfl
  | cancel id =>
      show p.cancelOrder id = (p.change (p.cancelOutcome id).1, (p.cancelOutcome id).2)
      unfold cancelOrder cancelOutcome
      cases p.find? id with
      | none => rw [hnothing]
      | some old =>
          refine Prod.ext (PriorityBook.ext (funext ?_) rfl) rfl
          intro s
          simp [eq_comm]
  | modify id price qty =>
      have h : ∀ trades, (p.modifyOrder id price qty).2 = .ok trades → trades = [] := h
      show p.modifyOrder id price qty
        = (p.change (p.modifyOutcome id price qty).1, (p.modifyOutcome id price qty).2)
      unfold modifyOrder at h ⊢
      unfold modifyOutcome
      by_cases h0 : qty = 0
      · rw [if_pos h0, if_pos h0, hnothing]
      rw [if_neg h0] at h ⊢
      rw [if_neg h0]
      cases hfind : p.find? id with
      | none => rw [hnothing]
      | some old =>
          rw [hfind] at h
          have hsubmit := submit_of_no_trades (o := Order.new id old.side price qty) (p := p.without id) h0
            (h _ rfl)
          dsimp only
          rw [hsubmit]
          refine Prod.ext (PriorityBook.ext (funext ?_) rfl) rfl
          intro s
          simp [eq_comm]

/-! ## Two commands -/

/-- What the book knows of one id does not change with another order. -/
theorem find?_change (hp : p.Valid) (hq : (p.change ch).Valid) (h : ch.About a) (hba : b ≠ a) :
    (p.change ch).find? b = p.find? b := by
  apply Option.ext
  intro o
  rw [hq.find?_eq_some, hp.find?_eq_some, mem_orders, mem_orders]
  refine and_congr_left ?_
  rintro rfl
  refine exists_congr fun s => ?_
  rw [side_change, Side.mem_join, List.mem_filter, decide_eq_true_eq]
  constructor
  · rintro (⟨ho, -⟩ | ⟨hrests, -⟩)
    · exact ho
    · exact absurd (h.rests o hrests) hba
  · intro ho
    exact Or.inl ⟨ho, fun hleaves => hba (h.leaves _ hleaves)⟩

/-- A command does the same after a change about another order. -/
theorem outcome_change (hp : p.Valid) (hq : (p.change ch).Valid) (h : ch.About a) (hc : c.orderId ≠ a) :
    (p.change ch).outcome c = p.outcome c := by
  refine outcome_congr (find?_change hp hq h hc) ?_
  rw [mem_accepted_change, or_iff_left]
  exact fun huses => hc (h.uses _ huses)

/-- **Independent commands commute.** -/
theorem exec_comm (hp : p.Valid) (hids : c₁.orderId ≠ c₂.orderId)
    (h₁ : ∀ trades, (p.exec c₁).2 = .ok trades → trades = [])
    (h₁₂ : ∀ trades, ((p.exec c₁).1.exec c₂).2 = .ok trades → trades = [])
    (h₂ : ∀ trades, (p.exec c₂).2 = .ok trades → trades = [])
    (h₂₁ : ∀ trades, ((p.exec c₂).1.exec c₁).2 = .ok trades → trades = [])
    (hplaces : ∀ o₁ o₂, (p.outcome c₁).1.rests = some o₁ → (p.outcome c₂).1.rests = some o₂ →
      o₁.side = o₂.side → o₁.price ≠ o₂.price) :
    (p.exec c₁).1.exec c₂ = (((p.exec c₂).1.exec c₁).1, (p.exec c₂).2)
      ∧ ((p.exec c₂).1.exec c₁).2 = (p.exec c₁).2 := by
  have habout₁ := p.outcome_about c₁
  have habout₂ := p.outcome_about c₂
  have hvalid₁ := hp.exec c₁
  have hvalid₂ := hp.exec c₂
  have hexec₁ := exec_of_no_trades h₁
  have hexec₂ := exec_of_no_trades h₂
  rw [hexec₁] at h₁₂ hvalid₁
  rw [hexec₂] at h₂₁ hvalid₂
  rw [hexec₁, hexec₂]
  dsimp only at *
  rw [exec_of_no_trades h₁₂, exec_of_no_trades h₂₁, outcome_change hp hvalid₁ habout₁ hids.symm,
    outcome_change hp hvalid₂ habout₂ hids, change_comm hp habout₁ habout₂ hids hplaces]
  exact ⟨rfl, rfl⟩

end PriorityBook

/-! ## Runs -/

/-- The side and the price at which a call places an order, from the snapshot before the call. -/
def ScenarioCommand.places (snap : BookSnapshot) (c : ScenarioCommand) : CommandResult → Option (Side × Price)
  | .ok _ => (submission snap c).map fun s => (s.2.side, s.2.price)
  | .error _ => none

/-- The place of an order that comes to rest can be read off the snapshot. -/
theorem Depicts.places {snap : BookSnapshot} {p : PriorityBook} (h : Depicts snap p) {c : ScenarioCommand}
    {o : Order} (hrests : (p.outcome c).1.rests = some o) :
    c.places snap (p.outcome c).2 = some (o.side, o.price) := by
  cases c with
  | add order =>
      have hrests : (p.addOutcome order).1.rests = some o := hrests
      show (ScenarioCommand.add order).places snap (p.addOutcome order).2 = _
      unfold PriorityBook.addOutcome at *
      split_ifs at *
      cases hrests
      rfl
  | cancel id =>
      have hrests : (p.cancelOutcome id).1.rests = some o := hrests
      unfold PriorityBook.cancelOutcome at hrests
      cases hfind : p.find? id <;> rw [hfind] at hrests <;> cases hrests
  | modify id price qty =>
      have hrests : (p.modifyOutcome id price qty).1.rests = some o := hrests
      show (ScenarioCommand.modify id price qty).places snap (p.modifyOutcome id price qty).2 = _
      unfold PriorityBook.modifyOutcome at *
      split_ifs at *
      cases hfind : p.find? id with
      | none =>
          rw [hfind] at hrests
          cases hrests
      | some old =>
          rw [hfind] at hrests
          cases hrests
          show (submission snap (.modify id price qty)).map (fun s => (s.2.side, s.2.price)) = _
          rw [h.submission_modify, hfind]
          rfl

theorem returnedTrades_eq_nil {results : List CommandResult} :
    returnedTrades results = [] ↔ ∀ res ∈ results, ∀ trades, res = .ok trades → trades = [] := by
  unfold returnedTrades
  rw [List.flatMap_eq_nil_iff]
  refine forall₂_congr fun res _ => ?_
  cases res with
  | error e => simp
  | ok trades => simp

/-- **Independent commands commute.** After every run, let two commands name different ids, trade in
    neither order of execution and not both place an order on one side at one price. Then each command
    returns the same in both orders, and after every further run both books have returned the same
    results and have the same snapshot. -/
theorem independent_commands_commute (mode : EventMode) (cmds later : List ScenarioCommand)
    (c₁ c₂ : ScenarioCommand) (hids : c₁.orderId ≠ c₂.orderId)
    (hroom : OrderBook.NeverOverfull mode (cmds ++ c₁ :: c₂ :: later))
    (hroom' : OrderBook.NeverOverfull mode (cmds ++ [c₂, c₁])) :
    ∃ b results snap b₁₂ r₁ r₁₂ b₂₁ r₂ r₂₁, OrderBook.run mode cmds = .ok (b, results)
      ∧ b.snapshot = .ok snap
      ∧ OrderBook.run mode (cmds ++ [c₁, c₂]) = .ok (b₁₂, results ++ [r₁, r₁₂])
      ∧ OrderBook.run mode (cmds ++ [c₂, c₁]) = .ok (b₂₁, results ++ [r₂, r₂₁])
      ∧ (returnedTrades [r₁, r₁₂] = [] → returnedTrades [r₂, r₂₁] = [] →
          (∀ level, c₁.places snap r₁ = some level → c₂.places snap r₂ ≠ some level) →
            r₂₁ = r₁ ∧ r₁₂ = r₂
            ∧ ∀ done, done <+: later → ∃ d d' laterResults laterSnap,
                OrderBook.run mode (cmds ++ c₁ :: c₂ :: done) = .ok (d, results ++ r₁ :: r₂ :: laterResults)
                ∧ d.snapshot = .ok laterSnap
                ∧ OrderBook.run mode (cmds ++ c₂ :: c₁ :: done)
                    = .ok (d', results ++ r₂ :: r₁ :: laterResults)
                ∧ d'.snapshot = .ok laterSnap) := by
  have hboth : OrderBook.NeverOverfull mode (cmds ++ [c₁, c₂]) := hroom.of_prefix ⟨later, by simp⟩
  obtain ⟨b, snap, hrun, hsnap, hdepicts⟩ := run_depicts (hroom.of_prefix (List.prefix_append _ _))
  obtain ⟨b₁₂, hrun₁₂, -⟩ := run_represents hboth
  obtain ⟨b₂₁, hrun₂₁, -⟩ := run_represents hroom'
  have hvalid := priorityRun_valid cmds
  rw [priorityRun_append, Machine.run_cons, Machine.run_cons, Machine.run_nil] at hrun₁₂ hrun₂₁
  refine ⟨b, _, snap, b₁₂, _, _, b₂₁, _, _, hrun, hsnap, hrun₁₂, hrun₂₁, ?_⟩
  intro hquiet₁₂ hquiet₂₁ hplaces
  rw [returnedTrades_eq_nil, List.forall_mem_cons, List.forall_mem_singleton] at hquiet₁₂ hquiet₂₁
  obtain ⟨h₁, h₁₂⟩ := hquiet₁₂
  obtain ⟨h₂, h₂₁⟩ := hquiet₂₁
  obtain ⟨hcomm, hres⟩ : (((priorityRun cmds).1.exec c₁).1.exec c₂)
        = ((((priorityRun cmds).1.exec c₂).1.exec c₁).1, ((priorityRun cmds).1.exec c₂).2)
      ∧ (((priorityRun cmds).1.exec c₂).1.exec c₁).2 = ((priorityRun cmds).1.exec c₁).2 := by
    refine PriorityBook.exec_comm hvalid hids h₁ h₁₂ h₂ h₂₁ ?_
    intro o₁ o₂ ho₁ ho₂ hside hprice
    rw [PriorityBook.exec_of_no_trades h₁, PriorityBook.exec_of_no_trades h₂] at hplaces
    have hsame := hdepicts.places ho₂
    rw [← hside, ← hprice] at hsame
    exact hplaces _ (hdepicts.places ho₁) hsame
  have hres' : (((priorityRun cmds).1.exec c₁).1.exec c₂).2 = ((priorityRun cmds).1.exec c₂).2 := by
    rw [hcomm]
  refine ⟨hres, hres', ?_⟩
  intro done hdone
  have hlater : Machine.run PriorityBook.exec (priorityRun cmds).1 (c₂ :: c₁ :: done)
      = ((Machine.run PriorityBook.exec (((priorityRun cmds).1.exec c₁).1.exec c₂).1 done).1,
        ((priorityRun cmds).1.exec c₂).2 :: ((priorityRun cmds).1.exec c₁).2
          :: (Machine.run PriorityBook.exec (((priorityRun cmds).1.exec c₁).1.exec c₂).1 done).2) := by
    rw [Machine.run_cons, Machine.run_cons, hres, hcomm]
  have hroom₁₂ : OrderBook.NeverOverfull mode (cmds ++ c₁ :: c₂ :: done) :=
    hroom.of_prefix ((List.prefix_append_right_inj cmds).mpr
      ((List.prefix_cons_inj _).mpr ((List.prefix_cons_inj _).mpr hdone)))
  have hroom₂₁ : OrderBook.NeverOverfull mode (cmds ++ c₂ :: c₁ :: done) := by
    rw [neverOverfull_iff_always] at hroom₁₂ hroom' ⊢
    rw [Machine.always_append] at hroom₁₂ hroom' ⊢
    obtain ⟨hstart, h₂, h₂₁, -⟩ := hroom'
    obtain ⟨-, -, -, hafter⟩ := hroom₁₂
    rw [hcomm] at hafter
    exact ⟨hstart, h₂, h₂₁, hafter⟩
  obtain ⟨d, laterSnap, hrun, hlaterSnap, hdepicts⟩ := run_depicts hroom₁₂
  obtain ⟨d', laterSnap', hrun', hlaterSnap', hdepicts'⟩ := run_depicts hroom₂₁
  rw [priorityRun_append, Machine.run_cons, Machine.run_cons, hres'] at hrun hdepicts
  rw [priorityRun_append, hlater] at hrun' hdepicts'
  have hsame : laterSnap' = laterSnap := hdepicts'.eq hdepicts
  rw [hsame] at hlaterSnap'
  exact ⟨d, d', _, laterSnap, hrun, hlaterSnap, hrun', hlaterSnap'⟩

/-- Order 4 of the session moves to a better ask and order 6 joins the bids: a sweep that follows cannot
    tell which came first. -/
theorem independent_commands_commute_session :
    ∃ results d d' laterResults laterSnap,
      OrderBook.run .full (session.take 5 ++ [.modify 4 106 3, .add ⟨6, .buy, 101, 2⟩, .add ⟨7, .sell, 100, 20⟩])
          = .ok (d, results ++ .ok [] :: .ok [] :: laterResults)
        ∧ d.snapshot = .ok laterSnap
        ∧ OrderBook.run .full
            (session.take 5 ++ [.add ⟨6, .buy, 101, 2⟩, .modify 4 106 3, .add ⟨7, .sell, 100, 20⟩])
          = .ok (d', results ++ .ok [] :: .ok [] :: laterResults)
        ∧ d'.snapshot = .ok laterSnap := by
  obtain ⟨b, results, snap, b₁₂, r₁, r₁₂, b₂₁, r₂, r₂₁, hrun, hsnap, hrun₁₂, hrun₂₁, hcommute⟩ :=
    independent_commands_commute .full (session.take 5) [.add ⟨7, .sell, 100, 20⟩]
      (.modify 4 106 3) (.add ⟨6, .buy, 101, 2⟩) (by decide) (by decide +kernel) (by decide +kernel)
  have hquiet₁₂ : (OrderBook.run .full (session.take 5 ++ [.modify 4 106 3, .add ⟨6, .buy, 101, 2⟩])).map
      (fun r => r.2.reverse.take 2) = .ok [.ok [], .ok []] := by decide +kernel
  have hquiet₂₁ : (OrderBook.run .full (session.take 5 ++ [.add ⟨6, .buy, 101, 2⟩, .modify 4 106 3])).map
      (fun r => r.2.reverse.take 2) = .ok [.ok [], .ok []] := by decide +kernel
  rw [hrun₁₂] at hquiet₁₂
  rw [hrun₂₁] at hquiet₂₁
  have hplaces : (do
      let (b, _) ← OrderBook.run .full (session.take 5)
      let snap ← b.snapshot
      pure ((ScenarioCommand.modify 4 106 3).places snap (.ok []),
        (ScenarioCommand.add ⟨6, .buy, 101, 2⟩).places snap (.ok [])))
        = .ok (some (.sell, 106), some (.buy, 101)) := by decide +kernel
  rw [hrun, Machine.ok_bind] at hplaces
  dsimp only at hplaces
  rw [hsnap, Machine.ok_bind] at hplaces
  obtain ⟨hplaces₁, hplaces₂⟩ := Prod.mk.inj (Except.ok.inj hplaces)
  obtain ⟨rfl, rfl⟩ : r₁₂ = .ok [] ∧ r₁ = .ok [] := by simpa using Except.ok.inj hquiet₁₂
  obtain ⟨rfl, rfl⟩ : r₂₁ = .ok [] ∧ r₂ = .ok [] := by simpa using Except.ok.inj hquiet₂₁
  obtain ⟨-, -, hlater⟩ := hcommute rfl rfl (by simp [hplaces₁, hplaces₂])
  obtain ⟨d, d', laterResults, laterSnap, h⟩ := hlater _ (List.prefix_refl _)
  exact ⟨results, d, d', laterResults, laterSnap, h⟩

end LimitOrderBook
