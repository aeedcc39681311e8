import Mathlib.Algebra.BigOperators.Ring.Finset
import LimitOrderBook.Properties.Lifecycle

/-!
# `Properties.Ledger` — no unit of an order is lost or made

No unit of an order is lost or made. An `Account` of an order is kept from the calls and their results alone: what was
placed, what it traded on either side of a trade, and what was withdrawn by a cancel or a modify. After every run what
rests of the order is what is left on its account.

`restingOf` adds up what rests under an id, and `tradedBy` what the trades of a list moved for it. Matching moves the
difference: an order of the side has less by what it traded as a maker (`Fills.restingOf`), and the incoming order by
what it took (`Fills.taken`). So a submission keeps the sum (`restingOf_submit_self`, `restingOf_submit_of_ne`), a
command does (`Balances.step`), and a run does (`Balances.run`).

The last part counts each trade for its two sides: over all accepted orders, what was traded adds up to twice the
quantities of the trades (`sum_tradedBy`).
-/

namespace LimitOrderBook

/-! ## Accounts -/

/-- What an order traded, as maker or as taker. -/
def tradedBy (id : OrderId) (trades : List Trade) : Nat :=
  ((trades.filter fun t => t.makerOrderId = id ∨ t.takerOrderId = id).map fun t => t.quantity.toNat).sum

structure Account where
  placed : Nat := 0
  traded : Nat := 0
  withdrawn : Nat := 0
deriving DecidableEq, Repr

namespace Account

/-- What is neither traded nor withdrawn. -/
def left (a : Account) : Nat := a.placed - a.traded - a.withdrawn

/-- Everything that is left is withdrawn. -/
def withdraw (a : Account) : Account := { a with withdrawn := a.withdrawn + a.left }

def place (a : Account) (quantity : Quantity) : Account := { a with placed := a.placed + quantity.toNat }

/-- What a call that succeeds asks of the account, before it trades. -/
def ask (id : OrderId) (a : Account) : ScenarioCommand → Account
  | .add order => if order.id = id then a.place order.remainingQty else a
  | .cancel orderId => if orderId = id then a.withdraw else a
  | .modify orderId _ newQuantity => if orderId = id then a.withdraw.place newQuantity else a

/-- One call, with its result. -/
def enter (id : OrderId) (a : Account) : ScenarioCommand × CommandResult → Account
  | (_, .error _) => a
  | (c, .ok trades) => { a.ask id c with traded := (a.ask id c).traded + tradedBy id trades }

/-- The account of an order after a run. -/
def ofRun (id : OrderId) (cmds : List ScenarioCommand) (results : List CommandResult) : Account :=
  (cmds.zip results).foldl (enter id) {}

end Account

/-- How much of the order with an id is among these orders. -/
def restingOf (id : OrderId) (orders : List Order) : Nat :=
  ((orders.filter fun o => o.id = id).map fun o => o.remainingQty.toNat).sum

variable {id : OrderId} {o taker : Order} {xs ys : List Order} {left left' : Quantity} {trades : List Trade}

@[simp] theorem restingOf_nil (id : OrderId) : restingOf id [] = 0 := rfl

theorem restingOf_cons (id : OrderId) (o : Order) (xs : List Order) :
    restingOf id (o :: xs) = (if o.id = id then o.remainingQty.toNat else 0) + restingOf id xs := by
  unfold restingOf
  by_cases hid : o.id = id
  · rw [List.filter_cons_of_pos (by simpa using hid), if_pos hid, List.map_cons, List.sum_cons]
  · rw [List.filter_cons_of_neg (by simpa using hid), if_neg hid, Nat.zero_add]

/-- What rests in two lists is added. -/
theorem restingOf_append (id : OrderId) (xs ys : List Order) :
    restingOf id (xs ++ ys) = restingOf id xs + restingOf id ys := by
  unfold restingOf
  rw [List.filter_append, List.map_append, List.sum_append]

/-- The order of the list does not matter. -/
theorem restingOf_perm (h : xs.Perm ys) : restingOf id xs = restingOf id ys :=
  ((h.filter _).map _).sum_eq

/-- An order that is not there has nothing there. -/
theorem restingOf_eq_zero (h : ∀ x ∈ xs, x.id ≠ id) : restingOf id xs = 0 := by
  unfold restingOf
  rw [List.filter_eq_nil_iff.mpr fun x hx => by simpa using h x hx]
  rfl

/-! ## Matching -/

/-- What a resting order loses, it trades. -/
theorem Fills.restingOf (h : Fills taker xs left ys left' trades) (id : OrderId) :
    restingOf id ys + tradedAsMaker id trades = restingOf id xs := by
  induction h with
  | empty left => rfl
  | stop hstop => rfl
  | @full maker rest rest' left left' trades h0 hcross hle hrest ih =>
      rw [restingOf_cons, ← ih]
      by_cases hid : maker.id = id
      · subst hid
        rw [if_pos rfl]
        have hself := tradedAsMaker_cons_self (fullTrade taker maker) trades
        have hqty : (fullTrade taker maker).quantity = maker.remainingQty := rfl
        rw [hqty] at hself
        have hmaker : (fullTrade taker maker).makerOrderId = maker.id := rfl
        rw [hmaker] at hself
        omega
      · have hne : (fullTrade taker maker).makerOrderId ≠ id := hid
        rw [if_neg hid, tradedAsMaker_cons_of_ne hne, Nat.zero_add]
  | @part maker rest left h0 hcross hle =>
      have hlt : left ≤ maker.remainingQty := UInt64.le_of_lt (UInt64.not_le.mp hle)
      have hnat := UInt64.le_iff_toNat_le.mp hlt
      rw [restingOf_cons, restingOf_cons]
      dsimp only
      rw [UInt64.toNat_sub_of_le _ _ hlt]
      by_cases hid : maker.id = id
      · subst hid
        have hself := tradedAsMaker_cons_self ⟨maker.id, taker.id, maker.price, left⟩ []
        rw [if_pos rfl, if_pos rfl]
        have hnil : tradedAsMaker maker.id [] = 0 := rfl
        dsimp only at hself
        omega
      · have hne : (⟨maker.id, taker.id, maker.price, left⟩ : Trade).makerOrderId ≠ id := hid
        rw [if_neg hid, if_neg hid, tradedAsMaker_cons_of_ne hne]
        rfl

/-- What an incoming order loses, it trades. -/
theorem Fills.taken (h : Fills taker xs left ys left' trades) :
    left'.toNat + (trades.map fun t => t.quantity.toNat).sum = left.toNat := by
  induction h with
  | empty left => rfl
  | stop hstop => rfl
  | @full maker rest rest' left left' trades h0 hcross hle hrest ih =>
      have hnat := UInt64.le_iff_toNat_le.mp hle
      rw [UInt64.toNat_sub_of_le _ _ hle] at ih
      rw [List.map_cons, List.sum_cons]
      show left'.toNat + (maker.remainingQty.toNat + _) = _
      omega
  | part h0 hcross hle =>
      exact Nat.zero_add _

/-- What comes to rest is added under its own id. -/
theorem restingOf_restLeft (id : OrderId) (o : Order) (left : Quantity) (own : List Order) :
    restingOf id (restLeft o left own) = restingOf id own + if o.id = id then left.toNat else 0 := by
  by_cases h0 : left = 0
  · unfold restLeft
    rw [if_pos h0, h0]
    split <;> rfl
  · rw [restingOf_perm (PriorityBook.perm_restLeft h0), restingOf_cons, Nat.add_comm]

theorem tradedBy_append (id : OrderId) (ts us : List Trade) :
    tradedBy id (ts ++ us) = tradedBy id ts + tradedBy id us := by
  unfold tradedBy
  rw [List.filter_append, List.map_append, List.sum_append]

/-- The taker of all trades traded all of them. -/
theorem tradedBy_of_taker (h : ∀ t ∈ trades, t.takerOrderId = id) :
    tradedBy id trades = (trades.map fun t => t.quantity.toNat).sum := by
  unfold tradedBy
  rw [List.filter_eq_self.mpr fun t ht => by simpa using Or.inr (h t ht)]

/-- Who takes nothing trades as a maker. -/
theorem tradedBy_of_not_taker (h : ∀ t ∈ trades, t.takerOrderId ≠ id) :
    tradedBy id trades = tradedAsMaker id trades := by
  unfold tradedBy tradedAsMaker
  refine congrArg (fun ts : List Trade => (ts.map fun t => t.quantity.toNat).sum) (List.filter_congr ?_)
  intro t ht
  simp [h t ht]

/-! ## The book -/

namespace PriorityBook

variable {p p' : PriorityBook} {c : ScenarioCommand} {res : CommandResult}

/-- What submitting an order does to the units of any order. -/
theorem restingOf_submit (p : PriorityBook) (o : Order) (id : OrderId) :
    ∃ left : Quantity, left.toNat + ((p.submit o).2.map fun t => t.quantity.toNat).sum = o.remainingQty.toNat
      ∧ restingOf id (p.submit o).1.orders + tradedAsMaker id (p.submit o).2
        = restingOf id p.orders + if o.id = id then left.toNat else 0 := by
  obtain ⟨left, hfills, hown⟩ := p.submit_spec o
  refine ⟨left, hfills.taken, ?_⟩
  have hopposite := hfills.restingOf id
  rw [← restingOf_perm (orders_perm _ o.side), ← restingOf_perm (orders_perm p o.side), restingOf_append,
    restingOf_append, hown, restingOf_restLeft]
  omega

/-- A new order ends up traded or at rest. -/
theorem restingOf_submit_self (hnew : ∀ x ∈ p.orders, x.id ≠ o.id) :
    restingOf o.id (p.submit o).1.orders + tradedBy o.id (p.submit o).2 = o.remainingQty.toNat := by
  obtain ⟨left, htaken, hresting⟩ := p.restingOf_submit o o.id
  have hmakers : tradedAsMaker o.id (p.submit o).2 = 0 := by
    apply tradedAsMaker_eq_zero
    intro t ht hid
    obtain ⟨x, hx, hxid⟩ := List.mem_map.mp (submit_trade ht).2
    exact hnew x (mem_orders.mpr ⟨_, hx⟩) (hxid.trans hid)
  rw [tradedBy_of_taker fun t ht => (submit_trade ht).1]
  rw [hmakers, restingOf_eq_zero hnew, if_pos rfl] at hresting
  omega

/-- Another order loses what it trades. -/
theorem restingOf_submit_of_ne (hne : o.id ≠ id) :
    restingOf id (p.submit o).1.orders + tradedBy id (p.submit o).2 = restingOf id p.orders := by
  obtain ⟨left, -, hresting⟩ := p.restingOf_submit o id
  have htaker : ∀ t ∈ (p.submit o).2, t.takerOrderId ≠ id := by
    intro t ht
    rw [(submit_trade ht).1]
    exact hne
  rw [tradedBy_of_not_taker htaker]
  rw [if_neg hne] at hresting
  exact hresting

/-- Nothing rests under an id that was removed. -/
theorem restingOf_without_self (p : PriorityBook) (id : OrderId) : restingOf id (p.without id).orders = 0 :=
  restingOf_eq_zero fun _ hx => (mem_orders_without.mp hx).2

/-- Removing an id leaves the others. -/
theorem restingOf_without_of_ne {id' : OrderId} (hne : id' ≠ id) (p : PriorityBook) :
    restingOf id (p.without id').orders = restingOf id p.orders := by
  unfold orders restingOf
  rw [side_without, side_without, ← List.filter_append, List.filter_filter]
  refine congrArg (fun xs : List Order => (xs.map fun o => o.remainingQty.toNat).sum) (List.filter_congr ?_)
  intro x hx
  by_cases hid : x.id = id
  · simp [hid, hne.symm]
  · simp [hid]

end PriorityBook

/-! ## The accounts balance -/

namespace Account

variable {a : Account} {resting : Nat}

/-- What is left on the account is what rests. -/
def Balances (a : Account) (resting : Nat) : Prop := a.traded + a.withdrawn + resting = a.placed

/-- An account from which all is withdrawn balances with nothing. -/
theorem Balances.withdraw (h : a.Balances resting) : a.withdraw.Balances 0 := by
  unfold Balances at h ⊢
  show a.traded + (a.withdrawn + (a.placed - a.traded - a.withdrawn)) + 0 = a.placed
  omega

/-- What is placed rests, at first. -/
theorem Balances.place (h : a.Balances resting) (quantity : Quantity) :
    (a.place quantity).Balances (resting + quantity.toNat) := by
  unfold Balances at h ⊢
  show a.traded + a.withdrawn + (resting + quantity.toNat) = a.placed + quantity.toNat
  omega

theorem Balances.trade {traded : Nat} (h : a.Balances (resting + traded)) :
    { a with traded := a.traded + traded }.Balances resting := by
  unfold Balances at h ⊢
  show a.traded + traded + a.withdrawn + resting = a.placed
  omega

variable {p p' : PriorityBook} {c : ScenarioCommand} {res : CommandResult}

/-- **Every call keeps the account balanced.** -/
theorem Balances.step (h : a.Balances (restingOf id p.orders)) (hp : p.Valid) (hstep : p.Step c p' res) :
    (a.enter id (c, res)).Balances (restingOf id p'.orders) := by
  cases hstep with
  | rejected _ => exact h
  | @added o h0 hnew =>
      apply Balances.trade
      show (if o.id = id then a.place o.remainingQty else a).Balances _
      have hfresh : ∀ x ∈ (p.accept o.id).orders, x.id ≠ o.id := hp.fresh hnew
      by_cases hid : o.id = id
      · subst hid
        have hzero : restingOf o.id p.orders = 0 := restingOf_eq_zero hfresh
        have hplaced := h.place o.remainingQty
        rw [if_pos rfl, PriorityBook.restingOf_submit_self hfresh]
        rw [hzero, Nat.zero_add] at hplaced
        exact hplaced
      · rw [if_neg hid, PriorityBook.restingOf_submit_of_ne hid]
        exact h
  | @cancelled id' old hold =>
      apply Balances.trade
      show (if id' = id then a.withdraw else a).Balances _
      by_cases hid : id' = id
      · subst hid
        rw [if_pos rfl, PriorityBook.restingOf_without_self]
        exact h.withdraw
      · rw [if_neg hid, PriorityBook.restingOf_without_of_ne hid]
        exact h
  | @modified id' old price qty h0 hold =>
      apply Balances.trade
      show (if id' = id then a.withdraw.place qty else a).Balances _
      by_cases hid : id' = id
      · subst hid
        have hfresh : ∀ x ∈ (p.without id').orders, x.id ≠ (Order.new id' old.side price qty).id :=
          fun x hx => (PriorityBook.mem_orders_without.mp hx).2
        have hplaced := h.withdraw.place qty
        rw [Nat.zero_add] at hplaced
        have hself := PriorityBook.restingOf_submit_self hfresh
        rw [if_pos rfl]
        exact hself.symm ▸ hplaced
      · have hother : (Order.new id' old.side price qty).id ≠ id := hid
        rw [if_neg hid, PriorityBook.restingOf_submit_of_ne hother, PriorityBook.restingOf_without_of_ne hid]
        exact h

/-- **Every run keeps the account balanced.** -/
theorem Balances.run (h : a.Balances (restingOf id p.orders)) (hp : p.Valid) (cmds : List ScenarioCommand) :
    ((cmds.zip (Machine.run PriorityBook.exec p cmds).2).foldl (enter id) a).Balances
      (restingOf id (Machine.run PriorityBook.exec p cmds).1.orders) := by
  induction cmds generalizing a p with
  | nil => exact h
  | cons c cmds ih => exact ih (h.step hp (p.exec_step c)) (hp.exec c)

end Account

/-! ## Both sides of every trade -/

/-- Accounts trade what the calls return. -/
theorem traded_ofRun (id : OrderId) {cmds : List ScenarioCommand} {results : List CommandResult}
    (hlength : results.length = cmds.length) :
    (Account.ofRun id cmds results).traded = tradedBy id (returnedTrades results) := by
  have hask : ∀ (a : Account) (c : ScenarioCommand), (a.ask id c).traded = a.traded := by
    intro a c
    unfold Account.ask
    cases c <;> dsimp only <;> split <;> rfl
  have hfold : ∀ a : Account, ((cmds.zip results).foldl (Account.enter id) a).traded
      = a.traded + tradedBy id (returnedTrades results) := by
    induction cmds generalizing results with
    | nil =>
        obtain rfl := List.length_eq_zero_iff.mp hlength
        exact fun a => (Nat.add_zero _).symm
    | cons c cmds ih =>
        obtain ⟨res, results, rfl⟩ := List.exists_cons_of_length_eq_add_one hlength
        intro a
        rw [List.zip_cons_cons, List.foldl_cons, ih (Nat.succ.inj hlength), returnedTrades_cons]
        cases res with
        | error e => rfl
        | ok trades =>
            show (a.ask id c).traded + tradedBy id trades + _ = _
            rw [hask, returnedTrades_ok, tradedBy_append, Nat.add_assoc]
  rw [Account.ofRun, hfold]
  exact Nat.zero_add _

/-- A trade has two sides: over all orders, twice the quantity of the trades is traded. -/
theorem sum_tradedBy {ids : Finset OrderId} (h : ∀ t ∈ trades, t.makerOrderId ∈ ids ∧ t.takerOrderId ∈ ids
    ∧ t.makerOrderId ≠ t.takerOrderId) :
    ∑ id ∈ ids, tradedBy id trades = 2 * (trades.map fun t => t.quantity.toNat).sum := by
  induction trades with
  | nil => exact Finset.sum_const_zero
  | cons t trades ih =>
      obtain ⟨⟨hmaker, htaker, hne⟩, htrades⟩ := List.forall_mem_cons.mp h
      have hone : ∀ id, tradedBy id (t :: trades)
          = ((if t.makerOrderId = id then t.quantity.toNat else 0)
            + if t.takerOrderId = id then t.quantity.toNat else 0) + tradedBy id trades := by
        intro id
        rw [← List.singleton_append, tradedBy_append]
        congr 1
        unfold tradedBy
        by_cases hm : t.makerOrderId = id
        · have ht : t.takerOrderId ≠ id := fun ht => hne (hm.trans ht.symm)
          simp [hm, ht]
        · by_cases ht : t.takerOrderId = id
          · simp [hm, ht]
          · simp [hm, ht]
      rw [Finset.sum_congr rfl fun id _ => hone id, Finset.sum_add_distrib, Finset.sum_add_distrib, ih htrades,
        Finset.sum_ite_eq, Finset.sum_ite_eq, if_pos hmaker, if_pos htaker, List.map_cons, List.sum_cons]
      omega

namespace PriorityBook

variable {p p' : PriorityBook} {c : ScenarioCommand}

/-- Both orders of a trade were accepted, and they are two. -/
theorem Step.traders (hp : p.Valid) (hstep : p.Step c p' (.ok trades)) : ∀ t ∈ trades,
    t.makerOrderId ∈ p'.accepted ∧ t.takerOrderId ∈ p'.accepted ∧ t.makerOrderId ≠ t.takerOrderId := by
  intro t ht
  obtain ⟨htaker, hne, -⟩ := (hstep.trades hp).2 t ht
  have hmaker : t.makerOrderId ∈ p.accepted := by
    obtain ⟨x, hx, hid⟩ := List.mem_map.mp (hstep.maker_mem hp ht)
    exact hid ▸ hp.known x hx
  refine ⟨hstep.mem_accepted.mpr (Or.inl hmaker), ?_, htaker ▸ hne⟩
  rw [htaker]
  cases hstep with
  | added h0 hnew => exact Finset.mem_insert_self _ _
  | cancelled hold => cases ht
  | modified h0 hold =>
      obtain ⟨hid, hmem⟩ := of_find? hold
      exact hid ▸ hp.known _ hmem

/-- Both sides of every trade are accepted orders, and not the same. -/
theorem traders_run (hp : p.Valid) (cmds : List ScenarioCommand) :
    ∀ t ∈ returnedTrades (Machine.run exec p cmds).2, t.makerOrderId ∈ (Machine.run exec p cmds).1.accepted
      ∧ t.takerOrderId ∈ (Machine.run exec p cmds).1.accepted ∧ t.makerOrderId ≠ t.takerOrderId := by
  induction cmds generalizing p with
  | nil => simp
  | cons c cmds ih =>
      intro t ht
      rw [Machine.run_cons, returnedTrades_cons] at ht
      rcases List.mem_append.mp ht with ht | ht
      · have hstep := p.exec_step c
        have hkept : ∀ {id}, id ∈ (p.exec c).1.accepted → id ∈ (Machine.run exec (p.exec c).1 cmds).1.accepted :=
          fun hid => (mem_accepted_run cmds).mpr (Or.inl hid)
        cases hres : (p.exec c).2 with
        | error e =>
            rw [hres] at ht
            cases ht
        | ok trades =>
            rw [hres, returnedTrades_ok] at ht
            rw [hres] at hstep
            obtain ⟨hmaker, htaker, hne⟩ := hstep.traders hp t ht
            exact ⟨hkept hmaker, hkept htaker, hne⟩
      · exact ih (hp.exec c) t ht

end PriorityBook

/-- **No unit is lost or made.** After every run, what was placed under an id is what its order traded, what was
    withdrawn and what the snapshot shows of it; the account is kept from the calls and their results alone. Over
    all accepted orders, every unit that was traded was traded by two. -/
theorem every_unit_is_accounted_for (mode : EventMode) (cmds : List ScenarioCommand)
    (hroom : OrderBook.NeverOverfull mode cmds) :
    ∃ b results snap, OrderBook.run mode cmds = .ok (b, results) ∧ b.snapshot = .ok snap
      ∧ (∀ id, (Account.ofRun id cmds results).traded + (Account.ofRun id cmds results).withdrawn
          + restingOf id (snap.orders .buy ++ snap.orders .sell) = (Account.ofRun id cmds results).placed)
      ∧ ∑ id ∈ (acceptedIds cmds results).toFinset, (Account.ofRun id cmds results).traded
          = 2 * ((returnedTrades results).map fun t => t.quantity.toNat).sum := by
  obtain ⟨b, snap, hrun, hsnap, hdepicts⟩ := run_depicts hroom
  refine ⟨b, _, snap, hrun, hsnap, ?_, ?_⟩
  · intro id
    rw [hdepicts.orders_eq, hdepicts.orders_eq]
    have hempty : ({} : Account).Balances (restingOf id ({} : PriorityBook).orders) := rfl
    exact hempty.run PriorityBook.valid_empty cmds
  · have htraders := PriorityBook.traders_run PriorityBook.valid_empty cmds
    rw [Finset.sum_congr rfl fun id _ => traded_ofRun id (Machine.length_run _ cmds)]
    apply sum_tradedBy
    intro t ht
    obtain ⟨hmaker, htaker, hne⟩ := htraders t ht
    rw [List.mem_toFinset, List.mem_toFinset]
    exact ⟨(PriorityBook.mem_accepted_priorityRun cmds _).mp hmaker,
      (PriorityBook.mem_accepted_priorityRun cmds _).mp htaker, hne⟩

/-- In the session order 1 was placed, traded, replaced and rests in part. -/
theorem every_unit_is_accounted_for_session :
    ∃ b results snap, OrderBook.run .full session = .ok (b, results) ∧ b.snapshot = .ok snap
      ∧ (∀ id, (Account.ofRun id session results).traded + (Account.ofRun id session results).withdrawn
          + restingOf id (snap.orders .buy ++ snap.orders .sell) = (Account.ofRun id session results).placed)
      ∧ ∑ id ∈ (acceptedIds session results).toFinset, (Account.ofRun id session results).traded
          = 2 * ((returnedTrades results).map fun t => t.quantity.toNat).sum :=
  every_unit_is_accounted_for .full session (by decide +kernel)

example : (OrderBook.run .full session).map (fun r => Account.ofRun 1 session r.2) = .ok ⟨12, 2, 10⟩ := by
  decide +kernel

end LimitOrderBook
