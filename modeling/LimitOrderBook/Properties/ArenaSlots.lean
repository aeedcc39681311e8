import LimitOrderBook.Refinement.Arena

/-!
# `Properties.ArenaSlots` — which slots an arena gives out

Runs of insertions and removals on an arena alone, without a book around it. A slot is given out only while nothing is
stored in it, and names its order until it is removed, as long as no more than `2 ^ 32` orders are stored at once. One
order more, and the cast to `u32` gives out slot 0 again while its order is still there.

`ArenaCall` is a call and `NeverAliases` the property of a run of calls: no insertion returns a slot in which an order
is stored, and what was inserted can be read under its slot until it is removed. `NeverFull` is the condition, as a
count of insertions and removals over every part of the calls.

In one direction `Ready` is the invariant, an arena with a free list and with room for the calls that are left, and
`Ready.neverAliases` the result. In the other `NeverAliases.neverFull` says that a full arena answers the next
insertion with a slot that is taken. Both are in `slots_never_alias_iff`. At the end `2 ^ 32 + 1` insertions are such
a run.
-/

namespace LimitOrderBook

/-- A call that takes a slot or gives it back. -/
inductive ArenaCall where
  | insert (order : Order)
  | remove (slot : Slot)
deriving DecidableEq, Repr

/-- What such a call returns. -/
inductive ArenaReturn where
  | slot (slot : Slot)
  | order (order : Order)
deriving DecidableEq, Repr

namespace ArenaCall

def isInsert : ArenaCall → Bool
  | .insert _ => true
  | .remove _ => false

def isRemove : ArenaCall → Bool
  | .insert _ => false
  | .remove _ => true

/-- How many orders the calls put in. -/
def inserts (calls : List ArenaCall) : Nat := calls.countP isInsert

/-- How many orders they take out. -/
def removes (calls : List ArenaCall) : Nat := calls.countP isRemove

variable {order : Order} {slot : Slot} {calls : List ArenaCall}

@[simp] theorem inserts_nil : inserts [] = 0 := rfl

@[simp] theorem removes_nil : removes [] = 0 := rfl

@[simp] theorem inserts_insert : inserts (.insert order :: calls) = inserts calls + 1 := by
  simp [inserts, List.countP_cons, isInsert]

@[simp] theorem inserts_remove : inserts (.remove slot :: calls) = inserts calls := by
  simp [inserts, isInsert]

@[simp] theorem removes_insert : removes (.insert order :: calls) = removes calls := by
  simp [removes, isRemove]

@[simp] theorem removes_remove : removes (.remove slot :: calls) = removes calls + 1 := by
  simp [removes, List.countP_cons, isRemove]

end ArenaCall

namespace OrderArena

open ArenaCall

def exec (a : OrderArena) : ArenaCall → Except Fault (OrderArena × ArenaReturn)
  | .insert order => (a.insert order).map fun r => (r.1, .slot r.2)
  | .remove slot => (a.remove slot).map fun r => (r.1, .order r.2)

/-- Reading the slot returns this order. -/
def Stores (a : OrderArena) (slot : Slot) (order : Order) : Prop :=
  ∃ node, a.get slot = .ok node ∧ node.order = order

/-- An order may always be inserted; a slot may be removed while a read of it returns. -/
def MayCall (a : OrderArena) : ArenaCall → Prop
  | .insert _ => True
  | .remove slot => (a.get slot).isOk = true

instance (a : OrderArena) : (c : ArenaCall) → Decidable (a.MayCall c)
  | .insert _ => isTrue trivial
  | .remove slot => inferInstanceAs (Decidable ((a.get slot).isOk = true))

/-- Every removal is of a slot that holds an order when it is called. -/
abbrev RemovesHeld : OrderArena → List ArenaCall → Prop := Machine.Admits MayCall exec

/-- **No slot is given out twice.** Wherever an order is inserted in the run, the slot it gets holds nothing,
    and after every later part of the run that does not remove the slot, the slot holds that order. -/
def NeverAliases (a : OrderArena) (calls : List ArenaCall) : Prop :=
  ∀ done order todo, calls = done ++ .insert order :: todo →
    ∃ now returned after slot, Machine.tryRun exec a done = .ok (now, returned)
      ∧ now.insert order = .ok (after, slot)
      ∧ (∀ other, ¬now.Stores slot other)
      ∧ ∀ between, between <+: todo → .remove slot ∉ between →
          ∃ later returned', Machine.tryRun exec after between = .ok (later, returned')
            ∧ later.Stores slot order

/-- From `stored` orders on, never more than `2 ^ 32` are stored at once: every part of the calls inserts at
    most that many more than it removes. -/
def NeverFull (stored : Nat) (calls : List ArenaCall) : Prop :=
  ∀ done, done <+: calls → stored + inserts done ≤ 2 ^ 32 + removes done

variable {a a' : OrderArena} {slot : Slot} {order : Order} {calls : List ArenaCall} {stored : Nat}

/-! ## Reading a slot -/

theorem stores_iff : a.Stores slot order ↔ ∃ node, a.node? slot = some node ∧ node.order = order := by
  constructor
  · rintro ⟨node, hget, horder⟩
    exact ⟨node, of_get hget, horder⟩
  · rintro ⟨node, hnode, horder⟩
    exact ⟨node, get_eq hnode, horder⟩

/-- An empty slot stores nothing. -/
theorem not_stores_of_none (h : a.node? slot = none) (other : Order) : ¬a.Stores slot other := by
  rw [stores_iff]
  rintro ⟨node, hnode, -⟩
  rw [h] at hnode
  cases hnode

theorem isSome_of_isOk (h : (a.get slot).isOk = true) : (a.node? slot).isSome := by
  cases hget : a.get slot with
  | error fault =>
      rw [hget] at h
      cases h
  | ok node => simp [of_get hget]

theorem exec_insert (h : a.insert order = .ok (a', slot)) : a.exec (.insert order) = .ok (a', .slot slot) := by
  simp [exec, h, Except.map]

theorem exec_remove (h : a.remove slot = .ok (a', order)) : a.exec (.remove slot) = .ok (a', .order order) := by
  simp [exec, h, Except.map]

/-! ## Counting the calls -/

theorem NeverFull.start (h : NeverFull stored calls) : stored ≤ 2 ^ 32 := by
  simpa using h [] List.nil_prefix

/-- A part of the calls never fills the arena, either. -/
theorem NeverFull.append_left {later : List ArenaCall} (h : NeverFull stored (calls ++ later)) :
    NeverFull stored calls := fun done hdone => h done (hdone.trans (List.prefix_append _ _))

theorem neverFull_cons {c : ArenaCall} : NeverFull stored (c :: calls)
    ↔ stored ≤ 2 ^ 32 ∧ ∀ done, done <+: calls → stored + inserts (c :: done) ≤ 2 ^ 32 + removes (c :: done) := by
  constructor
  · intro h
    exact ⟨h.start, fun done hdone => h (c :: done) (List.cons_prefix_cons.mpr ⟨rfl, hdone⟩)⟩
  · rintro ⟨hstart, h⟩ done hdone
    rcases List.prefix_cons_iff.mp hdone with rfl | ⟨rest, rfl, hrest⟩
    · simpa using hstart
    · exact h rest hrest

/-- With an insertion there has to be room for one order more. -/
theorem neverFull_insert :
    NeverFull stored (.insert order :: calls) ↔ stored < 2 ^ 32 ∧ NeverFull (stored + 1) calls := by
  rw [neverFull_cons]
  simp only [inserts_insert, removes_insert]
  constructor
  · rintro ⟨-, h⟩
    have hfull : NeverFull (stored + 1) calls := by
      intro done hdone
      have hcount := h done hdone
      omega
    exact ⟨hfull.start, hfull⟩
  · rintro ⟨hroom, h⟩
    refine ⟨hroom.le, ?_⟩
    intro done hdone
    have hcount := h done hdone
    omega

/-- A removal makes room for one. -/
theorem neverFull_remove :
    NeverFull (stored + 1) (.remove slot :: calls) ↔ stored < 2 ^ 32 ∧ NeverFull stored calls := by
  rw [neverFull_cons]
  simp only [inserts_remove, removes_remove]
  refine and_congr Iff.rfl (forall₂_congr ?_)
  intro done _
  show stored + 1 + inserts done ≤ 2 ^ 32 + (removes done + 1) ↔ stored + inserts done ≤ 2 ^ 32 + removes done
  omega

/-- Few calls fill nothing. -/
theorem neverFull_of_length (h : stored + calls.length ≤ 2 ^ 32) : NeverFull stored calls := by
  intro done hdone
  have hinserts : inserts done ≤ done.length := List.countP_le_length
  have hlength := hdone.length_le
  omega

/-! ## One call -/

/-- An arena before calls it has room for. -/
structure Ready (a : OrderArena) (calls : List ArenaCall) : Prop where
  free : ∃ free, a.FreeList free
  held : a.RemovesHeld calls
  room : NeverFull a.len calls

namespace Ready

theorem append_left {later : List ArenaCall} (h : a.Ready (calls ++ later)) : a.Ready calls :=
  ⟨h.free, h.held.append_left, h.room.append_left⟩

/-- Inserting takes a slot that held nothing, and leaves the other slots alone. -/
theorem insert (h : a.Ready (.insert order :: calls)) :
    ∃ a' slot, a.insert order = .ok (a', slot) ∧ a.node? slot = none
      ∧ a'.node? = Function.update a.node? slot (some ⟨order, none, none⟩) ∧ a'.Ready calls := by
  obtain ⟨free, hfree⟩ := h.free
  obtain ⟨hroom, hrest⟩ := neverFull_insert.mp h.room
  obtain ⟨a', slot, free', hinsert, hnone, hnode, hlen, hfree'⟩ := insert_spec hfree hroom order
  refine ⟨a', slot, hinsert, hnone, hnode, ⟨free', hfree'⟩, h.held.2 a' _ (exec_insert hinsert), ?_⟩
  rw [hlen]
  exact hrest

/-- Removing empties the slot it names, and leaves the other slots alone. -/
theorem remove (h : a.Ready (.remove slot :: calls)) :
    ∃ a' order, a.remove slot = .ok (a', order) ∧ a'.node? = Function.update a.node? slot none
      ∧ a'.Ready calls := by
  obtain ⟨free, hfree⟩ := h.free
  obtain ⟨node, hnode⟩ := Option.isSome_iff_exists.mp (isSome_of_isOk h.held.1)
  obtain ⟨a', hremove, hnode', hlen, -, hfree'⟩ := remove_spec hfree hnode
  have hroom := h.room
  rw [← hlen] at hroom
  exact ⟨a', node.order, hremove, hnode', ⟨_, hfree'⟩, h.held.2 a' _ (exec_remove hremove),
    (neverFull_remove.mp hroom).2⟩

/-- **One call** is answered, and a slot it does not remove keeps what it holds. -/
theorem exec {c : ArenaCall} (h : a.Ready (c :: calls)) :
    ∃ a' returned, a.exec c = .ok (a', returned) ∧ a'.Ready calls
      ∧ ∀ slot node, a.node? slot = some node → c ≠ .remove slot → a'.node? slot = some node := by
  cases c with
  | insert order =>
      obtain ⟨a', slot, hinsert, hnone, hnode, hready⟩ := h.insert
      refine ⟨a', .slot slot, exec_insert hinsert, hready, ?_⟩
      intro kept node hkept _
      have hne : kept ≠ slot := by
        rintro rfl
        rw [hnone] at hkept
        cases hkept
      rw [hnode, Function.update_of_ne hne, hkept]
  | remove slot =>
      obtain ⟨a', order, hremove, hnode, hready⟩ := h.remove
      refine ⟨a', .order order, exec_remove hremove, hready, ?_⟩
      intro kept node hkept hother
      have hne : kept ≠ slot := fun heq => hother (by rw [heq])
      rw [hnode, Function.update_of_ne hne, hkept]

/-! ## Runs -/

/-- A part of the calls is answered, and leaves the arena ready for the rest. -/
theorem run {done todo : List ArenaCall} (h : a.Ready (done ++ todo)) :
    ∃ a' returned, Machine.tryRun OrderArena.exec a done = .ok (a', returned) ∧ a'.Ready todo := by
  have hstep : ∀ a c calls, Ready a (c :: calls) →
      ∃ a' returned, a.exec c = .ok (a', returned) ∧ a'.Ready calls := by
    intro a c calls hready
    obtain ⟨a', returned, hexec, hready', -⟩ := hready.exec
    exact ⟨a', returned, hexec, hready'⟩
  exact Machine.tryRun_progress hstep h

/-- A slot that no call removes keeps what it holds. -/
theorem run_keeps (h : a.Ready calls) {node : OrderNode} (hnode : a.node? slot = some node)
    (hkept : .remove slot ∉ calls) :
    ∃ a' returned, Machine.tryRun OrderArena.exec a calls = .ok (a', returned)
      ∧ a'.node? slot = some node := by
  let Inv : OrderArena → List ArenaCall → Prop := fun a calls =>
    a.Ready calls ∧ a.node? slot = some node ∧ .remove slot ∉ calls
  have hstep : ∀ a c calls, Inv a (c :: calls) →
      ∃ a' returned, a.exec c = .ok (a', returned) ∧ Inv a' calls := by
    rintro a c calls ⟨hready, hnode, hkept⟩
    obtain ⟨hne, hkept⟩ := not_or.mp (List.mem_cons.not.mp hkept)
    obtain ⟨a', returned, hexec, hready', hsame⟩ := hready.exec
    exact ⟨a', returned, hexec, hready', hsame slot node hnode (Ne.symm hne), hkept⟩
  have hstart : Inv a (calls ++ []) := by
    rw [List.append_nil]
    exact ⟨h, hnode, hkept⟩
  obtain ⟨a', returned, hrun, -, hnode', -⟩ := Machine.tryRun_progress hstep hstart
  exact ⟨a', returned, hrun, hnode'⟩

/-- **With room for every call no slot is given out twice.** -/
theorem neverAliases (h : a.Ready calls) : a.NeverAliases calls := by
  rintro done order todo rfl
  obtain ⟨now, returned, hrun, hready⟩ := h.run
  obtain ⟨after, slot, hinsert, hnone, hnode, hafter⟩ := hready.insert
  refine ⟨now, returned, after, slot, hrun, hinsert, not_stores_of_none hnone, ?_⟩
  rintro between ⟨rest, rfl⟩ hkept
  have hstored : after.node? slot = some ⟨order, none, none⟩ := by rw [hnode, Function.update_self]
  obtain ⟨later, returned', hlater, hnode'⟩ := hafter.append_left.run_keeps hstored hkept
  exact ⟨later, returned', hlater, stores_iff.mpr ⟨_, hnode', rfl⟩⟩

end Ready

/-! ## Runs that give no slot out twice -/

/-- What never happens in a run never happens after its first call. -/
theorem NeverAliases.tail {c : ArenaCall} {r : ArenaReturn} (h : a.NeverAliases (c :: calls))
    (hexec : a.exec c = .ok (a', r)) : a'.NeverAliases calls := by
  rintro done order todo rfl
  obtain ⟨now, returned, after, slot, hrun, hinsert, hfresh, hkept⟩ := h (c :: done) order todo rfl
  obtain ⟨a₁, r₁, returned₁, hexec₁, hrun₁, -⟩ := Machine.tryRun_cons_ok hrun
  rw [hexec] at hexec₁
  cases hexec₁
  exact ⟨now, returned₁, after, slot, hrun₁, hinsert, hfresh, hkept⟩

/-- **A run that gives no slot out twice never fills the arena.** A full arena answers the next insertion
    with slot 0, which holds an order. -/
theorem NeverAliases.neverFull {free : List Slot} (h : a.NeverAliases calls) (hfree : a.FreeList free)
    (hheld : a.RemovesHeld calls) : NeverFull a.len calls := by
  induction calls generalizing a free with
  | nil =>
      have hcount := hfree.count
      have hfits := hfree.fits
      apply neverFull_of_length
      show a.len + 0 ≤ 2 ^ 32
      omega
  | cons c calls ih =>
      cases c with
      | insert order =>
          have hcount := hfree.count
          have hfits := hfree.fits
          have hroom : a.len < 2 ^ 32 := by
            by_contra hfull
            obtain ⟨a₁, hinsert, -, hsome, -⟩ := insert_full hfree (by omega) order
            obtain ⟨node, hnode⟩ := Option.isSome_iff_exists.mp hsome
            obtain ⟨now, returned, after, slot, hrun, hinsert', hfresh, -⟩ := h [] order calls rfl
            cases hrun
            rw [hinsert] at hinsert'
            cases hinsert'
            exact hfresh node.order (stores_iff.mpr ⟨node, hnode, rfl⟩)
          obtain ⟨a₁, slot, free₁, hinsert, -, -, hlen, hfree₁⟩ := insert_spec hfree hroom order
          have hexec := exec_insert hinsert
          have hrest := ih (h.tail hexec) hfree₁ (hheld.2 _ _ hexec)
          rw [hlen] at hrest
          exact neverFull_insert.mpr ⟨hroom, hrest⟩
      | remove slot =>
          obtain ⟨node, hnode⟩ := Option.isSome_iff_exists.mp (isSome_of_isOk hheld.1)
          obtain ⟨a₁, hremove, -, hlen, -, hfree₁⟩ := remove_spec hfree hnode
          have hexec := exec_remove hremove
          have hcount := hfree.count
          have hfits := hfree.fits
          rw [← hlen]
          exact neverFull_remove.mpr ⟨by omega, ih (h.tail hexec) hfree₁ (hheld.2 _ _ hexec)⟩

/-- **The slots of an arena**: from the empty arena on, a sequence of insertions and of removals of held
    slots gives no slot out twice if and only if it never stores more than `2 ^ 32` orders at once. -/
theorem slots_never_alias_iff (calls : List ArenaCall) (hheld : RemovesHeld {} calls) :
    NeverAliases {} calls ↔ NeverFull 0 calls := by
  constructor
  · intro h
    exact h.neverFull freeList_empty hheld
  · intro h
    exact Ready.neverAliases ⟨⟨[], freeList_empty⟩, hheld, h⟩

/-- Two slots are given back, and taken again in the other order. -/
theorem slots_never_alias_reused :
    NeverAliases {} [.insert (Order.new 1 .buy 100 5), .insert (Order.new 2 .buy 100 5), .remove 0, .remove 1,
      .insert (Order.new 3 .buy 100 5), .insert (Order.new 4 .buy 100 5)] :=
  (slots_never_alias_iff _ (by decide +kernel)).mpr (neverFull_of_length (by decide))

/-- As many orders, one after another, with the ids from 0 on. -/
-- never unfolded by the elaborator, which would build the list
@[irreducible] def insertions (n : Nat) : List ArenaCall :=
  (List.range n).map fun i => .insert (Order.new (UInt64.ofNat i) .buy 100 5)

theorem isInsert_of_mem_insertions {n : Nat} {c : ArenaCall} (h : c ∈ insertions n) : c.isInsert = true := by
  unfold insertions at h
  obtain ⟨i, -, rfl⟩ := List.mem_map.mp h
  rfl

theorem inserts_insertions (n : Nat) : inserts (insertions n) = n := by
  rw [inserts, List.countP_eq_length.mpr fun c => isInsert_of_mem_insertions]
  simp [insertions]

theorem removes_insertions (n : Nat) : removes (insertions n) = 0 := by
  refine List.countP_eq_zero.mpr ?_
  intro c hc
  cases c with
  | insert order => simp [isRemove]
  | remove slot => cases isInsert_of_mem_insertions hc

/-- Insertions alone remove nothing. -/
theorem removesHeld_insertions (n : Nat) : RemovesHeld {} (insertions n) := by
  refine Machine.Admits.of_forall ?_ _
  intro a c hc
  cases c with
  | insert order => trivial
  | remove slot => cases isInsert_of_mem_insertions hc

/-- With one insertion more than there are slots, one is given out twice. -/
theorem not_neverAliases_insertions {n : Nat} (hn : 2 ^ 32 < n) : ¬NeverAliases {} (insertions n) := by
  intro h
  have hfull := h.neverFull freeList_empty (removesHeld_insertions n)
  have hcount := hfull (insertions n) (List.prefix_refl _)
  rw [inserts_insertions, removes_insertions] at hcount
  omega

/-- With one order more than there are slots, the last one is given a slot that holds another. -/
theorem slots_alias_overfull :
    RemovesHeld {} (insertions (2 ^ 32 + 1)) ∧ ¬NeverAliases {} (insertions (2 ^ 32 + 1)) := by
  refine ⟨removesHeld_insertions _, not_neverAliases_insertions ?_⟩
  omega

end OrderArena
end LimitOrderBook
