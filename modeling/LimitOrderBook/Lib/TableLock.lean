import Mathlib.Data.List.Perm.Basic
import LimitOrderBook.Lib.RowLock
import LimitOrderBook.Lib.Table

/-!
# `Lib.TableLock` — concurrent transactions that insert rows

Transactions take locks on whole tables, ask whether a table has a row, and insert rows. A lock is held to the
end of its transaction, a query sees the rows that are committed by then and those of its own transaction,
and a transaction that does not commit leaves no row. What can happen to a statement is as in `Lib.RowLock`.

`step` is the only place where the database decides; everything else is read off `step_cases`, which says once
what a step can do. `Inv` keeps, for every client, that the rest of its transaction ends as the whole one does alone,
on any rows that leave the tables it has locked as they are (`Good`); that locks which conflict are of one client; and
that the table of a row which is not committed yet is locked by its writer. So nobody else writes to a table that a
client has locked exclusively (`Inv.not_holds_of_written`).

The main results are about every schedule:

* `inv_run`: a transaction which asks a table only under an exclusive lock is serial. When it commits, it writes what
  it writes alone on the rows committed by then.
* `basedOn_run`: the commits stand on one another, so the rows that a commit found are a part of those that stay.
* `constrained_run`: what is committed or pending meets the constraints of its table, whoever wrote it.

What the clients are told about it is in `Lib.TableTurns`.
-/

namespace TableLock

open RowLock (Action Ending)

/-! ## Transactions -/

/-- The modes of a lock on a table: what a reference to its rows takes, what an insert takes, and
    `IN EXCLUSIVE MODE`. A query takes a mode that conflicts with none of them. -/
inductive LockMode where
  | rowShare
  | rowExclusive
  | exclusive
deriving DecidableEq, Repr

/-- Two transactions cannot hold these modes of one table at the same time. -/
def LockMode.conflicts : LockMode → LockMode → Bool
  | .exclusive, _ => true
  | _, .exclusive => true
  | _, _ => false

theorem LockMode.conflicts_comm (m m' : LockMode) : m.conflicts m' = m'.conflicts m := by
  cases m <;> cases m' <;> rfl

/-- Why an insert fails. -/
inductive Failure where
  | unique
  | other
deriving DecidableEq, Repr

/-- The tables, the constraints of their rows, and the rows that a row refers to. -/
structure Catalog (τ ρ : Type) where
  table : ρ → τ
  schema : Schema ρ
  references : ρ → List (τ × (ρ → Bool))

/-- A transaction that returns an `ω`. The first argument of a statement is what the client returns when the
    statement fails. -/
inductive Transaction (τ ρ ω : Type) where
  | start (failed : ω) (next : Transaction τ ρ ω)
  | lockTable (failed : ω) (table : τ) (mode : LockMode) (next : Transaction τ ρ ω)
  | selectExists (failed : ω) (table : τ) (condition : ρ → Bool) (next : Bool → Transaction τ ρ ω)
  | insert (failed : Failure → ω) (row : ρ) (next : Transaction τ ρ ω)
  | commit (failed done : ω)
  /-- Return without a commit: the transaction is rolled back. -/
  | finish (out : ω)

variable {ι τ ρ ω : Type} [DecidableEq τ]

/-- The table has a row that meets the condition. -/
def Catalog.hasRow (catalog : Catalog τ ρ) (table : τ) (condition : ρ → Bool) (rows : List ρ) : Bool :=
  rows.any fun r => catalog.table r = table && condition r

namespace Transaction

/-- What the client returns if the next statement fails. -/
def failed? : Transaction τ ρ ω → Option ω
  | .start failed _ => some failed
  | .lockTable failed _ _ _ => some failed
  | .selectExists failed _ _ _ => some failed
  | .insert failed _ _ => some (failed .other)
  | .commit failed _ => some failed
  | .finish _ => none

/-- The transaction run alone, without failures, on the committed rows `rows` after writing `written`: what it
    writes in all and returns, if it commits. -/
def alone (catalog : Catalog τ ρ) : Transaction τ ρ ω → List ρ → List ρ → Option (List ρ × ω)
  | .start _ next, rows, written => alone catalog next rows written
  | .lockTable _ _ _ next, rows, written => alone catalog next rows written
  | .selectExists _ table condition next, rows, written =>
      alone catalog (next (catalog.hasRow table condition (rows ++ written))) rows written
  | .insert _ row next, rows, written => alone catalog next rows (written ++ [row])
  | .commit _ done, _, written => some (written, done)
  | .finish _, _, _ => none

/-- From here on the transaction asks only tables that it has locked exclusively; `held` are locked so far. -/
def Guarded : List τ → Transaction τ ρ ω → Prop
  | held, .start _ next => Guarded held next
  | held, .lockTable _ table mode next => Guarded (if mode = .exclusive then table :: held else held) next
  | held, .selectExists _ table _ next => table ∈ held ∧ ∀ answer, Guarded held (next answer)
  | held, .insert _ _ next => Guarded held next
  | _, .commit _ _ => True
  | _, .finish _ => True

/-- The transaction, with what the client makes of its result. -/
def map {ω' : Type} (f : ω → ω') : Transaction τ ρ ω → Transaction τ ρ ω'
  | .start failed next => .start (f failed) (map f next)
  | .lockTable failed table mode next => .lockTable (f failed) table mode (map f next)
  | .selectExists failed table condition next =>
      .selectExists (f failed) table condition fun answer => map f (next answer)
  | .insert failed row next => .insert (fun why => f (failed why)) row (map f next)
  | .commit failed done => .commit (f failed) (f done)
  | .finish out => .finish (f out)

theorem alone_map {ω' : Type} (f : ω → ω') (catalog : Catalog τ ρ) (tx : Transaction τ ρ ω)
    (rows written : List ρ) :
    (tx.map f).alone catalog rows written = (tx.alone catalog rows written).map fun x => (x.1, f x.2) := by
  induction tx generalizing written with
  | start failed next ih => exact ih written
  | lockTable failed table mode next ih => exact ih written
  | selectExists failed table condition next ih => exact ih _ written
  | insert failed row next ih => exact ih (written ++ [row])
  | commit failed done => rfl
  | finish out => rfl

/-- What the mapped transaction does alone, the transaction does. -/
theorem alone_of_map {ω' : Type} {f : ω → ω'} {catalog : Catalog τ ρ} {tx : Transaction τ ρ ω}
    {rows written all : List ρ} {out' : ω'} (h : (tx.map f).alone catalog rows written = some (all, out')) :
    ∃ out, tx.alone catalog rows written = some (all, out) := by
  rw [alone_map, Option.map_eq_some_iff] at h
  obtain ⟨⟨all, out⟩, halone, heq⟩ := h
  cases heq
  exact ⟨out, halone⟩

omit [DecidableEq τ] in
theorem guarded_map {ω' : Type} (f : ω → ω') {tx : Transaction τ ρ ω} {held : List τ} (h : tx.Guarded held) :
    (tx.map f).Guarded held := by
  induction tx generalizing held with
  | start failed next ih => exact ih h
  | lockTable failed table mode next ih => exact ih h
  | selectExists failed table condition next ih => exact ⟨h.1, fun answer => ih answer (h.2 answer)⟩
  | insert failed row next ih => exact ih h
  | commit failed done => trivial
  | finish out => trivial

end Transaction

/-! ## The database and its clients -/

/-- A client is running, with the rest of its transaction; or it returned; or it was cut off. -/
inductive Phase (τ ρ ω : Type) where
  | running (rest : Transaction τ ρ ω)
  | returned (how : Ending) (out : ω)
  | aborted

/-- The commits, the newest first, each with its client and rows, on top of the first rows; the rows that are
    not committed yet; the locks; and the clients. -/
structure System (ι τ ρ ω : Type) where
  commits : List (Option ι × List ρ)
  pending : List (ι × ρ)
  locks : List (ι × τ × LockMode)
  phase : ι → Phase τ ρ ω

/-- The committed rows, the oldest first. -/
def committedRows : List (Option ι × List ρ) → List ρ
  | [] => []
  | (_, rows) :: older => committedRows older ++ rows

theorem committedRows_append (new commits : List (Option ι × List ρ)) :
    committedRows (new ++ commits) = committedRows commits ++ committedRows new := by
  induction new with
  | nil => exact (List.append_nil _).symm
  | cons e new ih =>
      show committedRows (new ++ commits) ++ e.2 = committedRows commits ++ (committedRows new ++ e.2)
      rw [ih, List.append_assoc]

/-- A row is committed by one of the commits. -/
theorem mem_committedRows {commits : List (Option ι × List ρ)} {r : ρ} :
    r ∈ committedRows commits ↔ ∃ e ∈ commits, r ∈ e.2 := by
  induction commits with
  | nil => simp [committedRows]
  | cons e commits ih => simp [committedRows, ih, or_comm]

/-- Both have the same rows of the table. -/
def SameRows (catalog : Catalog τ ρ) (table : τ) (rows rows' : List ρ) : Prop :=
  rows.filter (fun r => catalog.table r = table) = rows'.filter fun r => catalog.table r = table

/-- A query answers the same on the same rows of its table. -/
theorem hasRow_congr {catalog : Catalog τ ρ} {table : τ} {rows rows' : List ρ}
    (h : SameRows catalog table rows rows') (condition : ρ → Bool) :
    catalog.hasRow table condition rows = catalog.hasRow table condition rows' := by
  have hfilter : ∀ rows : List ρ, catalog.hasRow table condition rows
      = (rows.filter fun r => catalog.table r = table).any condition := by
    intro rows
    rw [List.any_filter]
    rfl
  rw [hfilter, hfilter, h]

/-- So does a query of a client that has written rows besides. -/
theorem hasRow_append_congr {catalog : Catalog τ ρ} {table : τ} {rows rows' : List ρ}
    (h : SameRows catalog table rows rows') (condition : ρ → Bool) (written : List ρ) :
    catalog.hasRow table condition (rows ++ written) = catalog.hasRow table condition (rows' ++ written) := by
  refine hasRow_congr ?_ condition
  unfold SameRows at h ⊢
  rw [List.filter_append, List.filter_append, h]

/-- Commits that leave a table alone leave its rows as they were. -/
theorem sameRows_of_untouched {catalog : Catalog τ ρ} {table : τ} {new commits : List (Option ι × List ρ)}
    (h : ∀ e ∈ new, ∀ r ∈ e.2, catalog.table r ≠ table) :
    SameRows catalog table (committedRows (new ++ commits)) (committedRows commits) := by
  have hnone : (committedRows new).filter (fun r => catalog.table r = table) = [] := by
    rw [List.filter_eq_nil_iff]
    intro r hr
    obtain ⟨e, he, hr⟩ := mem_committedRows.mp hr
    simpa using h e he r hr
  unfold SameRows
  rw [committedRows_append, List.filter_append, hnone, List.append_nil]

namespace System

variable [DecidableEq ι]

/-- Every client at the start of its transaction. -/
def initial (prog : ι → Transaction τ ρ ω) (rows : List ρ) : System ι τ ρ ω :=
  ⟨[(none, rows)], [], [], fun i => .running (prog i)⟩

def setPhase (s : System ι τ ρ ω) (i : ι) (phase : Phase τ ρ ω) : System ι τ ρ ω :=
  { s with phase := Function.update s.phase i phase }

/-- The rows that the transaction of `i` has written. -/
def written (s : System ι τ ρ ω) (i : ι) : List ρ := (s.pending.filter fun w => w.1 = i).map Prod.snd

/-- What a statement of `i` sees. -/
def visible (s : System ι τ ρ ω) (i : ι) : List ρ := committedRows s.commits ++ s.written i

/-- A transaction that ends gives up its locks, and the rows that it did not commit. -/
def leave (s : System ι τ ρ ω) (i : ι) (phase : Phase τ ρ ω) : System ι τ ρ ω :=
  { s.setPhase i phase with
    pending := s.pending.filter fun w => w.1 ≠ i
    locks := s.locks.filter fun l => l.1 ≠ i }

def publish (s : System ι τ ρ ω) (i : ι) : System ι τ ρ ω :=
  { s with commits := (some i, s.written i) :: s.commits }

/-- No other transaction holds a lock in conflict with this one. -/
def grants (s : System ι τ ρ ω) (i : ι) (lock : τ × LockMode) : Bool :=
  s.locks.all fun l => l.1 = i || l.2.1 ≠ lock.1 || !l.2.2.conflicts lock.2

/-- The statement waits until all its locks are granted. -/
def acquire (s : System ι τ ρ ω) (i : ι) (locks : List (τ × LockMode)) : Option (System ι τ ρ ω) :=
  if locks.all (s.grants i) then some { s with locks := locks.map (fun lock => (i, lock)) ++ s.locks } else none

/-- The locks that an insert takes: on the table of the row, and on those that it refers to. -/
def insertLocks (catalog : Catalog τ ρ) (row : ρ) : List (τ × LockMode) :=
  (catalog.table row, .rowExclusive) :: (catalog.references row).map fun r => (r.1, .rowShare)

/-- An insert with its locks: it fails on a constraint, or waits for another transaction that has written a row
    with the same key, or writes the row. -/
def insertRow (catalog : Catalog τ ρ) (s : System ι τ ρ ω) (i : ι) (failed : Failure → ω) (row : ρ)
    (next : Transaction τ ρ ω) : Option (System ι τ ρ ω) :=
  if catalog.schema.check row = false then some (s.leave i (.returned .failed (failed .other)))
  else if (s.visible i).any (fun r => !catalog.schema.distinct r row) then
    some (s.leave i (.returned .failed (failed .unique)))
  else if s.pending.any (fun w => !catalog.schema.distinct w.2 row) then none
  else if (catalog.references row).any (fun r => !catalog.hasRow r.1 r.2 (s.visible i)) then
    some (s.leave i (.returned .failed (failed .other)))
  else some ({ s with pending := s.pending ++ [(i, row)] }.setPhase i (.running next))

/-- The next statement of client `i`, with what happens to it. `none`: it cannot happen now. -/
def step (catalog : Catalog τ ρ) (s : System ι τ ρ ω) (i : ι) (a : Action) : Option (System ι τ ρ ω) :=
  match s.phase i with
  | .running tx =>
      match a with
      | .abort => some (s.leave i .aborted)
      | .fail => tx.failed?.map fun out => s.leave i (.returned .failed out)
      | .loseAnswer =>
          -- the commit took place, but the client is told that it failed
          match tx with
          | .commit failed _ => some ((s.publish i).leave i (.returned .failed failed))
          | _ => none
      | .proceed =>
          match tx with
          | .start _ next => some (s.setPhase i (.running next))
          | .lockTable _ table mode next => (s.acquire i [(table, mode)]).map fun s => s.setPhase i (.running next)
          | .selectExists _ table condition next =>
              some (s.setPhase i (.running (next (catalog.hasRow table condition (s.visible i)))))
          | .insert failed row next =>
              (s.acquire i (insertLocks catalog row)).bind fun s => s.insertRow catalog i failed row next
          | .commit _ done => some ((s.publish i).leave i (.returned .committed done))
          | .finish out => some (s.leave i (.returned .rolledBack out))
  | _ => none

/-- One entry of a schedule, and whether it could happen; what cannot happen is passed over. -/
def advance (catalog : Catalog τ ρ) (s : System ι τ ρ ω) (e : ι × Action) : System ι τ ρ ω × Bool :=
  match s.step catalog e.1 e.2 with
  | some s' => (s', true)
  | none => (s, false)

def run (catalog : Catalog τ ρ) (s : System ι τ ρ ω) (schedule : List (ι × Action)) : System ι τ ρ ω :=
  (Machine.run (advance catalog) s schedule).1

/-- What a client returned. -/
def answer (s : System ι τ ρ ω) (i : ι) : Option ω :=
  match s.phase i with
  | .returned _ out => some out
  | _ => none

variable {catalog : Catalog τ ρ} {prog : ι → Transaction τ ρ ω} {s s' : System ι τ ρ ω} {i : ι}

/-! ## The parts of the state -/

section Parts

variable {j : ι} {phase : Phase τ ρ ω}

omit [DecidableEq τ]

@[simp] theorem commits_setPhase : (s.setPhase i phase).commits = s.commits := rfl

@[simp] theorem written_setPhase : (s.setPhase i phase).written j = s.written j := rfl

@[simp] theorem phase_setPhase_self : (s.setPhase i phase).phase i = phase := by simp [setPhase]

@[simp] theorem phase_setPhase_of_ne (h : j ≠ i) : (s.setPhase i phase).phase j = s.phase j := by
  simp [setPhase, h]

@[simp] theorem commits_leave : (s.leave i phase).commits = s.commits := rfl

@[simp] theorem phase_leave_self : (s.leave i phase).phase i = phase := by simp [leave, setPhase]

@[simp] theorem phase_leave_of_ne (h : j ≠ i) : (s.leave i phase).phase j = s.phase j := by
  simp [leave, setPhase, h]

/-- Who leaves takes along only what it wrote itself. -/
@[simp] theorem written_leave_of_ne (h : j ≠ i) : (s.leave i phase).written j = s.written j := by
  unfold written leave
  rw [List.filter_filter]
  refine congrArg _ (List.filter_congr fun w _ => ?_)
  by_cases hw : w.1 = j
  · simp [hw, h]
  · simp [hw]

/-- A client that inserts a row has written one more. -/
theorem written_append_self (s : System ι τ ρ ω) (i : ι) (row : ρ) :
    ({ s with pending := s.pending ++ [(i, row)] } : System ι τ ρ ω).written i = s.written i ++ [row] := by
  simp [written]

/-- The others have written what they had. -/
theorem written_append_of_ne (s : System ι τ ρ ω) (row : ρ) (h : j ≠ i) :
    ({ s with pending := s.pending ++ [(i, row)] } : System ι τ ρ ω).written j = s.written j := by
  simp [written, h.symm]

end Parts

/-! ## What a step can do -/

/-- How a transaction can end without a commit, and how the client is left. -/
inductive RollsBack : Transaction τ ρ ω → Phase τ ρ ω → Prop
  | abort {tx : Transaction τ ρ ω} : RollsBack tx .aborted
  | fail {tx : Transaction τ ρ ω} {out : ω} (h : tx.failed? = some out) : RollsBack tx (.returned .failed out)
  | insertFails {failed : Failure → ω} {row : ρ} {next : Transaction τ ρ ω} (why : Failure) :
      RollsBack (.insert failed row next) (.returned .failed (failed why))
  | finish {out : ω} : RollsBack (.finish out) (.returned .rolledBack out)

/-- **What a step can do** to the system, from the rest of the client's transaction. -/
inductive Moves (catalog : Catalog τ ρ) (s : System ι τ ρ ω) (i : ι) : Transaction τ ρ ω → System ι τ ρ ω → Prop
  | start {failed : ω} {next : Transaction τ ρ ω} :
      Moves catalog s i (.start failed next) (s.setPhase i (.running next))
  | lockTable {failed : ω} {table : τ} {mode : LockMode} {next : Transaction τ ρ ω}
      (h : s.grants i (table, mode) = true) :
      Moves catalog s i (.lockTable failed table mode next)
        ({ s with locks := (i, table, mode) :: s.locks }.setPhase i (.running next))
  | selectExists {failed : ω} {table : τ} {condition : ρ → Bool} {next : Bool → Transaction τ ρ ω} :
      Moves catalog s i (.selectExists failed table condition next)
        (s.setPhase i (.running (next (catalog.hasRow table condition (s.visible i)))))
  | insert {failed : Failure → ω} {row : ρ} {next : Transaction τ ρ ω}
      (hlocks : ∀ lock ∈ insertLocks catalog row, s.grants i lock = true)
      (hcheck : catalog.schema.check row = true)
      (hcommitted : ∀ r ∈ committedRows s.commits, catalog.schema.distinct r row = true)
      (hpending : ∀ w ∈ s.pending, catalog.schema.distinct w.2 row = true) :
      Moves catalog s i (.insert failed row next)
        ({ s with
            pending := s.pending ++ [(i, row)]
            locks := (insertLocks catalog row).map (fun lock => (i, lock)) ++ s.locks }.setPhase i (.running next))
  | rollback {tx : Transaction τ ρ ω} {phase : Phase τ ρ ω} (h : RollsBack tx phase) :
      Moves catalog s i tx (s.leave i phase)
  | commit {failed done : ω} {phase : Phase τ ρ ω}
      (h : phase = .returned .committed done ∨ phase = .returned .failed failed) :
      Moves catalog s i (.commit failed done) ((s.publish i).leave i phase)

/-- A lock that is granted is one entry more, and conflicts with none of the others. -/
theorem of_acquire {locks : List (τ × LockMode)} (h : s.acquire i locks = some s') :
    (∀ lock ∈ locks, s.grants i lock = true)
      ∧ s' = { s with locks := locks.map (fun lock => (i, lock)) ++ s.locks } := by
  unfold acquire at h
  split at h
  · rename_i hall
    exact ⟨List.all_eq_true.mp hall, (Option.some.inj h).symm⟩
  · cases h

omit [DecidableEq τ] in
/-- Who leaves leaves what it acquired, too. -/
theorem leave_acquired (s : System ι τ ρ ω) (i : ι) (locks : List (τ × LockMode)) (phase : Phase τ ρ ω) :
    ({ s with locks := locks.map (fun lock => (i, lock)) ++ s.locks }).leave i phase = s.leave i phase := by
  have hown : (locks.map fun lock => (i, lock)).filter (fun l => l.1 ≠ i) = [] := by
    rw [List.filter_eq_nil_iff]
    intro l hl
    obtain ⟨lock, -, rfl⟩ := List.mem_map.mp hl
    simp
  unfold leave setPhase
  rw [List.filter_append, hown]
  rfl

/-- An insert goes in, or its client is told why not. -/
theorem insertRow_cases {failed : Failure → ω} {row : ρ} {next : Transaction τ ρ ω}
    (h : s.insertRow catalog i failed row next = some s') :
    (∃ why, s' = s.leave i (.returned .failed (failed why)))
      ∨ catalog.schema.check row = true
        ∧ (∀ r ∈ committedRows s.commits, catalog.schema.distinct r row = true)
        ∧ (∀ w ∈ s.pending, catalog.schema.distinct w.2 row = true)
        ∧ s' = { s with pending := s.pending ++ [(i, row)] }.setPhase i (.running next) := by
  unfold insertRow at h
  split at h
  · exact Or.inl ⟨.other, (Option.some.inj h).symm⟩
  · rename_i hcheck
    split at h
    · exact Or.inl ⟨.unique, (Option.some.inj h).symm⟩
    · rename_i hvisible
      split at h
      · cases h
      · rename_i hpending
        split at h
        · exact Or.inl ⟨.other, (Option.some.inj h).symm⟩
        · refine Or.inr ⟨by simpa using hcheck, ?_, by simpa using hpending, (Option.some.inj h).symm⟩
          have hall : ∀ r ∈ s.visible i, catalog.schema.distinct r row = true := by simpa using hvisible
          exact fun r hr => hall r (List.mem_append_left _ hr)

/-- **What a step can do.** -/
theorem step_cases {a : Action} (h : s.step catalog i a = some s') :
    ∃ tx, s.phase i = .running tx ∧ Moves catalog s i tx s' := by
  unfold step at h
  split at h
  · rename_i tx hphase
    refine ⟨tx, hphase, ?_⟩
    cases a with
    | abort =>
        obtain rfl := Option.some.inj h
        exact .rollback .abort
    | fail =>
        obtain ⟨out, hout, rfl⟩ := Option.map_eq_some_iff.mp h
        exact .rollback (.fail hout)
    | loseAnswer =>
        cases tx with
        | commit failed done =>
            obtain rfl := Option.some.inj h
            exact .commit (Or.inr rfl)
        | start => cases h
        | lockTable => cases h
        | selectExists => cases h
        | insert => cases h
        | finish => cases h
    | proceed =>
        cases tx with
        | start failed next =>
            obtain rfl := Option.some.inj h
            exact .start
        | lockTable failed table mode next =>
            obtain ⟨s₁, hacquire, rfl⟩ := Option.map_eq_some_iff.mp h
            obtain ⟨hgrants, rfl⟩ := of_acquire hacquire
            exact .lockTable (hgrants _ (List.mem_singleton.mpr rfl))
        | selectExists failed table condition next =>
            obtain rfl := Option.some.inj h
            exact .selectExists
        | insert failed row next =>
            obtain ⟨s₁, hacquire, hinsert⟩ := Option.bind_eq_some_iff.mp h
            obtain ⟨hgrants, rfl⟩ := of_acquire hacquire
            rcases insertRow_cases hinsert with ⟨why, rfl⟩ | ⟨hcheck, hcommitted, hpending, rfl⟩
            · rw [leave_acquired]
              exact .rollback (.insertFails why)
            · exact .insert hgrants hcheck hcommitted hpending
        | commit failed done =>
            obtain rfl := Option.some.inj h
            exact .commit (Or.inl rfl)
        | finish out =>
            obtain rfl := Option.some.inj h
            exact .rollback .finish
  · cases h

/-! ## The invariant -/

/-- What holds of client `i` with the transaction `prog`, given the commits, what it has written and which tables
    it holds exclusively. Running, it is where `prog` run alone would be, on any rows that have the tables
    it holds as they are; returned, it committed what `prog` writes alone on the commits before it. -/
def Good (catalog : Catalog τ ρ) (prog : Transaction τ ρ ω) (i : ι) (commits : List (Option ι × List ρ))
    (written : List ρ) (holds : τ → Prop) : Phase τ ρ ω → Prop
  | .running tx =>
      (∀ rows, (some i, rows) ∉ commits)
        ∧ (prog.Guarded [] → ∃ held : List τ, (∀ t ∈ held, holds t) ∧ tx.Guarded held
          ∧ ∀ rows, (∀ t ∈ held, SameRows catalog t rows (committedRows commits)) →
              tx.alone catalog rows written = prog.alone catalog rows [])
  | .returned .committed out =>
      ∃ older rows, (some i, rows) :: older <:+ commits
        ∧ (prog.Guarded [] → prog.alone catalog (committedRows older) [] = some (rows, out))
  | .returned .rolledBack _ => ∀ rows, (some i, rows) ∉ commits
  | .returned .failed _ => True
  | .aborted => ∀ rows, (some i, rows) ∉ commits

/-- **Commits are serial**: a guarded transaction commits what it writes alone on the commits before it. -/
def Serial (catalog : Catalog τ ρ) (prog : ι → Transaction τ ρ ω) : List (Option ι × List ρ) → Prop
  | [] => True
  | (none, _) :: older => older = []
  | (some i, rows) :: older =>
      ((prog i).Guarded [] → ∃ out, (prog i).alone catalog (committedRows older) [] = some (rows, out))
        ∧ Serial catalog prog older

/-- Client `i` holds the table exclusively. -/
def Holds (s : System ι τ ρ ω) (i : ι) (table : τ) : Prop := (i, table, .exclusive) ∈ s.locks

omit [DecidableEq τ] in
@[simp] theorem holds_setPhase {j : ι} {phase : Phase τ ρ ω} : (s.setPhase i phase).Holds j = s.Holds j := rfl

structure Inv (catalog : Catalog τ ρ) (prog : ι → Transaction τ ρ ω) (s : System ι τ ρ ω) : Prop where
  good : ∀ i, Good catalog (prog i) i s.commits (s.written i) (s.Holds i) (s.phase i)
  serial : Serial catalog prog s.commits
  /-- Locks that conflict are of one client. -/
  compatible : ∀ l ∈ s.locks, ∀ l' ∈ s.locks, l.2.1 = l'.2.1 → l.2.2.conflicts l'.2.2 = true → l.1 = l'.1
  /-- A row that is not committed yet has its table locked. -/
  covered : ∀ w ∈ s.pending, (w.1, catalog.table w.2, .rowExclusive) ∈ s.locks

/-- Before the first step nobody has done anything. -/
theorem inv_initial (prog : ι → Transaction τ ρ ω) (rows : List ρ) : Inv catalog prog (initial prog rows) where
  good i := by
    refine ⟨by simp [initial], fun hguarded => ⟨[], by simp, hguarded, fun _ _ => rfl⟩⟩
  serial := rfl
  compatible := by simp [initial]
  covered := by simp [initial]

omit [DecidableEq ι] in
/-- What other clients do leaves a client good: they commit no row of a table that it holds. -/
theorem Good.frame {prog : Transaction τ ρ ω} {commits : List (Option ι × List ρ)} {written : List ρ}
    {holds holds' : τ → Prop} {phase : Phase τ ρ ω} (h : Good catalog prog i commits written holds phase)
    (new : List (Option ι × List ρ)) (hholds : ∀ t, holds t → holds' t) (hnew : ∀ rows, (some i, rows) ∉ new)
    (huntouched : ∀ t, holds t → ∀ e ∈ new, ∀ r ∈ e.2, catalog.table r ≠ t) :
    Good catalog prog i (new ++ commits) written holds' phase := by
  have hout : (∀ rows, (some i, rows) ∉ commits) → ∀ rows, (some i, rows) ∉ new ++ commits := by
    intro hno rows hmem
    rcases List.mem_append.mp hmem with hmem | hmem
    · exact hnew rows hmem
    · exact hno rows hmem
  cases phase with
  | running tx =>
      refine ⟨hout h.1, ?_⟩
      intro hguarded
      obtain ⟨held, hheld, htx, halone⟩ := h.2 hguarded
      refine ⟨held, fun t ht => hholds t (hheld t ht), htx, ?_⟩
      intro rows hrows
      exact halone rows fun t ht => (hrows t ht).trans (sameRows_of_untouched (huntouched t (hheld t ht)))
  | aborted => exact hout h
  | returned how out =>
      cases how with
      | committed =>
          obtain ⟨older, rows, hsuffix, halone⟩ := h
          exact ⟨older, rows, hsuffix.trans (List.suffix_append _ _), halone⟩
      | rolledBack => exact hout h
      | failed => trivial

/-- A client that only moves on keeps the invariant. -/
theorem Inv.setPhase (h : Inv catalog prog s) {phase : Phase τ ρ ω}
    (hphase : Good catalog (prog i) i s.commits (s.written i) (s.Holds i) phase) :
    Inv catalog prog (s.setPhase i phase) where
  good j := by
    by_cases hj : j = i
    · subst hj
      simpa using hphase
    · simpa [hj] using h.good j
  serial := h.serial
  compatible := h.compatible
  covered := h.covered

/-- Locks that are granted conflict with no lock of another client. -/
theorem Inv.acquire (h : Inv catalog prog s) (locks : List (τ × LockMode))
    (hgrants : ∀ lock ∈ locks, s.grants i lock = true) :
    Inv catalog prog { s with locks := locks.map (fun lock => (i, lock)) ++ s.locks } where
  good j := (h.good j).frame [] (fun t ht => List.mem_append_right _ ht) (by simp) (by simp)
  serial := h.serial
  compatible := by
    have hnew : ∀ lock ∈ locks, ∀ l ∈ s.locks, l.2.1 = lock.1 → l.2.2.conflicts lock.2 = true → l.1 = i := by
      intro lock hlock l hl htable hconflicts
      have hfree := List.all_eq_true.mp (hgrants lock hlock) l hl
      simpa [htable, hconflicts] using hfree
    intro l hl l' hl' htable hconflicts
    rcases List.mem_append.mp hl with hl | hl
    · obtain ⟨lock, hlock, rfl⟩ := List.mem_map.mp hl
      rcases List.mem_append.mp hl' with hl' | hl'
      · obtain ⟨lock', -, rfl⟩ := List.mem_map.mp hl'
        rfl
      · rw [LockMode.conflicts_comm] at hconflicts
        exact (hnew lock hlock l' hl' htable.symm hconflicts).symm
    · rcases List.mem_append.mp hl' with hl' | hl'
      · obtain ⟨lock', hlock', rfl⟩ := List.mem_map.mp hl'
        exact hnew lock' hlock' l hl htable hconflicts
      · exact h.compatible l hl l' hl' htable hconflicts
  covered w hw := List.mem_append_right _ (h.covered w hw)

/-- A client writes a row of a table that it has locked. -/
theorem Inv.write (h : Inv catalog prog s) {row : ρ} (hlock : (i, catalog.table row, .rowExclusive) ∈ s.locks)
    {phase : Phase τ ρ ω}
    (hphase : Good catalog (prog i) i s.commits (s.written i ++ [row]) (s.Holds i) phase) :
    Inv catalog prog ({ s with pending := s.pending ++ [(i, row)] }.setPhase i phase) where
  good j := by
    by_cases hj : j = i
    · subst hj
      rw [phase_setPhase_self, written_setPhase, written_append_self]
      exact hphase
    · rw [phase_setPhase_of_ne hj, written_setPhase, written_append_of_ne s row hj]
      exact h.good j
  serial := h.serial
  compatible := h.compatible
  covered := by
    intro w hw
    rcases List.mem_append.mp hw with hw | hw
    · exact h.covered w hw
    · obtain rfl := List.mem_singleton.mp hw
      exact hlock

/-- Everything that `i` has written is in a table that no other client holds. -/
theorem Inv.not_holds_of_written (h : Inv catalog prog s) {r : ρ} (hr : r ∈ s.written i) {j : ι} (hj : j ≠ i) :
    ¬s.Holds j (catalog.table r) := by
  intro hholds
  obtain ⟨w, hw, rfl⟩ := List.mem_map.mp hr
  obtain ⟨hw, hown⟩ := List.mem_filter.mp hw
  have hlocked := h.covered w hw
  rw [of_decide_eq_true hown] at hlocked
  exact hj (h.compatible _ hholds _ hlocked rfl rfl)

/-- A transaction ends; `new` is what it commits. -/
theorem Inv.leave (h : Inv catalog prog s) (new : List (Option ι × List ρ)) {phase : Phase τ ρ ω}
    (hnew : ∀ e ∈ new, e.1 = some i ∧ ∀ r ∈ e.2, r ∈ s.written i)
    (hserial : Serial catalog prog (new ++ s.commits))
    (hphase : ∀ written holds, Good catalog (prog i) i (new ++ s.commits) written holds phase) :
    Inv catalog prog ({ s with commits := new ++ s.commits }.leave i phase) where
  good j := by
    by_cases hj : j = i
    · subst hj
      simpa using hphase _ _
    · rw [phase_leave_of_ne hj, written_leave_of_ne hj]
      refine (h.good j).frame new ?_ ?_ ?_
      · intro t ht
        exact List.mem_filter.mpr ⟨ht, by simpa using hj⟩
      · intro rows hmem
        exact hj (Option.some.inj (hnew _ hmem).1)
      · rintro t ht e he r hr rfl
        exact h.not_holds_of_written ((hnew e he).2 r hr) hj ht
  serial := hserial
  compatible l hl l' hl' := h.compatible l (List.mem_of_mem_filter hl) l' (List.mem_of_mem_filter hl')
  covered w hw := by
    obtain ⟨hw, hother⟩ := List.mem_filter.mp hw
    exact List.mem_filter.mpr ⟨h.covered w hw, hother⟩

/-- A client that ends without a commit leaves nothing. -/
theorem Inv.rollback (h : Inv catalog prog s) {phase : Phase τ ρ ω}
    (hphase : ∀ written holds, Good catalog (prog i) i s.commits written holds phase) :
    Inv catalog prog (s.leave i phase) :=
  h.leave [] (by simp) h.serial hphase

/-- **Every step keeps the invariant.** -/
theorem Inv.step (h : Inv catalog prog s) {a : Action} (hstep : s.step catalog i a = some s') :
    Inv catalog prog s' := by
  obtain ⟨tx, hphase, hmoves⟩ := step_cases hstep
  have hi := h.good i
  rw [hphase] at hi
  obtain ⟨hno, halone⟩ := hi
  cases hmoves with
  | start => exact h.setPhase ⟨hno, halone⟩
  | @lockTable failed table mode next hgrants =>
      refine (h.acquire [(table, mode)] (by simpa using hgrants)).setPhase ⟨hno, ?_⟩
      intro hguarded
      obtain ⟨held, hheld, htx, halone⟩ := halone hguarded
      refine ⟨_, ?_, htx, ?_⟩
      · intro t ht
        split at ht
        next hmode =>
          rcases List.mem_cons.mp ht with rfl | ht
          · exact hmode ▸ List.mem_cons_self
          · exact List.mem_cons_of_mem _ (hheld t ht)
        next => exact List.mem_cons_of_mem _ (hheld t ht)
      · intro rows hrows
        refine halone rows fun t ht => hrows t ?_
        split
        next => exact List.mem_cons_of_mem _ ht
        next => exact ht
  | @selectExists failed table condition next =>
      refine h.setPhase ⟨hno, ?_⟩
      intro hguarded
      obtain ⟨held, hheld, ⟨htable, htx⟩, halone⟩ := halone hguarded
      refine ⟨held, hheld, htx _, ?_⟩
      intro rows hrows
      rw [← halone rows hrows]
      show _ = (next (catalog.hasRow table condition (rows ++ s.written i))).alone catalog rows (s.written i)
      rw [hasRow_append_congr (hrows table htable)]
      rfl
  | @insert failed row next hgrants hcheck hcommitted hpending =>
      refine (h.acquire (insertLocks catalog row) hgrants).write List.mem_cons_self ⟨hno, ?_⟩
      intro hguarded
      obtain ⟨held, hheld, htx, halone⟩ := halone hguarded
      exact ⟨held, fun t ht => List.mem_append_right _ (hheld t ht), htx, halone⟩
  | @rollback tx phase hback =>
      refine h.rollback fun written holds => ?_
      cases hback with
      | abort => exact hno
      | fail => trivial
      | insertFails => trivial
      | finish => exact hno
  | @commit failed done phase hreturned =>
      -- the rows are written on the tables as they are now
      have hserial : (prog i).Guarded [] →
          (prog i).alone catalog (committedRows s.commits) [] = some (s.written i, done) := by
        intro hguarded
        obtain ⟨held, hheld, -, halone⟩ := halone hguarded
        exact (halone _ fun _ _ => rfl).symm
      refine h.leave [(some i, s.written i)] ?_ ⟨fun hguarded => ⟨done, hserial hguarded⟩, h.serial⟩ ?_
      · intro e he
        obtain rfl := List.mem_singleton.mp he
        exact ⟨rfl, fun r hr => hr⟩
      · intro written holds
        rcases hreturned with rfl | rfl
        · exact ⟨s.commits, s.written i, List.suffix_rfl, hserial⟩
        · trivial

/-- What every step keeps, every run keeps. -/
theorem run_invariant {P : System ι τ ρ ω → Prop}
    (hstep : ∀ s i a s', P s → s.step catalog i a = some s' → P s') (h : P s) (schedule : List (ι × Action)) :
    P (s.run catalog schedule) := by
  refine Machine.run_invariant ?_ h schedule
  intro s e h
  unfold advance
  cases hs : s.step catalog e.1 e.2 with
  | none => exact h
  | some s' => exact hstep s e.1 e.2 s' h hs

/-- **Every run keeps the invariant**, whatever the schedule. -/
theorem inv_run (prog : ι → Transaction τ ρ ω) (rows : List ρ) (schedule : List (ι × Action)) :
    Inv catalog prog ((initial prog rows).run catalog schedule) :=
  run_invariant (fun _ _ _ _ h hs => h.step hs) (inv_initial prog rows) schedule

/-! ## The commits -/

/-- The transaction of client `i` has committed. -/
def Committed (s : System ι τ ρ ω) (i : ι) : Prop := ∃ rows, (some i, rows) ∈ s.commits

/-- Who is told of a commit has committed. -/
theorem Inv.committed_of_returned (h : Inv catalog prog s) {out : ω}
    (hphase : s.phase i = .returned .committed out) : s.Committed i := by
  have hgood := h.good i
  rw [hphase] at hgood
  obtain ⟨older, rows, hsuffix, -⟩ := hgood
  exact ⟨rows, hsuffix.subset List.mem_cons_self⟩

/-- Who is cut off or gives up has not committed. -/
theorem Inv.not_committed (h : Inv catalog prog s)
    (hphase : s.phase i = .aborted ∨ ∃ out, s.phase i = .returned .rolledBack out) : ¬s.Committed i := by
  rintro ⟨rows, hmem⟩
  have hgood := h.good i
  rcases hphase with hphase | ⟨out, hphase⟩
  · rw [hphase] at hgood
    exact hgood rows hmem
  · rw [hphase] at hgood
    exact hgood rows hmem

/-- The commits are those of clients, on top of the first rows. -/
def BasedOn (rows : List ρ) (s : System ι τ ρ ω) : Prop :=
  ∃ new, s.commits = new ++ [(none, rows)] ∧ ∀ e ∈ new, ∃ i, e.1 = some i

/-- A step keeps the commits that there are. -/
theorem BasedOn.step {rows : List ρ} (h : s.BasedOn rows) {a : Action} (hstep : s.step catalog i a = some s') :
    s'.BasedOn rows := by
  obtain ⟨new, hcommits, hnew⟩ := h
  obtain ⟨tx, -, hmoves⟩ := step_cases hstep
  cases hmoves with
  | commit =>
      refine ⟨(some i, s.written i) :: new, congrArg _ hcommits, ?_⟩
      exact List.forall_mem_cons.mpr ⟨⟨i, rfl⟩, hnew⟩
  | start => exact ⟨new, hcommits, hnew⟩
  | lockTable => exact ⟨new, hcommits, hnew⟩
  | selectExists => exact ⟨new, hcommits, hnew⟩
  | insert => exact ⟨new, hcommits, hnew⟩
  | rollback => exact ⟨new, hcommits, hnew⟩

/-- **What is committed stays**: a run adds commits of clients to the first rows. -/
theorem basedOn_run (prog : ι → Transaction τ ρ ω) (rows : List ρ) (schedule : List (ι × Action)) :
    ((initial prog rows).run catalog schedule).BasedOn rows :=
  run_invariant (fun _ _ _ _ h hs => h.step hs) ⟨[], rfl, by simp⟩ schedule

omit [DecidableEq τ] [DecidableEq ι] in
theorem BasedOn.mem_cases {rows : List ρ} (h : s.BasedOn rows) {e : Option ι × List ρ} (he : e ∈ s.commits) :
    e = (none, rows) ∨ ∃ i, e.1 = some i := by
  obtain ⟨new, hcommits, hnew⟩ := h
  rw [hcommits] at he
  rcases List.mem_append.mp he with he | he
  · exact Or.inr (hnew e he)
  · exact Or.inl (List.mem_singleton.mp he)

omit [DecidableEq τ] [DecidableEq ι] in
/-- A commit of a client is on top of others. -/
theorem exists_suffix_of_mem {rows : List ρ} (h : (some i, rows) ∈ s.commits) :
    ∃ older, (some i, rows) :: older <:+ s.commits := by
  obtain ⟨new, older, hsplit⟩ := List.append_of_mem h
  exact ⟨older, new, hsplit.symm⟩

omit [DecidableEq τ] [DecidableEq ι] in
/-- Under every commit of a client are the first rows. -/
theorem BasedOn.suffix {rows₀ rows : List ρ} {older : List (Option ι × List ρ)} (h : s.BasedOn rows₀)
    (hsuffix : (some i, rows) :: older <:+ s.commits) : [(none, rows₀)] <:+ older := by
  obtain ⟨new, hcommits, -⟩ := h
  have hbase : [(none, rows₀)] <:+ s.commits := ⟨new, hcommits.symm⟩
  have hunder := List.suffix_of_suffix_length_le hbase hsuffix (by simp)
  rcases List.suffix_cons_iff.mp hunder with heq | hunder
  · cases heq
  · exact hunder

omit [DecidableEq ι] in
/-- What a guarded transaction committed, it writes alone on the commits before. -/
theorem Serial.of_suffix {commits older : List (Option ι × List ρ)} (h : Serial catalog prog commits)
    {rows : List ρ} (hsuffix : (some i, rows) :: older <:+ commits) (hguarded : (prog i).Guarded []) :
    ∃ out, (prog i).alone catalog (committedRows older) [] = some (rows, out) := by
  induction commits with
  | nil => cases List.suffix_nil.mp hsuffix
  | cons e commits ih =>
      rcases List.suffix_cons_iff.mp hsuffix with heq | hsuffix
      · obtain ⟨rfl, rfl⟩ := List.cons.inj heq
        exact h.1 hguarded
      · refine ih ?_ hsuffix
        obtain ⟨client, rows'⟩ := e
        cases client with
        | none =>
            obtain rfl : commits = [] := h
            trivial
        | some j => exact h.2

/-! ## The constraints -/

/-- All rows, committed or not. -/
def stored (s : System ι τ ρ ω) : List ρ := committedRows s.commits ++ s.pending.map Prod.snd

/-- The rows meet the constraints, also those that are not committed yet. -/
structure Constrained (catalog : Catalog τ ρ) (s : System ι τ ρ ω) : Prop where
  checked : ∀ r ∈ s.stored, catalog.schema.check r = true
  unique : s.stored.Pairwise fun r r' => catalog.schema.distinct r r' = true

omit [DecidableEq τ] [DecidableEq ι] in
/-- Some of the rows meet the constraints if all do. -/
theorem Constrained.of_sublist (h : Constrained catalog s) (hsub : s'.stored.Sublist s.stored) :
    Constrained catalog s' :=
  ⟨fun r hr => h.checked r (hsub.subset hr), h.unique.sublist hsub⟩

omit [DecidableEq τ] [DecidableEq ι] in
theorem Constrained.of_perm (h : Constrained catalog s) (hperm : s'.stored.Perm s.stored) :
    Constrained catalog s' :=
  ⟨fun r hr => h.checked r (hperm.subset hr),
    (hperm.pairwise_iff fun {r r'} hr => (catalog.schema.distinct_comm r' r).trans hr).mpr h.unique⟩

omit [DecidableEq τ] in
/-- A commit moves the rows of its transaction, and no others. -/
theorem stored_publish_leave (s : System ι τ ρ ω) (i : ι) (phase : Phase τ ρ ω) :
    ((s.publish i).leave i phase).stored.Perm s.stored := by
  have hsplit : (s.written i ++ (s.pending.filter fun w => w.1 ≠ i).map Prod.snd).Perm
      (s.pending.map Prod.snd) := by
    unfold written
    rw [← List.map_append]
    refine List.Perm.map _ ?_
    have hperm := List.filter_append_perm (fun w : ι × ρ => decide (w.1 = i)) s.pending
    simpa using hperm
  show (committedRows s.commits ++ s.written i ++ _).Perm _
  rw [List.append_assoc]
  exact hsplit.append_left _

/-- **Every step keeps the constraints.** -/
theorem Constrained.step (h : Constrained catalog s) {a : Action} (hstep : s.step catalog i a = some s') :
    Constrained catalog s' := by
  obtain ⟨tx, hphase, hmoves⟩ := step_cases hstep
  cases hmoves with
  | start => exact h.of_sublist (List.Sublist.refl _)
  | lockTable => exact h.of_sublist (List.Sublist.refl _)
  | selectExists => exact h.of_sublist (List.Sublist.refl _)
  | @insert failed row next hgrants hcheck hcommitted hpending =>
      have hnew : ∀ r ∈ s.stored, catalog.schema.distinct r row = true := by
        intro r hr
        rcases List.mem_append.mp hr with hr | hr
        · exact hcommitted r hr
        · obtain ⟨w, hw, rfl⟩ := List.mem_map.mp hr
          exact hpending w hw
      have hstored : (({ s with
          pending := s.pending ++ [(i, row)]
          locks := (insertLocks catalog row).map (fun lock => (i, lock)) ++ s.locks } : System ι τ ρ ω).setPhase i
            (.running next)).stored = s.stored ++ [row] := by
        show committedRows s.commits ++ (s.pending ++ [(i, row)]).map Prod.snd = _
        rw [List.map_append, ← List.append_assoc]
        rfl
      constructor
      · rw [hstored]
        intro r hr
        rcases List.mem_append.mp hr with hr | hr
        · exact h.checked r hr
        · rw [List.mem_singleton.mp hr]
          exact hcheck
      · rw [hstored]
        refine List.pairwise_append.mpr ⟨h.unique, List.pairwise_singleton _ _, ?_⟩
        intro r hr r' hr'
        rw [List.mem_singleton.mp hr']
        exact hnew r hr
  | rollback => exact h.of_sublist ((List.filter_sublist.map _).append_left _)
  | commit => exact h.of_perm (stored_publish_leave s i _)

/-- **Every run keeps the constraints**, whatever the schedule. -/
theorem constrained_run (prog : ι → Transaction τ ρ ω) {rows : List ρ}
    (hcheck : ∀ r ∈ rows, catalog.schema.check r = true)
    (hunique : rows.Pairwise fun r r' => catalog.schema.distinct r r' = true) (schedule : List (ι × Action)) :
    Constrained catalog ((initial prog rows).run catalog schedule) := by
  have hstored : (initial prog rows).stored = rows := by simp [initial, stored, committedRows]
  have hinitial : Constrained catalog (initial prog rows) := ⟨by rwa [hstored], by rwa [hstored]⟩
  exact run_invariant (fun _ _ _ _ h hs => h.step hs) hinitial schedule

end System
end TableLock
