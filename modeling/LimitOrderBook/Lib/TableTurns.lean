import LimitOrderBook.Lib.RowTurns
import LimitOrderBook.Lib.TableLock

/-!
# `Lib.TableTurns` — transactions on tables take turns

`Lib.TableLock` shows what is committed by transactions that insert rows. This module adds what the clients are told:
it instantiates `Lib.Turns`, so that any schedule is explained by the transactions in one moment each, in the order in
which their clients returned.

* **A transaction in one moment.** `atOnce` runs a transaction on the committed rows with the constraints that a row
  must meet (`Catalog.refuses`), and `Serves` is a turn: answered, failed, or with the answer to its commit lost.
* **A client on its way.** `Follows` is the invariant of a client: the rest of its transaction ends as the whole one
  does at once, on any rows that the committed ones may become until then (`Extends`). The rows of a table that it
  has locked exclusively stay, and no row joins that shares a key with what it has written.
* **Every run.** `Underway.step` shows that a step keeps all clients on their way and is a turn, or nothing to those
  who wait for answers; `System.explains_schedule` is the result for every schedule.
-/

namespace TableLock

open RowLock (Action Ending)

variable {ι τ ρ ω : Type} [DecidableEq τ]

/-! ## A transaction in one moment -/

/-- Why a row cannot join the rows, if it cannot. -/
def Catalog.refuses (catalog : Catalog τ ρ) (rows : List ρ) (row : ρ) : Option Failure :=
  if catalog.schema.check row = false then some .other
  else if rows.any (fun r => !catalog.schema.distinct r row) then some .unique
  else if (catalog.references row).any (fun r => !catalog.hasRow r.1 r.2 rows) then some .other
  else none

namespace Transaction

/-- What the transaction commits, if it does, and what its client returns, on the committed rows `rows` after
    writing `written`, when all is over in one moment. -/
def atOnce (catalog : Catalog τ ρ) : Transaction τ ρ ω → List ρ → List ρ → Option (List ρ) × ω
  | .start _ next, rows, written => atOnce catalog next rows written
  | .lockTable _ _ _ next, rows, written => atOnce catalog next rows written
  | .selectExists _ table condition next, rows, written =>
      atOnce catalog (next (catalog.hasRow table condition (rows ++ written))) rows written
  | .insert failed row next, rows, written =>
      match catalog.refuses (rows ++ written) row with
      | some why => (none, failed why)
      | none => atOnce catalog next rows (written ++ [row])
  | .commit _ done, _, written => (some written, done)
  | .finish out, _, _ => (none, out)

/-- The client returns `out` when one of its statements fails. -/
def Fails : Transaction τ ρ ω → ω → Prop
  | .start failed next, out => out = failed ∨ Fails next out
  | .lockTable failed _ _ next, out => out = failed ∨ Fails next out
  | .selectExists failed _ _ next, out => out = failed ∨ ∃ answer, Fails (next answer) out
  | .insert failed _ next, out => out = failed .other ∨ Fails next out
  | .commit failed _, out => out = failed
  | .finish _, _ => False

/-- **One turn** on the rows of the clients before: the rows behind it, and what the client returns. -/
inductive Serves (catalog : Catalog τ ρ) (tx : Transaction τ ρ ω) (rows : List ρ) : Delivery → List ρ → ω → Prop
  | answered {new : Option (List ρ)} {out : ω} (h : tx.atOnce catalog rows [] = (new, out)) :
      Serves catalog tx rows .answered (rows ++ new.getD []) out
  | failed {out : ω} (h : tx.Fails out) : Serves catalog tx rows .failed rows out
  | answerLost {new : List ρ} {out done : ω} (h : tx.atOnce catalog rows [] = (some new, done)) (hfails : tx.Fails out) :
      Serves catalog tx rows .answerLost (rows ++ new) out

/-- A turn that commits nothing leaves the rows as they are. -/
theorem serves_unchanged {catalog : Catalog τ ρ} {tx : Transaction τ ρ ω} {rows : List ρ} {out : ω}
    (h : tx.atOnce catalog rows [] = (none, out)) : tx.Serves catalog rows .answered rows out := by
  have hserves := Serves.answered h
  rw [Option.getD_none, List.append_nil] at hserves
  exact hserves

omit [DecidableEq τ] in
/-- What is returned when the next statement fails is returned when one does. -/
theorem fails_of_failed? {tx : Transaction τ ρ ω} {out : ω} (h : tx.failed? = some out) : tx.Fails out := by
  cases tx with
  | start failed next => exact Or.inl (Option.some.inj h).symm
  | lockTable failed table mode next => exact Or.inl (Option.some.inj h).symm
  | selectExists failed table condition next => exact Or.inl (Option.some.inj h).symm
  | insert failed row next => exact Or.inl (Option.some.inj h).symm
  | commit failed done => exact (Option.some.inj h).symm
  | finish out => cases h

section Shows

variable {υ ε α : Type} {catalog : Catalog τ ρ} {rows rows' : List ρ} {delivery : Delivery} {out : Except ε α}
  {Shows : List ρ → υ → Prop} {t : υ}

/-- A turn all of whose failures are reported as one is a write. -/
theorem Serves.write {tx : Transaction τ ρ (Except ε α)} (h : tx.Serves catalog rows delivery rows' out)
    (hshows : Shows rows t) {failed : ε} (hfails : ∀ out, tx.Fails out → out = .error failed)
    {done : υ × Except ε α}
    (hdone : ∀ new out, tx.atOnce catalog rows [] = (new, out) → done.2 = out ∧ Shows (rows ++ new.getD []) done.1) :
    (delivery.write failed t done).2 = out ∧ Shows rows' (delivery.write failed t done).1 := by
  cases h with
  | answered h => exact hdone _ _ h
  | failed hout =>
      obtain rfl := hfails _ hout
      exact ⟨rfl, hshows⟩
  | answerLost h hout =>
      obtain rfl := hfails _ hout
      exact ⟨rfl, (hdone _ _ h).2⟩

/-- A turn without a statement changes nothing. -/
theorem Serves.finish {out' : Except ε α}
    (h : (Transaction.finish out' : Transaction τ ρ _).Serves catalog rows delivery rows' out) (hshows : Shows rows t) :
    out' = out ∧ Shows rows' t := by
  cases h with
  | answered h =>
      obtain ⟨rfl, rfl⟩ := Prod.mk.inj h
      exact ⟨rfl, (List.append_nil rows).symm ▸ hshows⟩
  | failed hout => exact hout.elim
  | answerLost h hout => exact hout.elim

end Shows

end Transaction

section Refuses

variable {catalog : Catalog τ ρ} {rows rows' : List ρ} {row : ρ}

/-- A row may join if its checks hold, its keys are free and what it refers to is there. -/
theorem refuses_eq_none : catalog.refuses rows row = none
    ↔ catalog.schema.check row = true ∧ (∀ r ∈ rows, catalog.schema.distinct r row = true)
      ∧ ∀ r ∈ catalog.references row, catalog.hasRow r.1 r.2 rows = true := by
  unfold Catalog.refuses
  split
  next hcheck => simp [hcheck]
  next hcheck =>
    split
    next hkey =>
      simp only [reduceCtorEq, false_iff, not_and]
      intro _ hdistinct
      obtain ⟨r, hr, hshared⟩ := List.any_eq_true.mp hkey
      simp [hdistinct r hr] at hshared
    next hkey =>
      split
      next href =>
        simp only [reduceCtorEq, false_iff, not_and]
        intro _ _ hthere
        obtain ⟨r, hr, hmissing⟩ := List.any_eq_true.mp href
        simp [hthere r hr] at hmissing
      next href => simpa using ⟨by simpa using hcheck, by simpa using hkey, by simpa using href⟩

/-- What a query finds among some rows it finds among more. -/
theorem hasRow_mono {table : τ} {condition : ρ → Bool} (hmore : ∀ r ∈ rows, r ∈ rows')
    (h : catalog.hasRow table condition rows = true) : catalog.hasRow table condition rows' = true := by
  obtain ⟨r, hr, hcondition⟩ := List.any_eq_true.mp h
  exact List.any_eq_true.mpr ⟨r, hmore r hr, hcondition⟩

end Refuses

/-! ## A client on its way -/

/-- Rows that the committed ones may become while the client has written `written` and holds the tables `held`. -/
structure Extends (catalog : Catalog τ ρ) (held : List τ) (committed written rows : List ρ) : Prop where
  same : ∀ t ∈ held, SameRows catalog t rows committed
  grown : ∀ r ∈ committed, r ∈ rows
  distinct : ∀ r ∈ rows, ∀ w ∈ written, catalog.schema.distinct r w = true

/-- The rest of a client's transaction ends as the whole transaction does at once, whatever the others commit. -/
def Follows (catalog : Catalog τ ρ) (prog : Transaction τ ρ ω) (committed written : List ρ) (holds : τ → Prop)
    (rest : Transaction τ ρ ω) : Prop :=
  (∀ out, rest.Fails out → prog.Fails out) ∧ ∃ held : List τ, (∀ t ∈ held, holds t) ∧ rest.Guarded held
    ∧ ∀ rows, Extends catalog held committed written rows →
        rest.atOnce catalog rows written = prog.atOnce catalog rows []

section Follows

variable {catalog : Catalog τ ρ} {prog rest : Transaction τ ρ ω} {committed written : List ρ}
  {holds holds' : τ → Prop}

/-- What others commit leaves a client on its way: they commit no row of a table that it holds. -/
theorem Follows.frame (h : Follows catalog prog committed written holds rest) (new : List ρ)
    (hholds : ∀ t, holds t → holds' t) (huntouched : ∀ t, holds t → ∀ r ∈ new, catalog.table r ≠ t) :
    Follows catalog prog (committed ++ new) written holds' rest := by
  obtain ⟨hfail, held, hheld, hguarded, hends⟩ := h
  refine ⟨hfail, held, fun t ht => hholds t (hheld t ht), hguarded, ?_⟩
  intro rows hrows
  apply hends
  refine ⟨?_, fun r hr => hrows.grown r (List.mem_append_left _ hr), hrows.distinct⟩
  intro t ht
  apply (hrows.same t ht).trans
  have hnone : new.filter (fun r => catalog.table r = t) = [] := by
    rw [List.filter_eq_nil_iff]
    intro r hr
    simpa using huntouched t (hheld t ht) r hr
  rw [List.filter_append, hnone, List.append_nil]

/-- A statement that only begins leaves a client on its way. -/
theorem Follows.start {failed : ω} {next : Transaction τ ρ ω}
    (h : Follows catalog prog committed written holds (.start failed next)) :
    Follows catalog prog committed written holds next := by
  obtain ⟨hfail, held, hheld, hguarded, hends⟩ := h
  exact ⟨fun out hout => hfail out (Or.inr hout), held, hheld, hguarded, hends⟩

/-- So does a lock: from now on its table is held. -/
theorem Follows.lockTable {failed : ω} {table : τ} {mode : LockMode} {next : Transaction τ ρ ω}
    (h : Follows catalog prog committed written holds (.lockTable failed table mode next))
    (hholds : ∀ t, holds t → holds' t) (hlock : mode = .exclusive → holds' table) :
    Follows catalog prog committed written holds' next := by
  obtain ⟨hfail, held, hheld, hguarded, hends⟩ := h
  have hmore : ∀ t ∈ held, t ∈ if mode = .exclusive then table :: held else held := by
    intro t ht
    split
    next => exact List.mem_cons_of_mem _ ht
    next => exact ht
  refine ⟨fun out hout => hfail out (Or.inr hout), _, ?_, hguarded, ?_⟩
  · intro t ht
    split at ht
    next hmode =>
      rcases List.mem_cons.mp ht with rfl | ht
      · exact hlock hmode
      · exact hholds t (hheld t ht)
    next => exact hholds t (hheld t ht)
  · intro rows hrows
    exact hends rows ⟨fun t ht => hrows.same t (hmore t ht), hrows.grown, hrows.distinct⟩

/-- So does a query: its table is held, so the answer is still right at the end. -/
theorem Follows.selectExists {failed : ω} {table : τ} {condition : ρ → Bool} {next : Bool → Transaction τ ρ ω}
    (h : Follows catalog prog committed written holds (.selectExists failed table condition next)) :
    Follows catalog prog committed written holds
      (next (catalog.hasRow table condition (committed ++ written))) := by
  obtain ⟨hfail, held, hheld, ⟨htable, hguarded⟩, hends⟩ := h
  refine ⟨fun out hout => hfail out (Or.inr ⟨_, hout⟩), held, hheld, hguarded _, ?_⟩
  intro rows hrows
  rw [← hends rows hrows]
  show _ = (next (catalog.hasRow table condition (rows ++ written))).atOnce catalog rows written
  rw [hasRow_append_congr (hrows.same table htable)]

/-- So does an insert: what did not refuse the row now does not refuse it at the end. -/
theorem Follows.insert {failed : Failure → ω} {row : ρ} {next : Transaction τ ρ ω}
    (h : Follows catalog prog committed written holds (.insert failed row next))
    (hholds : ∀ t, holds t → holds' t) (hrefuses : catalog.refuses (committed ++ written) row = none) :
    Follows catalog prog committed (written ++ [row]) holds' next := by
  obtain ⟨hfail, held, hheld, hguarded, hends⟩ := h
  obtain ⟨hcheck, hdistinct, hthere⟩ := refuses_eq_none.mp hrefuses
  refine ⟨fun out hout => hfail out (Or.inr hout), held, fun t ht => hholds t (hheld t ht), hguarded, ?_⟩
  intro rows hrows
  have hbefore : Extends catalog held committed written rows :=
    ⟨hrows.same, hrows.grown, fun r hr w hw => hrows.distinct r hr w (List.mem_append_left _ hw)⟩
  -- the row that went in goes in later, too
  have hlater : catalog.refuses (rows ++ written) row = none := by
    refine refuses_eq_none.mpr ⟨hcheck, ?_, ?_⟩
    · intro r hr
      rcases List.mem_append.mp hr with hr | hr
      · exact hrows.distinct r hr row (by simp)
      · exact hdistinct r (List.mem_append_right _ hr)
    · intro r hr
      refine hasRow_mono ?_ (hthere r hr)
      intro r' hr'
      rcases List.mem_append.mp hr' with hr' | hr'
      · exact List.mem_append_left _ (hrows.grown r' hr')
      · exact List.mem_append_right _ hr'
  rw [← hends rows hbefore, Transaction.atOnce, hlater]

end Follows

namespace System

variable [DecidableEq ι] {catalog : Catalog τ ρ} {prog : ι → Transaction τ ρ ω} {first : List ρ}
  {s s' : System ι τ ρ ω} {i : ι}

/-- **What a step can do**, with why an insert is refused and with what happens to the statement. -/
inductive Goes (catalog : Catalog τ ρ) (s : System ι τ ρ ω) (i : ι) :
    Transaction τ ρ ω → Action → System ι τ ρ ω → Prop
  | start {failed : ω} {next : Transaction τ ρ ω} :
      Goes catalog s i (.start failed next) .proceed (s.setPhase i (.running next))
  | lockTable {failed : ω} {table : τ} {mode : LockMode} {next : Transaction τ ρ ω} :
      Goes catalog s i (.lockTable failed table mode next) .proceed
        ({ s with locks := (i, table, mode) :: s.locks }.setPhase i (.running next))
  | selectExists {failed : ω} {table : τ} {condition : ρ → Bool} {next : Bool → Transaction τ ρ ω} :
      Goes catalog s i (.selectExists failed table condition next) .proceed
        (s.setPhase i (.running (next (catalog.hasRow table condition (s.visible i)))))
  | insert {failed : Failure → ω} {row : ρ} {next : Transaction τ ρ ω} (locks : List (ι × τ × LockMode))
      (h : catalog.refuses (s.visible i) row = none) :
      Goes catalog s i (.insert failed row next) .proceed
        ({ s with pending := s.pending ++ [(i, row)], locks := locks ++ s.locks }.setPhase i (.running next))
  | refused {failed : Failure → ω} {row : ρ} {next : Transaction τ ρ ω} {why : Failure}
      (h : catalog.refuses (s.visible i) row = some why) :
      Goes catalog s i (.insert failed row next) .proceed (s.leave i (.returned .failed (failed why)))
  | commit {failed done : ω} :
      Goes catalog s i (.commit failed done) .proceed ((s.publish i).leave i (.returned .committed done))
  | finish {out : ω} : Goes catalog s i (.finish out) .proceed (s.leave i (.returned .rolledBack out))
  | loseAnswer {failed done : ω} :
      Goes catalog s i (.commit failed done) .loseAnswer ((s.publish i).leave i (.returned .failed failed))
  | fail {tx : Transaction τ ρ ω} {out : ω} (h : tx.failed? = some out) :
      Goes catalog s i tx .fail (s.leave i (.returned .failed out))
  | abort {tx : Transaction τ ρ ω} : Goes catalog s i tx .abort (s.leave i .aborted)

/-- An insert whose locks are granted is refused, or the row goes in. -/
theorem insertRow_refuses {failed : Failure → ω} {row : ρ} {next : Transaction τ ρ ω}
    (h : s.insertRow catalog i failed row next = some s') :
    (∃ why, catalog.refuses (s.visible i) row = some why ∧ s' = s.leave i (.returned .failed (failed why)))
      ∨ catalog.refuses (s.visible i) row = none
        ∧ s' = { s with pending := s.pending ++ [(i, row)] }.setPhase i (.running next) := by
  unfold insertRow at h
  unfold Catalog.refuses
  split at h
  next hcheck =>
    rw [if_pos hcheck]
    exact Or.inl ⟨.other, rfl, (Option.some.inj h).symm⟩
  next hcheck =>
    rw [if_neg hcheck]
    split at h
    next hkey =>
      rw [if_pos hkey]
      exact Or.inl ⟨.unique, rfl, (Option.some.inj h).symm⟩
    next hkey =>
      rw [if_neg hkey]
      split at h
      next => cases h
      next =>
        split at h
        next href =>
          rw [if_pos href]
          exact Or.inl ⟨.other, rfl, (Option.some.inj h).symm⟩
        next href =>
          rw [if_neg href]
          exact Or.inr ⟨rfl, (Option.some.inj h).symm⟩

/-- **What a step can do**, with the statement that it is about. -/
theorem step_goes {a : Action} (h : s.step catalog i a = some s') :
    ∃ tx, s.phase i = .running tx ∧ Goes catalog s i tx a s' := by
  unfold step at h
  split at h
  next tx hphase =>
    refine ⟨tx, hphase, ?_⟩
    cases a with
    | abort =>
        obtain rfl := Option.some.inj h
        exact .abort
    | fail =>
        obtain ⟨out, hout, rfl⟩ := Option.map_eq_some_iff.mp h
        exact .fail hout
    | loseAnswer =>
        cases tx with
        | commit failed done =>
            obtain rfl := Option.some.inj h
            exact .loseAnswer
        | start => cases h
        | lockTable => cases h
        | selectExists => cases h
        | insert => cases h
        | finish => cases h
    | proceed =>
        cases tx with
        | start failed next =>
            obtain rfl := Option.some.inj h
            exact .start
        | lockTable failed table mode next =>
            obtain ⟨s₁, hacquire, rfl⟩ := Option.map_eq_some_iff.mp h
            obtain ⟨-, rfl⟩ := of_acquire hacquire
            exact .lockTable
        | selectExists failed table condition next =>
            obtain rfl := Option.some.inj h
            exact .selectExists
        | insert failed row next =>
            obtain ⟨s₁, hacquire, hinsert⟩ := Option.bind_eq_some_iff.mp h
            obtain ⟨-, rfl⟩ := of_acquire hacquire
            rcases insertRow_refuses hinsert with ⟨why, hwhy, rfl⟩ | ⟨hnone, rfl⟩
            · rw [leave_acquired]
              exact .refused hwhy
            · exact .insert _ hnone
        | commit failed done =>
            obtain rfl := Option.some.inj h
            exact .commit
        | finish out =>
            obtain rfl := Option.some.inj h
            exact .finish
  next => cases h

/-! ## All clients -/

/-- The clients that have not returned are on their way. -/
structure Underway (catalog : Catalog τ ρ) (prog : ι → Transaction τ ρ ω) (s : System ι τ ρ ω) : Prop where
  inv : Inv catalog prog s
  constrained : Constrained catalog s
  follows : ∀ i tx, s.phase i = .running tx →
    Follows catalog (prog i) (committedRows s.commits) (s.written i) (s.Holds i) tx

/-- A client moves on: the others stay on their way. -/
theorem Underway.moved (h : Underway catalog prog s) {next : Transaction τ ρ ω}
    (hphase' : s'.phase i = .running next) (hcommits : s'.commits = s.commits)
    (hothers : ∀ j, j ≠ i → s'.phase j = s.phase j ∧ s'.written j = s.written j ∧ ∀ t, s.Holds j t → s'.Holds j t)
    (hnext : Follows catalog (prog i) (committedRows s.commits) (s'.written i) (s'.Holds i) next) :
    ∀ j tx, s'.phase j = .running tx →
      Follows catalog (prog j) (committedRows s'.commits) (s'.written j) (s'.Holds j) tx := by
  intro j tx hrunning
  rw [hcommits]
  by_cases hj : j = i
  · subst hj
    rw [hphase'] at hrunning
    cases hrunning
    exact hnext
  · obtain ⟨hsame, hwritten, hholds⟩ := hothers j hj
    rw [hsame] at hrunning
    have hframe := (h.follows j tx hrunning).frame [] hholds (by simp)
    rw [List.append_nil] at hframe
    rw [hwritten]
    exact hframe

/-- A client ends, and commits `new`: the others stay on their way. -/
theorem Underway.left (h : Underway catalog prog s) {phase : Phase τ ρ ω} (hended : ∀ tx, phase ≠ .running tx)
    (commits' : List (Option ι × List ρ)) {new : List ρ} (hnew : ∀ r ∈ new, r ∈ s.written i)
    (hcommits : committedRows commits' = committedRows s.commits ++ new) :
    ∀ j tx, ({ s with commits := commits' }.leave i phase).phase j = .running tx →
      Follows catalog (prog j) (committedRows commits') (({ s with commits := commits' }.leave i phase).written j)
        (({ s with commits := commits' }.leave i phase).Holds j) tx := by
  intro j tx hrunning
  by_cases hj : j = i
  · subst hj
    rw [phase_leave_self] at hrunning
    exact absurd hrunning (hended tx)
  · rw [phase_leave_of_ne hj] at hrunning
    rw [hcommits, written_leave_of_ne hj]
    refine (h.follows j tx hrunning).frame new ?_ ?_
    · intro t ht
      exact List.mem_filter.mpr ⟨ht, by simpa using hj⟩
    · rintro t ht r hr rfl
      exact h.inv.not_holds_of_written (hnew r hr) hj ht

/-! ## What a step is to those who wait for answers -/

/-- A step is one turn, or nothing to those who wait. -/
def IsTurn (catalog : Catalog τ ρ) (prog : ι → Transaction τ ρ ω) (s s' : System ι τ ρ ω) (e : ι × Action) : Prop :=
  ∃ turn, Turns.Acts (fun i => (prog i).Serves catalog) s.answer (committedRows s.commits) turn s'.answer
      (committedRows s'.commits)
    ∧ ∀ t ∈ turn, RowLock.Tells e (t.1, t.2.1)

/-- A step that changes no answer and commits nothing is nothing to those who wait. -/
theorem isTurn_quiet (catalog : Catalog τ ρ) (prog : ι → Transaction τ ρ ω) (e : ι × Action)
    (hanswer : s'.answer = s.answer) (hcommits : s'.commits = s.commits) : IsTurn catalog prog s s' e := by
  unfold IsTurn
  rw [hanswer, hcommits]
  exact ⟨none, .quiet, by simp⟩

section Answer

variable {tx : Transaction τ ρ ω}

omit [DecidableEq τ] in
/-- A client that goes on is told nothing. -/
theorem answer_running {next : Transaction τ ρ ω} (hphase : s.phase i = .running tx)
    (hnext : s'.phase = Function.update s.phase i (.running next)) : s'.answer = s.answer := by
  funext j
  unfold answer
  rw [hnext]
  by_cases hj : j = i
  · subst hj
    rw [Function.update_self, hphase]
  · rw [Function.update_of_ne hj]

omit [DecidableEq τ] in
/-- Nor is one that is cut off. -/
theorem answer_aborted (hphase : s.phase i = .running tx) : (s.leave i .aborted).answer = s.answer := by
  funext j
  unfold answer
  by_cases hj : j = i
  · subst hj
    rw [phase_leave_self, hphase]
  · rw [phase_leave_of_ne hj]

omit [DecidableEq τ] in
/-- A client that ends has its answer, and the others have theirs. -/
theorem answer_returned (how : Ending) (out : ω) :
    (s.leave i (.returned how out)).answer = Function.update s.answer i (some out) := by
  funext j
  unfold answer
  by_cases hj : j = i
  · subst hj
    rw [phase_leave_self, Function.update_self]
  · rw [phase_leave_of_ne hj, Function.update_of_ne hj]

/-- A client that ends has its turn. -/
theorem isTurn_leave {a : Action} {delivery : Delivery} {out : ω} (hphase : s.phase i = .running tx)
    (commits' : List (Option ι × List ρ))
    (hserves : (prog i).Serves catalog (committedRows s.commits) delivery (committedRows commits') out)
    (htold : delivery = .answered ∨ a ≠ .proceed) (how : Ending) :
    IsTurn catalog prog s ({ s with commits := commits' }.leave i (.returned how out)) (i, a) := by
  have hnone : s.answer i = none := by
    unfold answer
    rw [hphase]
  have hanswer : ({ s with commits := commits' }.leave i (.returned how out)).answer
      = Function.update s.answer i (some out) := answer_returned how out
  unfold IsTurn
  rw [hanswer]
  refine ⟨some (i, delivery, out), .turn hnone hserves, ?_⟩
  rintro t ⟨⟩
  exact ⟨rfl, htold⟩

end Answer

/-! ## Every run -/

/-- What a client has written differs from what is committed. -/
theorem Constrained.extends_self (h : Constrained catalog s) (held : List τ) (i : ι) :
    Extends catalog held (committedRows s.commits) (s.written i) (committedRows s.commits) := by
  refine ⟨fun _ _ => rfl, fun _ hr => hr, ?_⟩
  intro r hr w hw
  obtain ⟨e, he, rfl⟩ := List.mem_map.mp hw
  exact (List.pairwise_append.mp h.unique).2.2 r hr e.2 (List.mem_map.mpr ⟨e, List.mem_of_mem_filter he, rfl⟩)

/-- The rest of a transaction, at once on the rows as they are, is the whole transaction. -/
theorem Underway.atOnce_eq (h : Underway catalog prog s) {tx : Transaction τ ρ ω} (hphase : s.phase i = .running tx) :
    (prog i).atOnce catalog (committedRows s.commits) []
      = tx.atOnce catalog (committedRows s.commits) (s.written i) := by
  obtain ⟨-, held, -, -, hends⟩ := h.follows i tx hphase
  exact (hends _ (h.constrained.extends_self held i)).symm

section Step

variable {tx : Transaction τ ρ ω} {a : Action}

/-- A client that goes on is told nothing, and all stay on their way. -/
theorem Underway.goesOn (h : Underway catalog prog s) (hstep : s.step catalog i a = some s')
    (hphase : s.phase i = .running tx) {next : Transaction τ ρ ω}
    (hnext : s'.phase = Function.update s.phase i (.running next)) (hcommits : s'.commits = s.commits)
    (hothers : ∀ j, j ≠ i → s'.phase j = s.phase j ∧ s'.written j = s.written j ∧ ∀ t, s.Holds j t → s'.Holds j t)
    (hfollows : Follows catalog (prog i) (committedRows s.commits) (s'.written i) (s'.Holds i) next) :
    Underway catalog prog s' ∧ IsTurn catalog prog s s' (i, a) := by
  have hrunning : s'.phase i = .running next := by rw [hnext, Function.update_self]
  exact ⟨⟨h.inv.step hstep, h.constrained.step hstep, h.moved hrunning hcommits hothers hfollows⟩,
    isTurn_quiet catalog prog _ (answer_running hphase hnext) hcommits⟩

/-- A client that ends without a commit has its turn, and the rows are as they were. -/
theorem Underway.rolledBack (h : Underway catalog prog s) {how : Ending} {out : ω}
    (hstep : s.step catalog i a = some (s.leave i (.returned how out))) (hphase : s.phase i = .running tx)
    {delivery : Delivery}
    (hserves : (prog i).Serves catalog (committedRows s.commits) delivery (committedRows s.commits) out)
    (htold : delivery = .answered ∨ a ≠ .proceed) :
    Underway catalog prog (s.leave i (.returned how out))
      ∧ IsTurn catalog prog s (s.leave i (.returned how out)) (i, a) := by
  have hnothing : ∀ r ∈ ([] : List ρ), r ∈ s.written i := by simp
  refine ⟨⟨h.inv.step hstep, h.constrained.step hstep, ?_⟩, isTurn_leave hphase s.commits hserves htold how⟩
  exact h.left (by simp) s.commits hnothing (List.append_nil _).symm

/-- A client that ends with its commit has its turn, and its rows are there. -/
theorem Underway.published (h : Underway catalog prog s) {how : Ending} {out : ω}
    (hstep : s.step catalog i a = some ((s.publish i).leave i (.returned how out))) (hphase : s.phase i = .running tx)
    {delivery : Delivery}
    (hserves : (prog i).Serves catalog (committedRows s.commits) delivery
      (committedRows s.commits ++ s.written i) out)
    (htold : delivery = .answered ∨ a ≠ .proceed) :
    Underway catalog prog ((s.publish i).leave i (.returned how out))
      ∧ IsTurn catalog prog s ((s.publish i).leave i (.returned how out)) (i, a) := by
  refine ⟨⟨h.inv.step hstep, h.constrained.step hstep, ?_⟩,
    isTurn_leave hphase (s.publish i).commits hserves htold how⟩
  exact h.left (by simp) (s.publish i).commits (fun _ hr => hr) rfl

end Step

/-- **Every step keeps the clients on their way**, and is a turn, or nothing to those who wait. -/
theorem Underway.step (h : Underway catalog prog s) {a : Action} (hstep : s.step catalog i a = some s') :
    Underway catalog prog s' ∧ IsTurn catalog prog s s' (i, a) := by
  obtain ⟨tx, hphase, hgoes⟩ := step_goes hstep
  have hfollows := h.follows i tx hphase
  have hnow := h.atOnce_eq hphase
  have hfails : ∀ out, tx.Fails out → (prog i).Fails out := hfollows.1
  cases hgoes with
  | @start failed next =>
      refine h.goesOn hstep hphase rfl rfl ?_ hfollows.start
      exact fun j hj => ⟨phase_setPhase_of_ne hj, rfl, fun _ ht => ht⟩
  | @lockTable failed table mode next =>
      refine h.goesOn hstep hphase rfl rfl ?_ (hfollows.lockTable ?_ ?_)
      · exact fun j hj => ⟨phase_setPhase_of_ne hj, rfl, fun _ ht => List.mem_cons_of_mem _ ht⟩
      · exact fun _ ht => List.mem_cons_of_mem _ ht
      · rintro rfl
        exact List.mem_cons_self
  | @selectExists failed table condition next =>
      refine h.goesOn hstep hphase rfl rfl ?_ hfollows.selectExists
      exact fun j hj => ⟨phase_setPhase_of_ne hj, rfl, fun _ ht => ht⟩
  | @insert failed row next locks hrefuses =>
      refine h.goesOn hstep hphase rfl rfl ?_ ?_
      · intro j hj
        refine ⟨phase_setPhase_of_ne hj, ?_, fun _ ht => List.mem_append_right _ ht⟩
        exact written_append_of_ne s row hj
      · have hwritten : ({ s with pending := s.pending ++ [(i, row)], locks := locks ++ s.locks }.setPhase i
            (.running next) : System ι τ ρ ω).written i = s.written i ++ [row] := written_append_self s i row
        rw [hwritten]
        exact hfollows.insert (fun _ ht => List.mem_append_right _ ht) hrefuses
  | @refused failed row next why hwhy =>
      have hrefused : (prog i).atOnce catalog (committedRows s.commits) [] = (none, failed why) := by
        have hvisible : catalog.refuses (committedRows s.commits ++ s.written i) row = some why := hwhy
        rw [hnow, Transaction.atOnce, hvisible]
      exact h.rolledBack hstep hphase (Transaction.serves_unchanged hrefused) (Or.inl rfl)
  | finish => exact h.rolledBack hstep hphase (Transaction.serves_unchanged hnow) (Or.inl rfl)
  | commit => exact h.published hstep hphase (.answered hnow) (Or.inl rfl)
  | @loseAnswer failed done =>
      exact h.published hstep hphase (.answerLost hnow (hfails failed rfl)) (Or.inr (by decide))
  | fail hout =>
      exact h.rolledBack hstep hphase (.failed (hfails _ (Transaction.fails_of_failed? hout))) (Or.inr (by decide))
  | abort =>
      have hnothing : ∀ r ∈ ([] : List ρ), r ∈ s.written i := by simp
      exact ⟨⟨h.inv.step hstep, h.constrained.step hstep, h.left (by simp) s.commits hnothing (List.append_nil _).symm⟩,
        isTurn_quiet catalog prog _ (answer_aborted hphase) rfl⟩

end System
end TableLock
