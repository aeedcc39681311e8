import Mathlib.Logic.Function.Basic
import Mathlib.Data.List.Infix
import LimitOrderBook.Lib.Machine

/-!
# `Lib.RowLock` — concurrent transactions on one row

A transaction is the sequence of statements it sends, each with what the client does on the answer. Any
number of clients run theirs against one row; a schedule says whose statement comes next and whether it
fails, loses its answer or is cut off. The database holds a row lock until the transaction ends, reads the
newest committed version under it, and forgets the writes of a transaction that does not commit.

`step` is the only place where the database decides, and `step_cases` says once what a step can do. `Inv` has three
parts: the versions are `Serial`, a row that is locked is there, and every client is `Good`, that is, the rest of its
transaction ends on the newest version as the whole transaction does alone. A client without the lock has not looked
at a row yet, so a version that another client commits does not disturb it (`Good.frame`).

The main result is `inv_run`: in every schedule the commits are serial, and every committed version is what the
transaction that committed it writes when it runs alone on the version before it. What the clients are told about it
is in `Lib.RowTurns`.
-/

namespace RowLock

/-! ## Transactions -/

/-- A transaction on a row of type `ρ` that returns an `ω`. The first argument of a statement is what the
    client returns when the statement fails. -/
inductive Transaction (ρ ω : Type) where
  | start (failed : ω) (next : Transaction ρ ω)
  | selectForUpdate (failed : ω) (next : Option ρ → Transaction ρ ω)
  | update (failed : ω) (write : ρ → ρ) (next : ρ → Transaction ρ ω)
  | commit (failed done : ω)
  /-- Return without a commit: the transaction is rolled back. -/
  | finish (out : ω)

variable {ι ρ ω : Type}

namespace Transaction

/-- What the client returns if the next statement fails. -/
def failed? : Transaction ρ ω → Option ω
  | .start failed _ => some failed
  | .selectForUpdate failed _ => some failed
  | .update failed _ _ => some failed
  | .commit failed _ => some failed
  | .finish _ => none

/-- The transaction run alone, without failures, on the committed row `row` after writing `written`: what
    it commits, if anything, and what it returns. -/
def alone : Transaction ρ ω → Option ρ → Option ρ → Option ρ × ω
  | .start _ next, row, written => alone next row written
  | .selectForUpdate _ next, row, written => alone (next (written <|> row)) row written
  | .update failed write next, row, written =>
      match written <|> row with
      | none => (none, failed)
      | some r => alone (next (write r)) row (some (write r))
  | .commit _ done, _, written => (written, done)
  | .finish out, _, _ => (none, out)

/-- The transaction returns `out` when one of its statements fails. -/
def Fails : Transaction ρ ω → ω → Prop
  | .start failed next, out => out = failed ∨ Fails next out
  | .selectForUpdate failed next, out => out = failed ∨ ∃ row, Fails (next row) out
  | .update failed _ next, out => out = failed ∨ ∃ r, Fails (next r) out
  | .commit failed _, out => out = failed
  | .finish _, _ => False

theorem fails_of_failed? {tx : Transaction ρ ω} {out : ω} (h : tx.failed? = some out) : tx.Fails out := by
  cases tx with
  | start failed next => exact Or.inl (Option.some.inj h).symm
  | selectForUpdate failed next => exact Or.inl (Option.some.inj h).symm
  | update failed write next => exact Or.inl (Option.some.inj h).symm
  | commit failed done => exact (Option.some.inj h).symm
  | finish out => cases h

end Transaction

/-! ## The database and its clients -/

/-- How a client that returned came to it. -/
inductive Ending where
  | committed
  | rolledBack
  | failed
deriving DecidableEq, Repr

/-- A client is running, with the rest of its transaction and its uncommitted write; or it returned; or it
    was cut off. -/
inductive Phase (ρ ω : Type) where
  | running (rest : Transaction ρ ω) (written : Option ρ)
  | returned (how : Ending) (out : ω)
  | aborted

/-- The committed versions of the row, the newest first, each with the client that committed it; the holder
    of the row lock; and the clients. -/
structure System (ι ρ ω : Type) where
  versions : List (Option ι × ρ)
  holder : Option ι
  phase : ι → Phase ρ ω

/-- What happens next to a client's statement. -/
inductive Action where
  | proceed
  | fail
  | loseAnswer
  | abort
deriving DecidableEq, Repr

/-- The newest of the versions. -/
def top (versions : List (Option ι × ρ)) : Option ρ := versions.head?.map Prod.snd

namespace System

variable [DecidableEq ι]

/-- Every client at the start of its transaction, on a row that is there or not. -/
def initial (prog : ι → Transaction ρ ω) (row : Option ρ) : System ι ρ ω :=
  ⟨(row.map fun r => (none, r)).toList, none, fun i => .running (prog i) none⟩

def setPhase (s : System ι ρ ω) (i : ι) (phase : Phase ρ ω) : System ι ρ ω :=
  { s with phase := Function.update s.phase i phase }

/-- A transaction that ends gives up its lock. -/
def leave (s : System ι ρ ω) (i : ι) (phase : Phase ρ ω) : System ι ρ ω :=
  { s.setPhase i phase with holder := if s.holder = some i then none else s.holder }

/-- A commit makes the write the newest version. -/
def publish (s : System ι ρ ω) (i : ι) (written : Option ρ) : System ι ρ ω :=
  { s with versions := (written.map fun r => (some i, r)).toList ++ s.versions }

/-- The statements that lock the row; they wait while another client holds it. -/
def lock (s : System ι ρ ω) (i : ι) : Option (System ι ρ ω) :=
  if s.holder = none ∨ s.holder = some i then some { s with holder := some i } else none

/-- The next statement of client `i`, with what happens to it. `none`: it cannot happen now. -/
def step (s : System ι ρ ω) (i : ι) (a : Action) : Option (System ι ρ ω) :=
  match s.phase i with
  | .running tx written =>
      match a with
      | .abort => some (s.leave i .aborted)
      | .fail => tx.failed?.map fun out => s.leave i (.returned .failed out)
      | .loseAnswer =>
          -- the commit took place, but the client is told that it failed
          match tx with
          | .commit failed _ => some ((s.publish i written).leave i (.returned .failed failed))
          | _ => none
      | .proceed =>
          match tx with
          | .start _ next => some (s.setPhase i (.running next written))
          | .selectForUpdate _ next =>
              match written <|> top s.versions with
              | none => some (s.setPhase i (.running (next none) written))
              | some r => (s.lock i).map fun s => s.setPhase i (.running (next (some r)) written)
          | .update failed write next =>
              match written <|> top s.versions with
              | none => some (s.leave i (.returned .failed failed))
              | some r =>
                  (s.lock i).map fun s => s.setPhase i (.running (next (write r)) (some (write r)))
          | .commit _ done => some ((s.publish i written).leave i (.returned .committed done))
          | .finish out => some (s.leave i (.returned .rolledBack out))
  | _ => none

/-- One entry of a schedule, and whether it could happen; what cannot happen is passed over. -/
def advance (s : System ι ρ ω) (e : ι × Action) : System ι ρ ω × Bool :=
  match s.step e.1 e.2 with
  | some s' => (s', true)
  | none => (s, false)

def run (s : System ι ρ ω) (schedule : List (ι × Action)) : System ι ρ ω :=
  (Machine.run advance s schedule).1

/-- What a client returned. -/
def answer (s : System ι ρ ω) (i : ι) : Option ω :=
  match s.phase i with
  | .returned _ out => some out
  | _ => none

/-! ## What a step can do -/

/-- How a transaction can end: what it publishes, and how the client is left. -/
inductive Leaves : Transaction ρ ω → Option ρ → Option ρ → Phase ρ ω → Prop
  | abort {tx : Transaction ρ ω} {written : Option ρ} : Leaves tx written none .aborted
  | fail {tx : Transaction ρ ω} {written : Option ρ} {out : ω} (h : tx.failed? = some out) :
      Leaves tx written none (.returned .failed out)
  | answerLost {failed done : ω} {written : Option ρ} :
      Leaves (.commit failed done) written written (.returned .failed failed)
  | commit {failed done : ω} {written : Option ρ} :
      Leaves (.commit failed done) written written (.returned .committed done)
  | finish {out : ω} {written : Option ρ} : Leaves (.finish out) written none (.returned .rolledBack out)

/-- **What a step can do** to the system, from the rest of the client's transaction and its write. -/
inductive Moves (s : System ι ρ ω) (i : ι) : Transaction ρ ω → Option ρ → System ι ρ ω → Prop
  | start {failed : ω} {next : Transaction ρ ω} {written : Option ρ} :
      Moves s i (.start failed next) written (s.setPhase i (.running next written))
  | selectMissing {failed : ω} {next : Option ρ → Transaction ρ ω} {written : Option ρ}
      (h : (written <|> top s.versions) = none) :
      Moves s i (.selectForUpdate failed next) written (s.setPhase i (.running (next none) written))
  | selectRow {failed : ω} {next : Option ρ → Transaction ρ ω} {written : Option ρ} {r : ρ}
      (h : (written <|> top s.versions) = some r) (hfree : s.holder = none ∨ s.holder = some i) :
      Moves s i (.selectForUpdate failed next) written
        ({ s with holder := some i }.setPhase i (.running (next (some r)) written))
  | updateRow {failed : ω} {write : ρ → ρ} {next : ρ → Transaction ρ ω} {written : Option ρ} {r : ρ}
      (h : (written <|> top s.versions) = some r) (hfree : s.holder = none ∨ s.holder = some i) :
      Moves s i (.update failed write next) written
        ({ s with holder := some i }.setPhase i (.running (next (write r)) (some (write r))))
  | leave {tx : Transaction ρ ω} {written published : Option ρ} {phase : Phase ρ ω}
      (h : Leaves tx written published phase) : Moves s i tx written ((s.publish i published).leave i phase)

/-- A lock that is granted was free or the client's own. -/
theorem of_lock {s s' : System ι ρ ω} {i : ι} (h : s.lock i = some s') :
    (s.holder = none ∨ s.holder = some i) ∧ s' = { s with holder := some i } := by
  unfold lock at h
  split at h
  · rename_i hfree
    exact ⟨hfree, (Option.some.inj h).symm⟩
  · cases h

/-- **What a step can do.** -/
theorem step_cases {s s' : System ι ρ ω} {i : ι} {a : Action} (h : s.step i a = some s') :
    ∃ tx written, s.phase i = .running tx written ∧ Moves s i tx written s' := by
  unfold step at h
  split at h
  · rename_i tx written hphase
    refine ⟨tx, written, hphase, ?_⟩
    cases a with
    | abort =>
        obtain rfl := Option.some.inj h
        exact .leave .abort
    | fail =>
        obtain ⟨out, hout, rfl⟩ := Option.map_eq_some_iff.mp h
        exact .leave (.fail hout)
    | loseAnswer =>
        cases tx with
        | commit failed done =>
            obtain rfl := Option.some.inj h
            exact .leave .answerLost
        | start => cases h
        | selectForUpdate => cases h
        | update => cases h
        | finish => cases h
    | proceed =>
        cases tx with
        | start failed next =>
            obtain rfl := Option.some.inj h
            exact .start
        | selectForUpdate failed next =>
            dsimp only at h
            cases hrow : (written <|> top s.versions) with
            | none =>
                rw [hrow] at h
                obtain rfl := Option.some.inj h
                exact .selectMissing hrow
            | some r =>
                rw [hrow] at h
                obtain ⟨s₁, hlock, rfl⟩ := Option.map_eq_some_iff.mp h
                obtain ⟨hfree, rfl⟩ := of_lock hlock
                exact .selectRow hrow hfree
        | update failed write next =>
            dsimp only at h
            cases hrow : (written <|> top s.versions) with
            | none =>
                rw [hrow] at h
                obtain rfl := Option.some.inj h
                exact .leave (.fail rfl)
            | some r =>
                rw [hrow] at h
                obtain ⟨s₁, hlock, rfl⟩ := Option.map_eq_some_iff.mp h
                obtain ⟨hfree, rfl⟩ := of_lock hlock
                exact .updateRow hrow hfree
        | commit failed done =>
            obtain rfl := Option.some.inj h
            exact .leave .commit
        | finish out =>
            obtain rfl := Option.some.inj h
            exact .leave .finish
  · cases h

/-! ## The invariant -/

/-- What holds of client `i` with the transaction `prog`, given the versions and whether it holds the lock.
    Running, it is where `prog` run alone on the newest version would be, or it has not looked at the row
    yet; returned, it did what `prog` does alone on some version. -/
def Good (prog : Transaction ρ ω) (versions : List (Option ι × ρ)) (holds : Prop) (i : ι) :
    Phase ρ ω → Prop
  | .running tx written =>
      tx.alone (top versions) written = prog.alone (top versions) none
        ∧ (¬holds → written = none ∧ (versions ≠ [] → ∀ row, tx.alone row none = prog.alone row none))
        ∧ (∀ out, tx.Fails out → prog.Fails out) ∧ ∀ r, (some i, r) ∉ versions
  | .returned .committed out =>
      ∃ older written, older <:+ versions ∧ prog.alone (top older) none = (written, out)
        ∧ (∀ r, written = some r → (some i, r) :: older <:+ versions)
        ∧ (written = none → ∀ r, (some i, r) ∉ versions)
  | .returned .rolledBack out =>
      (∃ older, older <:+ versions ∧ prog.alone (top older) none = (none, out))
        ∧ ∀ r, (some i, r) ∉ versions
  | .returned .failed out => prog.Fails out
  | .aborted => True

/-- **Commits are serial**: every version but the first is what its client writes alone on the one before. -/
def Serial (prog : ι → Transaction ρ ω) : List (Option ι × ρ) → Prop
  | [] => True
  | (none, _) :: older => older = []
  | (some i, r) :: older => ((prog i).alone (top older) none).1 = some r ∧ Serial prog older

structure Inv (prog : ι → Transaction ρ ω) (s : System ι ρ ω) : Prop where
  good : ∀ i, Good (prog i) s.versions (s.holder = some i) i (s.phase i)
  serial : Serial prog s.versions
  /-- The row is there when it is locked. -/
  locked : s.holder ≠ none → s.versions ≠ []

variable {prog : ι → Transaction ρ ω} {s s' : System ι ρ ω} {i : ι}

omit [DecidableEq ι] in
/-- Before the first step nobody has done anything. -/
theorem inv_initial (prog : ι → Transaction ρ ω) (row : Option ρ) : Inv prog (initial prog row) := by
  have hversions : ∀ (i : ι) (r : ρ), (some i, r) ∉ (initial prog row).versions := by
    intro i r hmem
    cases row with
    | none => cases hmem
    | some r' => simp [initial] at hmem
  refine ⟨?_, ?_, fun h => absurd rfl h⟩
  · intro i
    exact ⟨rfl, fun _ => ⟨rfl, fun _ _ => rfl⟩, fun _ h => h, hversions i⟩
  · cases row with
    | none => trivial
    | some r => exact rfl

omit [DecidableEq ι] in
/-- What one client does leaves the others good: versions are only added in front, and only by the client
    that holds the lock. -/
theorem Good.frame {prog : Transaction ρ ω} {versions new : List (Option ι × ρ)} {holds holds' : Prop}
    {phase : Phase ρ ω} (h : Good prog versions holds i phase) (hholds : holds' ↔ holds)
    (hnew : ∀ r, (some i, r) ∉ new) (hlock : new ≠ [] → ¬holds ∧ versions ≠ []) :
    Good prog (new ++ versions) holds' i phase := by
  have hsuffix : ∀ older, older <:+ versions → older <:+ new ++ versions :=
    fun older hold => hold.trans (List.suffix_append _ _)
  have hout : (∀ r, (some i, r) ∉ versions) → ∀ r, (some i, r) ∉ new ++ versions := by
    intro hno r hmem
    rcases List.mem_append.mp hmem with hmem | hmem
    · exact hnew r hmem
    · exact hno r hmem
  cases phase with
  | aborted => trivial
  | returned how out =>
      cases how with
      | failed => exact h
      | committed =>
          obtain ⟨older, written, hold, halone, hversion, hno⟩ := h
          exact ⟨older, written, hsuffix _ hold, halone, fun r hr => hsuffix _ (hversion r hr),
            fun hw => hout (hno hw)⟩
      | rolledBack =>
          obtain ⟨⟨older, hold, halone⟩, hno⟩ := h
          exact ⟨⟨older, hsuffix _ hold, halone⟩, hout hno⟩
  | running tx written =>
      obtain ⟨hnow, hfree, hfails, hno⟩ := h
      by_cases hempty : new = []
      · subst hempty
        refine ⟨hnow, ?_, hfails, hno⟩
        rw [hholds]
        exact hfree
      · -- another client committed, so this one does not hold the lock and has seen nothing
        obtain ⟨hnot, hthere⟩ := hlock hempty
        obtain ⟨rfl, hany⟩ := hfree hnot
        exact ⟨hany hthere _, fun _ => ⟨rfl, fun _ => hany hthere⟩, hfails, hout hno⟩

omit [DecidableEq ι] in
/-- A row that was never there has no version. -/
theorem top_eq_none {versions : List (Option ι × ρ)} : top versions = none ↔ versions = [] := by
  unfold top
  rw [Option.map_eq_none_iff, List.head?_eq_none_iff]

omit [DecidableEq ι] in
/-- The row a running client works on is there. -/
theorem Inv.there (h : Inv prog s) {tx : Transaction ρ ω} {written : Option ρ}
    (hphase : s.phase i = .running tx written) {r : ρ} (hrow : (written <|> top s.versions) = some r) :
    s.versions ≠ [] := by
  have hi := h.good i
  rw [hphase] at hi
  cases written with
  | none =>
      intro hempty
      have htop : top s.versions = some r := hrow
      rw [top_eq_none.mpr hempty] at htop
      cases htop
  | some w =>
      -- only the holder of the lock has written
      apply h.locked
      intro hholder
      have hnot : ¬s.holder = some i := by simp [hholder]
      exact Option.some_ne_none w (hi.2.1 hnot).1

@[simp] theorem phase_setPhase_of_ne (s : System ι ρ ω) {i j : ι} (h : j ≠ i) (phase : Phase ρ ω) :
    (s.setPhase i phase).phase j = s.phase j := by
  simp [setPhase, h]

@[simp] theorem phase_setPhase_self (s : System ι ρ ω) (i : ι) (phase : Phase ρ ω) :
    (s.setPhase i phase).phase i = phase := by
  simp [setPhase]

@[simp] theorem phase_leave_of_ne (s : System ι ρ ω) {i j : ι} (h : j ≠ i) (phase : Phase ρ ω) :
    (s.leave i phase).phase j = s.phase j := by
  simp [leave, setPhase, h]

@[simp] theorem phase_leave_self (s : System ι ρ ω) (i : ι) (phase : Phase ρ ω) :
    (s.leave i phase).phase i = phase := by
  simp [leave, setPhase]

/-- A step of one client that touches neither the versions nor the lock. -/
theorem Inv.setPhase (h : Inv prog s) {phase : Phase ρ ω}
    (hi : Good (prog i) s.versions (s.holder = some i) i phase) : Inv prog (s.setPhase i phase) := by
  refine ⟨?_, h.serial, h.locked⟩
  intro j
  by_cases hj : j = i
  · subst hj
    rw [phase_setPhase_self]
    exact hi
  · rw [phase_setPhase_of_ne _ hj]
    exact h.good j

/-- A statement that reads or writes the row under the lock. -/
theorem Inv.locking (h : Inv prog s) {tx tx' : Transaction ρ ω} {written written' : Option ρ}
    (hphase : s.phase i = .running tx written) {r : ρ} (hrow : (written <|> top s.versions) = some r)
    (hfree : s.holder = none ∨ s.holder = some i)
    (halone : tx'.alone (top s.versions) written' = tx.alone (top s.versions) written)
    (hfails : ∀ out, tx'.Fails out → tx.Fails out) :
    Inv prog ({ s with holder := some i }.setPhase i (.running tx' written')) := by
  have hthere := h.there hphase hrow
  have hi := h.good i
  rw [hphase] at hi
  obtain ⟨hnow, -, hfailsi, hno⟩ := hi
  refine ⟨?_, h.serial, fun _ => hthere⟩
  intro j
  by_cases hj : j = i
  · subst hj
    rw [phase_setPhase_self]
    exact ⟨halone.trans hnow, fun hnot => absurd rfl hnot, fun out ho => hfailsi out (hfails out ho), hno⟩
  · rw [phase_setPhase_of_ne _ hj]
    refine (h.good j).frame ?_ (by simp) fun hnew => absurd rfl hnew
    show some i = some j ↔ s.holder = some j
    rcases hfree with hnone | hown
    · simp [hnone, Ne.symm hj]
    · rw [hown]

omit [DecidableEq ι] in
/-- A client that leaves did what its transaction does alone, or failed. -/
theorem good_of_leaves {prog tx : Transaction ρ ω} {versions : List (Option ι × ρ)}
    {written published : Option ρ} {phase : Phase ρ ω} {holds : Prop}
    (hleaves : Leaves tx written published phase)
    (hnow : tx.alone (top versions) written = prog.alone (top versions) none)
    (hfails : ∀ out, tx.Fails out → prog.Fails out) (hno : ∀ r, (some i, r) ∉ versions) :
    Good prog ((published.map fun r => (some i, r)).toList ++ versions) holds i phase := by
  cases hleaves with
  | abort => trivial
  | fail h => exact hfails _ (Transaction.fails_of_failed? h)
  | answerLost => exact hfails _ rfl
  | commit =>
      refine ⟨versions, written, List.suffix_append _ _, hnow.symm, ?_, ?_⟩
      · rintro r rfl
        exact List.suffix_rfl
      · rintro rfl
        exact hno
  | finish => exact ⟨⟨versions, List.suffix_rfl, hnow.symm⟩, hno⟩

/-- **Every step keeps the invariant.** -/
theorem Inv.step (h : Inv prog s) {a : Action} (hstep : s.step i a = some s') : Inv prog s' := by
  obtain ⟨tx, written, hphase, hmoves⟩ := step_cases hstep
  have hi := h.good i
  rw [hphase] at hi
  obtain ⟨hnow, hnothing, hfails, hno⟩ := hi
  cases hmoves with
  | start => exact h.setPhase ⟨hnow, hnothing, fun out ho => hfails out (Or.inr ho), hno⟩
  | @selectMissing failed next written hrow =>
      obtain ⟨rfl, htop⟩ : written = none ∧ top s.versions = none := by
        cases written with
        | none => exact ⟨rfl, hrow⟩
        | some w => cases hrow
      have hempty := top_eq_none.mp htop
      refine h.setPhase ⟨Eq.trans ?_ hnow, fun _ => ⟨rfl, fun hthere => absurd hempty hthere⟩,
        fun out ho => hfails out (Or.inr ⟨none, ho⟩), hno⟩
      show _ = (next (none <|> top s.versions)).alone _ _
      rw [htop]
      rfl
  | @selectRow failed next written r hrow hfree =>
      refine h.locking hphase hrow hfree ?_ fun out ho => Or.inr ⟨some r, ho⟩
      show _ = (next (written <|> top s.versions)).alone _ _
      rw [hrow]
  | @updateRow failed write next written r hrow hfree =>
      refine h.locking hphase hrow hfree ?_ fun out ho => Or.inr ⟨write r, ho⟩
      rw [Transaction.alone, hrow]
  | @leave tx written published phase hleaves =>
      -- only a commit publishes, and only what was written under the lock
      have hpublished : ∀ r, published = some r →
          s.holder = some i ∧ ((prog i).alone (top s.versions) none).1 = some r := by
        rintro r rfl
        have hlock : written = some r → s.holder = some i := by
          intro hw
          by_contra hnot
          rw [(hnothing hnot).1] at hw
          cases hw
        cases hleaves with
        | answerLost => exact ⟨hlock rfl, by rw [← hnow]; rfl⟩
        | commit => exact ⟨hlock rfl, by rw [← hnow]; rfl⟩
      refine ⟨?_, ?_, ?_⟩
      · intro j
        by_cases hj : j = i
        · subst hj
          rw [phase_leave_self]
          exact good_of_leaves hleaves hnow hfails hno
        · rw [phase_leave_of_ne _ hj]
          refine (h.good j).frame ?_ ?_ ?_
          · show (if s.holder = some i then none else s.holder) = some j ↔ _
            split
            · rename_i hown
              simp [hown, Ne.symm hj]
            · exact Iff.rfl
          · cases published <;> simp [hj]
          · intro hnew
            obtain ⟨r, rfl⟩ : ∃ r, published = some r := by
              cases published with
              | none => exact absurd rfl hnew
              | some r => exact ⟨r, rfl⟩
            have hown := (hpublished r rfl).1
            exact ⟨by simp [hown, Ne.symm hj], h.locked (by simp [hown])⟩
      · cases published with
        | none => exact h.serial
        | some r => exact ⟨(hpublished r rfl).2, h.serial⟩
      · intro hheld hempty
        apply h.locked
        · intro hnone
          apply hheld
          show (if s.holder = some i then none else s.holder) = none
          rw [hnone, ite_self]
        · exact (List.append_eq_nil_iff.mp hempty).2

/-- **Every run keeps the invariant**, whatever the schedule. -/
theorem inv_run (prog : ι → Transaction ρ ω) (row : Option ρ) (schedule : List (ι × Action)) :
    Inv prog ((initial prog row).run schedule) := by
  refine Machine.run_invariant ?_ (inv_initial prog row) schedule
  intro s e h
  unfold advance
  cases hstep : s.step e.1 e.2 with
  | none => exact h
  | some s' => exact h.step hstep

end System
end RowLock
