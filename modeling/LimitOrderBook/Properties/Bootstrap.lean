import LimitOrderBook.Api.Auth.Signup
import LimitOrderBook.Bin.BootstrapAdmin

/-!
# `Properties.Bootstrap` — at most one first administrator

At most one first administrator. The command looks for an administrator and inserts one later. Between the two it
holds the users table, so that nobody else inserts a user; and who signs up is a trader.

`Process` is what runs against the tables, a bootstrap or a signup, and any number of them run with their statements
interleaved, aborted or unanswered. Both are transactions of `Lib.TableLock`, and both ask a table only under an
exclusive lock (`guarded_transaction`). So what a process commits is what it writes alone on the rows committed by
then: `alone_main` and `alone_signup` evaluate the two programs there.

A bootstrap commits only while there is no administrator, and leaves one (`bootstrap_commit`). As what is committed
stays, at most one does (`bootstrap_commits_le_one`). `at_most_one_bootstrap` adds what the processes are told, and
what is stored of those that failed: `stored_of_committed`, `not_stored_of_not_committed`.
-/

namespace LimitOrderBook

open TableLock
open RowLock (Action)

/-- A process that creates a user. -/
inductive Process where
  | bootstrapAdmin (b : BootstrapAdmin)
  | signup (s : Signup)
deriving DecidableEq, Repr

/-- What a process answers. -/
inductive Outcome where
  | bootstrapAdmin (result : Except BootstrapError (String × Uuid))
  | signup (result : Except ApiError (StatusCode × SignupResponse))
deriving DecidableEq, Repr

namespace Process

def transaction (unicode : Unicode) : Process → Transaction AuthTable AuthRow Outcome
  | bootstrapAdmin b => (b.main unicode).map .bootstrapAdmin
  | signup s => (LimitOrderBook.signup unicode s).map .signup

/-- The id of the user that the process creates. -/
def userId : Process → Uuid
  | bootstrapAdmin b => b.userId
  | signup s => s.userId

def isBootstrap : Process → Bool
  | bootstrapAdmin _ => true
  | signup _ => false

end Process

/-- The user that a row belongs to. -/
def AuthRow.owner : AuthRow → Uuid
  | user row => row.id
  | credentials row => row.userId

/-- There is an administrator. -/
def HasAdmin (rows : List AuthRow) : Prop :=
  ∃ user, AuthRow.user user ∈ rows ∧ user.role = UserRole.admin.asStr

/-- The query finds an administrator if there is one. -/
theorem hasRow_isAdmin_iff {rows : List AuthRow} :
    authCatalog.hasRow .users BootstrapAdmin.isAdmin rows = true ↔ HasAdmin rows := by
  simp only [Catalog.hasRow, List.any_eq_true, Bool.and_eq_true, decide_eq_true_eq]
  constructor
  · rintro ⟨r, hr, -, hadmin⟩
    cases r with
    | user row => exact ⟨row, hr, by simpa [BootstrapAdmin.isAdmin, UserRole.asStr] using hadmin⟩
    | credentials row => cases hadmin
  · rintro ⟨row, hr, hadmin⟩
    exact ⟨.user row, hr, rfl, by simpa [BootstrapAdmin.isAdmin, UserRole.asStr] using hadmin⟩

theorem HasAdmin.append {rows : List AuthRow} (h : HasAdmin rows) (rows' : List AuthRow) :
    HasAdmin (rows ++ rows') := by
  obtain ⟨user, hmem, hadmin⟩ := h
  exact ⟨user, List.mem_append_left _ hmem, hadmin⟩

/-! ## One transaction -/

variable {unicode : Unicode} {b : BootstrapAdmin} {s : Signup} {rows written : List AuthRow}

/-- The command asks for an administrator when it has locked the users table. -/
theorem guarded_main : (b.main unicode).Guarded [] := by
  unfold BootstrapAdmin.main
  split
  · trivial
  · refine ⟨List.mem_singleton.mpr rfl, ?_⟩
    intro adminExists
    cases adminExists <;> trivial

theorem guarded_signup : (signup unicode s).Guarded [] := by
  unfold signup
  split
  · trivial
  · split <;> trivial

/-- Alone, the command creates the administrator, if there is none. -/
theorem alone_main {out : Except BootstrapError (String × Uuid)}
    (h : (b.main unicode).alone authCatalog rows [] = some (written, out)) :
    ¬HasAdmin rows ∧ ∃ admin, b.prepare unicode = .ok admin
      ∧ written = [.user (b.user unicode admin), .credentials (b.credentials admin)] := by
  unfold BootstrapAdmin.main at h
  split at h
  · cases h
  · rename_i admin hprepare
    simp only [Transaction.alone, List.append_nil] at h
    split at h
    · cases h
    · rename_i hnone
      rw [hasRow_isAdmin_iff] at hnone
      cases h
      exact ⟨hnone, admin, hprepare, rfl⟩

/-- Alone, a signup creates a trader. -/
theorem alone_signup {out : Except ApiError (StatusCode × SignupResponse)}
    (h : (signup unicode s).alone authCatalog rows [] = some (written, out)) :
    ∃ request passwordHash, validateSignup unicode s.request = .ok request ∧ s.passwordHash = some passwordHash
      ∧ written = [.user (s.user request), .credentials (s.credentials passwordHash)] := by
  unfold signup at h
  split at h
  · cases h
  · rename_i request hvalid
    split at h
    · cases h
    · rename_i passwordHash hhash
      cases h
      exact ⟨request, passwordHash, hvalid, hhash, rfl⟩

/-- A process that ran alone wrote its own user and credentials. -/
theorem owner_of_alone {process : Process} {out : Outcome}
    (h : (process.transaction unicode).alone authCatalog rows [] = some (written, out)) :
    ∀ r ∈ written, r.owner = process.userId := by
  cases process with
  | bootstrapAdmin b =>
      obtain ⟨result, halone⟩ := Transaction.alone_of_map h
      obtain ⟨-, admin, -, rfl⟩ := alone_main halone
      simp [AuthRow.owner, BootstrapAdmin.user, BootstrapAdmin.credentials, Process.userId]
  | signup s =>
      obtain ⟨result, halone⟩ := Transaction.alone_of_map h
      obtain ⟨request, passwordHash, -, -, rfl⟩ := alone_signup halone
      simp [AuthRow.owner, Signup.user, Signup.credentials, Process.userId]

-- sealed, or the validation is run on an unknown request while the goal is read
seal validateSignup in
theorem guarded_transaction (process : Process) : (process.transaction unicode).Guarded [] := by
  cases process with
  | bootstrapAdmin b => exact Transaction.guarded_map _ guarded_main
  | signup s => exact Transaction.guarded_map _ guarded_signup

/-! ## All processes -/

section Runs

variable {ι : Type} {processes : ι → Process} {i : ι} {commits older : List (Option ι × List AuthRow)}

/-- The commit is one of a bootstrap. -/
def isBootstrapCommit (processes : ι → Process) (commit : Option ι × List AuthRow) : Bool :=
  commit.1.any fun i => (processes i).isBootstrap

/-- **A bootstrap commits** an administrator and its credentials, when there is no administrator. -/
theorem bootstrap_commit (h : System.Serial authCatalog (fun i => (processes i).transaction unicode) commits)
    (hprocess : processes i = .bootstrapAdmin b) (hsuffix : (some i, rows) :: older <:+ commits) :
    ¬HasAdmin (committedRows older) ∧ ∃ admin, b.prepare unicode = .ok admin
      ∧ rows = [.user (b.user unicode admin), .credentials (b.credentials admin)] := by
  obtain ⟨out, halone⟩ := h.of_suffix hsuffix (guarded_transaction _)
  rw [hprocess] at halone
  obtain ⟨result, halone⟩ := Transaction.alone_of_map halone
  exact alone_main halone

/-- **At most one bootstrap commits**, and then there is an administrator. -/
theorem bootstrap_commits_le_one
    (h : System.Serial authCatalog (fun i => (processes i).transaction unicode) commits) :
    (commits.filter (isBootstrapCommit processes)).length ≤ 1
      ∧ (commits.filter (isBootstrapCommit processes) ≠ [] → HasAdmin (committedRows commits)) := by
  induction commits with
  | nil => simp
  | cons commit commits ih =>
      obtain ⟨client, rows⟩ := commit
      cases client with
      | none =>
          obtain rfl : commits = [] := h
          simp [isBootstrapCommit]
      | some i =>
          obtain ⟨hle, hadmin⟩ := ih h.2
          cases hprocess : processes i with
          | signup s =>
              have hother : isBootstrapCommit processes (some i, rows) = false := by
                simp [isBootstrapCommit, hprocess, Process.isBootstrap]
              rw [List.filter_cons_of_neg (by simp [hother])]
              exact ⟨hle, fun hne => (hadmin hne).append rows⟩
          | bootstrapAdmin b =>
              obtain ⟨hnone, admin, -, rfl⟩ := bootstrap_commit h hprocess List.suffix_rfl
              have hbootstrap : isBootstrapCommit processes
                  (some i, [.user (b.user unicode admin), .credentials (b.credentials admin)]) = true := by
                simp [isBootstrapCommit, hprocess, Process.isBootstrap]
              -- without an administrator no bootstrap has committed yet
              have hempty : commits.filter (isBootstrapCommit processes) = [] := by
                by_contra hne
                exact hnone (hadmin hne)
              rw [List.filter_cons_of_pos hbootstrap, hempty]
              refine ⟨le_rfl, fun _ => ⟨b.user unicode admin, ?_, rfl⟩⟩
              exact List.mem_append_right _ List.mem_cons_self

/-- An administrator among the first rows stays. -/
theorem hasAdmin_of_suffix {rows₀ : List AuthRow} (h : HasAdmin rows₀) (hsuffix : [(none, rows₀)] <:+ commits) :
    HasAdmin (committedRows commits) := by
  obtain ⟨new, rfl⟩ := hsuffix
  rw [committedRows_append]
  exact HasAdmin.append (by simpa [committedRows] using h) _

variable {s : System ι AuthTable AuthRow Outcome}

/-- With an administrator no bootstrap commits. -/
theorem no_bootstrap_commit (h : System.Serial authCatalog (fun i => (processes i).transaction unicode) s.commits)
    (hbased : s.BasedOn rows) (hadmin : HasAdmin rows) : s.commits.filter (isBootstrapCommit processes) = [] := by
  rw [List.filter_eq_nil_iff]
  rintro ⟨client, written⟩ hmem hbootstrap
  cases client with
  | none => cases hbootstrap
  | some i =>
      cases hprocess : processes i with
      | signup _ => simp [isBootstrapCommit, hprocess, Process.isBootstrap] at hbootstrap
      | bootstrapAdmin b =>
          obtain ⟨older, hsuffix⟩ := System.exists_suffix_of_mem hmem
          exact (bootstrap_commit h hprocess hsuffix).1 (hasAdmin_of_suffix hadmin (hbased.suffix hsuffix))

/-- A bootstrap that committed has stored the user and its credentials. -/
theorem stored_of_committed (h : System.Serial authCatalog (fun i => (processes i).transaction unicode) s.commits)
    (hprocess : processes i = .bootstrapAdmin b) (hcommitted : s.Committed i) :
    ∃ admin, b.prepare unicode = .ok admin ∧ .user (b.user unicode admin) ∈ committedRows s.commits
      ∧ .credentials (b.credentials admin) ∈ committedRows s.commits := by
  obtain ⟨rows, hcommit⟩ := hcommitted
  obtain ⟨older, hsuffix⟩ := System.exists_suffix_of_mem hcommit
  obtain ⟨-, admin, hprepare, rfl⟩ := bootstrap_commit h hprocess hsuffix
  have hmem : ∀ r ∈ [AuthRow.user (b.user unicode admin), .credentials (b.credentials admin)],
      r ∈ committedRows s.commits := fun r hr => mem_committedRows.mpr ⟨_, hcommit, hr⟩
  exact ⟨admin, hprepare, hmem _ (by simp), hmem _ (by simp)⟩

/-- A process that did not commit has stored nothing: what is stored under its id was there before, or is of
    another process with that id. -/
theorem not_stored_of_not_committed
    (h : System.Serial authCatalog (fun i => (processes i).transaction unicode) s.commits)
    (hbased : s.BasedOn rows) (hnot : ¬s.Committed i) {r : AuthRow} (hr : r ∈ committedRows s.commits) :
    r ∈ rows ∨ ∃ j, j ≠ i ∧ s.Committed j ∧ r.owner = (processes j).userId := by
  obtain ⟨⟨client, written⟩, he, hr⟩ := mem_committedRows.mp hr
  rcases hbased.mem_cases he with heq | ⟨j, rfl⟩
  · cases heq
    exact Or.inl hr
  · have hj : j ≠ i := by
      rintro rfl
      exact hnot ⟨written, he⟩
    obtain ⟨older, hsuffix⟩ := System.exists_suffix_of_mem he
    obtain ⟨out, halone⟩ := h.of_suffix hsuffix (guarded_transaction _)
    exact Or.inr ⟨j, hj, ⟨written, he⟩, owner_of_alone halone r hr⟩

variable [DecidableEq ι]

/-- The processes on a database, after a schedule. -/
def runProcesses (unicode : Unicode) (processes : ι → Process) (db : Database)
    (schedule : List (ι × Action)) : System ι AuthTable AuthRow Outcome :=
  (System.initial (fun i => (processes i).transaction unicode) db.authRows).run authCatalog schedule

/-- **Who signs up is no administrator**: there is one if there was one, or if a bootstrap has committed. -/
theorem hasAdmin_runProcesses_iff (unicode : Unicode) (processes : ι → Process) (db : Database)
    (schedule : List (ι × Action)) :
    let s := runProcesses unicode processes db schedule
    HasAdmin (committedRows s.commits)
      ↔ HasAdmin db.authRows ∨ s.commits.filter (isBootstrapCommit processes) ≠ [] := by
  intro s
  have hinv : System.Inv authCatalog (fun i => (processes i).transaction unicode) s := System.inv_run _ _ schedule
  have hbased : s.BasedOn db.authRows := System.basedOn_run _ _ schedule
  constructor
  · rintro ⟨user, hmem, hadmin⟩
    obtain ⟨⟨client, rows⟩, he, hr⟩ := mem_committedRows.mp hmem
    rcases hbased.mem_cases he with heq | ⟨i, rfl⟩
    · cases heq
      exact Or.inl ⟨user, hr, hadmin⟩
    · cases hprocess : processes i with
      | bootstrapAdmin b =>
          refine Or.inr (List.ne_nil_of_mem (List.mem_filter.mpr ⟨he, ?_⟩))
          simp [isBootstrapCommit, hprocess, Process.isBootstrap]
      | signup c =>
          obtain ⟨older, hsuffix⟩ := System.exists_suffix_of_mem he
          obtain ⟨out, halone⟩ := hinv.serial.of_suffix hsuffix (guarded_transaction _)
          rw [hprocess] at halone
          obtain ⟨result, halone⟩ := Transaction.alone_of_map halone
          obtain ⟨request, passwordHash, -, -, rfl⟩ := alone_signup halone
          obtain rfl : user = c.user request := by simpa using hr
          exact absurd hadmin (show "trader" ≠ "admin" by decide)
  · rintro (hadmin | hne)
    · obtain ⟨new, hcommits, -⟩ := hbased
      exact hasAdmin_of_suffix hadmin ⟨new, hcommits.symm⟩
    · exact (bootstrap_commits_le_one hinv.serial).2 hne

/-- **At most one bootstrap administrator**, whatever the processes and however their statements interleave,
    fail or are cut off. A bootstrap commits only when no administrator is committed; so from a database without
    an administrator at most one commits, and from one with an administrator none does. What a bootstrap commits
    is the user and its credentials, and one that does not commit leaves neither: every row was there before
    or is of another process that committed. -/
theorem at_most_one_bootstrap (unicode : Unicode) (processes : ι → Process) (db : Database)
    (schedule : List (ι × Action)) :
    let s := runProcesses unicode processes db schedule
    (∀ i b rows older, processes i = .bootstrapAdmin b → (some i, rows) :: older <:+ s.commits →
      ¬HasAdmin (committedRows older))
    ∧ (¬HasAdmin db.authRows → (s.commits.filter (isBootstrapCommit processes)).length ≤ 1)
    ∧ (HasAdmin db.authRows → s.commits.filter (isBootstrapCommit processes) = [])
    ∧ (∀ i b, processes i = .bootstrapAdmin b →
      (s.Committed i → ∃ admin, b.prepare unicode = .ok admin
        ∧ .user (b.user unicode admin) ∈ committedRows s.commits
        ∧ .credentials (b.credentials admin) ∈ committedRows s.commits)
      ∧ (¬s.Committed i → ∀ r ∈ committedRows s.commits,
        r ∈ db.authRows ∨ ∃ j, j ≠ i ∧ s.Committed j ∧ r.owner = (processes j).userId))
    ∧ (∀ i, (∀ out, s.phase i = .returned .committed out → s.Committed i)
      ∧ (s.phase i = .aborted ∨ (∃ out, s.phase i = .returned .rolledBack out) → ¬s.Committed i))
    ∧ ∃ db' : Database, db'.users.rows = (committedRows s.commits).filterMap AuthRow.user?
      ∧ db'.userCredentials.rows = (committedRows s.commits).filterMap AuthRow.credentials?
      ∧ db'.sessions = db.sessions := by
  intro s
  have hinv : System.Inv authCatalog (fun i => (processes i).transaction unicode) s := System.inv_run _ _ schedule
  have hbased : s.BasedOn db.authRows := System.basedOn_run _ _ schedule
  refine ⟨?_, fun _ => (bootstrap_commits_le_one hinv.serial).1, ?_, ?_, ?_, ?_⟩
  · intro i b rows older hprocess hsuffix
    exact (bootstrap_commit hinv.serial hprocess hsuffix).1
  · exact no_bootstrap_commit hinv.serial hbased
  · intro i b hprocess
    exact ⟨stored_of_committed hinv.serial hprocess, fun hnot r hr =>
      not_stored_of_not_committed hinv.serial hbased hnot hr⟩
  · exact fun i => ⟨fun out => hinv.committed_of_returned, hinv.not_committed⟩
  · have hconstrained : System.Constrained authCatalog s :=
      System.constrained_run _ db.check_authRows db.distinct_authRows schedule
    have hsub : (committedRows s.commits).Sublist s.stored := List.sublist_append_left _ _
    exact exists_database_of_rows (fun r hr => hconstrained.checked r (hsub.subset hr))
      (hconstrained.unique.sublist hsub) db.sessions

end Runs

/-! ### Two bootstraps and a signup at once -/

def sampleBootstrap (email : String) (userId : Uuid) : BootstrapAdmin where
  args := [email]
  password := some "correct horse battery staple"
  confirmation := some "correct horse battery staple"
  passwordHash :=
    some "$argon2id$v=19$m=19456,t=2,p=1$c29tZXNhbHRzb21lc2FsdA$ISO7kkvFzh19GM8qB7patN3C3Y9HHsjlVTfEZ9T600Y"
  userId := userId
  now := 0

def sampleProcesses : Fin 3 → Process
  | 0 => .bootstrapAdmin (sampleBootstrap "Admin@example.com" 1)
  | 1 => .bootstrapAdmin (sampleBootstrap "admin@example.org" 2)
  | 2 => .signup {
      request := ⟨"Trader", "trader@example.com", "a strong test password"⟩
      passwordHash :=
        some "$argon2id$v=19$m=19456,t=2,p=1$c29tZXNhbHRzb21lc2FsdA$tUyJGPj6vIWTfpw98Oc9CKdmVgR9YgO//lXuyyP2nEM"
      userId := 3
      now := 0 }

/-- All three begin; the first locks the table, and the others wait until it has committed. -/
def sampleSchedule : List (Fin 3 × Action) :=
  [0, 0, 1, 1, 2, 0, 1, 2, 0, 0, 1, 2, 0, 0, 1, 2, 1, 1, 2].map fun i => (i, .proceed)

theorem at_most_one_bootstrap_race :
    let db : Database := ⟨.empty, .empty, .empty⟩
    let s := runProcesses ⟨Char.isWhitespace, String.toLower⟩ sampleProcesses db sampleSchedule
    s.commits.map Prod.fst = [some 0, none]
      ∧ s.answer 1 = some (.bootstrapAdmin (.error (.invalidInput "an administrator already exists")))
      ∧ (s.commits.filter (isBootstrapCommit sampleProcesses)).length ≤ 1 := by
  intro db s
  have hnone : ¬HasAdmin db.authRows := by
    rintro ⟨user, hmem, -⟩
    cases hmem
  obtain ⟨-, hle, -⟩ := at_most_one_bootstrap ⟨Char.isWhitespace, String.toLower⟩ sampleProcesses db sampleSchedule
  refine ⟨by decide +kernel, by decide +kernel, ?_⟩
  exact hle hnone

end LimitOrderBook
