import LimitOrderBook.Properties.LoginPrivacy
import LimitOrderBook.Properties.Roles

/-!
# `Properties.Integrity` — what the database keeps

What the database keeps. No request deletes a row. `ApiDatabase.Keeps` says column by column what a step may change in
a row that is there: the role and the status of a user, the revocation of a session, and the status of an instrument
that is not delisted. It is reflexive and transitive, so `keeps_step` gives it for every run.

The foreign keys follow: what a row refers to stays. Between the moment at which a request looks a user up and the one
at which it inserts a row for that user, other requests may run; `RefsInv` keeps that the users of all requests under
way are stored. `nothing_is_lost` has both parts, from any moment of a run to any later one.
-/

namespace LimitOrderBook

/-! ## One table -/

theorem mem_of_insert {ρ : Type} {schema : Schema ρ} {t t' : Table schema} {r r' : ρ} (h : t.insert r = .ok t')
    (hmem : r' ∈ t.rows) : r' ∈ t'.rows := by
  rw [(Table.insert_ok h).1]
  exact List.mem_append_left _ hmem

/-- The columns of a user that no request changes. -/
def User.Same (user user' : User) : Prop :=
  user'.id = user.id ∧ user'.displayName = user.displayName ∧ user'.email = user.email
    ∧ user'.createdAt = user.createdAt

/-- An update leaves every user, changed or not. -/
theorem mem_updatedUser {users : List User} {id : Uuid} {set : User → User} (hset : ∀ user : User, user.Same (set user))
    {user : User} (hmem : user ∈ users) :
    ∃ user' ∈ users.map (App.updatedUser id set), user.Same user' := by
  refine ⟨_, List.mem_map.mpr ⟨user, hmem, rfl⟩, ?_⟩
  unfold App.updatedUser
  split
  · exact hset user
  · exact ⟨rfl, rfl, rfl, rfl⟩

/-- **What stays** in the database from one moment to a later one. -/
structure ApiDatabase.Keeps (db db' : ApiDatabase) : Prop where
  users : ∀ user ∈ db.users.rows, ∃ user' ∈ db'.users.rows, user.Same user'
  credentials : ∀ row ∈ db.userCredentials.rows, row ∈ db'.userCredentials.rows
  /-- A session is revoked once, and nothing else happens to it. -/
  sessions : ∀ row ∈ db.sessions.rows, ∃ row' ∈ db'.sessions.rows,
    row' = { row with revokedAt := row'.revokedAt } ∧ (row.revokedAt ≠ none → row' = row)
  accounts : ∀ row ∈ db.accounts.rows, row ∈ db'.accounts.rows
  /-- An instrument changes its status alone, and not once it is delisted. -/
  instruments : ∀ row ∈ db.instruments.rows, ∃ row' ∈ db'.instruments.rows,
    row' = { row with status := row'.status } ∧ (row.status = .delisted → row' = row)

namespace ApiDatabase.Keeps

theorem refl (db : ApiDatabase) : db.Keeps db where
  users user hmem := ⟨user, hmem, rfl, rfl, rfl, rfl⟩
  credentials _ hmem := hmem
  sessions row hmem := ⟨row, hmem, rfl, fun _ => rfl⟩
  accounts _ hmem := hmem
  instruments row hmem := ⟨row, hmem, rfl, fun _ => rfl⟩

/-- What stays twice stays. -/
theorem trans {db₁ db₂ db₃ : ApiDatabase} (h : db₁.Keeps db₂) (h' : db₂.Keeps db₃) : db₁.Keeps db₃ where
  users user hmem := by
    obtain ⟨user₂, hmem₂, hid, hname, hemail, hcreated⟩ := h.users user hmem
    obtain ⟨user₃, hmem₃, hid', hname', hemail', hcreated'⟩ := h'.users user₂ hmem₂
    exact ⟨user₃, hmem₃, hid'.trans hid, hname'.trans hname, hemail'.trans hemail, hcreated'.trans hcreated⟩
  credentials row hmem := h'.credentials row (h.credentials row hmem)
  sessions row hmem := by
    obtain ⟨row₂, hmem₂, heq, hrevoked⟩ := h.sessions row hmem
    obtain ⟨row₃, hmem₃, heq', hrevoked'⟩ := h'.sessions row₂ hmem₂
    refine ⟨row₃, hmem₃, ?_, ?_⟩
    · rw [heq', heq]
    · intro hne
      obtain rfl := hrevoked hne
      exact hrevoked' hne
  accounts row hmem := h'.accounts row (h.accounts row hmem)
  instruments row hmem := by
    obtain ⟨row₂, hmem₂, heq, hdelisted⟩ := h.instruments row hmem
    obtain ⟨row₃, hmem₃, heq', hdelisted'⟩ := h'.instruments row₂ hmem₂
    refine ⟨row₃, hmem₃, ?_, ?_⟩
    · rw [heq', heq]
    · intro hstatus
      obtain rfl := hdelisted hstatus
      exact hdelisted' hstatus

end ApiDatabase.Keeps

namespace App

variable {κ : Type} [DecidableEq κ] (platform : Platform)

/-- Inserting a user leaves what is there. -/
theorem keeps_insertUser {ε : Type} {db : ApiDatabase} {auth : Database} {user : User} {credentials : UserCredentials}
    {failed : TableLock.Failure → ε} (h : db.insertUser user credentials failed = .ok auth) :
    db.Keeps { db with toDatabase := auth } := by
  obtain ⟨users, userCredentials, husers, hcredentials, rfl⟩ := Database.insertUser_ok h
  exact { ApiDatabase.Keeps.refl db with
    users := fun user hmem => ⟨user, mem_of_insert husers hmem, rfl, rfl, rfl, rfl⟩
    credentials := fun row hmem => mem_of_insert hcredentials hmem }

/-- **A step keeps what there is.** -/
theorem keeps_step (s : App κ) (e : AppEvent κ) : s.db.Keeps (s.step platform e).1.db := by
  have hmoves := step_moves platform s e
  have hrefl := ApiDatabase.Keeps.refl s.db
  generalize (s.step platform e).1.db = db, (s.step platform e).2 = answer at hmoves
  cases hmoves with
  | signup hcall haccepted hhash hinsert htold => exact keeps_insertUser hinsert
  | bootstrapAdmin hadmin hnone hinsert => exact keeps_insertUser hinsert
  | login hcall hrows huser htold =>
      rename_i sessions answer
      refine { hrefl with sessions := fun row hmem => ⟨row, ?_, rfl, fun _ => rfl⟩ }
      show row ∈ sessions.rows
      rw [hrows]
      exact List.mem_append_left _ hmem
  | logout hcall htoken hrows htold =>
      rename_i request user token sessions answer
      refine { hrefl with sessions := fun row hmem => ⟨revoke s.now (hashToken platform.crypto token) row, ?_, ?_, ?_⟩ }
      · show _ ∈ sessions.rows
        rw [hrows]
        exact List.mem_map.mpr ⟨row, hmem, rfl⟩
      · unfold revoke
        split <;> rfl
      · exact fun hne => revoke_of_revoked hne
  | createAccount hcall hname huser hinsert htold =>
      exact { hrefl with accounts := fun row hmem => mem_of_insert hinsert hmem }
  | createUser hcall hname hinsert htold =>
      exact { hrefl with users := fun user hmem => ⟨user, mem_of_insert hinsert hmem, rfl, rfl, rfl, rfl⟩ }
  | createInstruments hcall haccepted hinsert htold =>
      rename_i request user instruments answer
      refine { hrefl with instruments := fun row hmem => ⟨row, ?_, rfl, fun _ => rfl⟩ }
      show row ∈ instruments.rows
      rw [Table.insertAll_ok hinsert]
      exact List.mem_append_left _ hmem
  | updateInstrumentStatus hcall hfound hid hvalid hrows htold =>
      rename_i instrumentId body request user found instruments answer
      refine { hrefl with instruments := fun row hmem => ⟨row.withStatus instrumentId body.status, ?_, ?_, ?_⟩ }
      · show _ ∈ instruments.rows
        rw [hrows]
        exact List.mem_map.mpr ⟨row, hmem, rfl⟩
      · unfold InstrumentResponse.withStatus
        split <;> rfl
      · intro hstatus
        unfold InstrumentResponse.withStatus
        split
        · rename_i hrowid
          -- the row is the one that the transition was checked on
          obtain rfl := instrument_unique hmem hfound ((by simpa using hrowid : row.id = instrumentId).trans hid.symm)
          rw [hstatus] at hvalid
          rw [Allowed.of_delisted hvalid, ← hstatus]
        · rfl
  | setStatus hrows =>
      rename_i id status users
      have hset : ∀ user : User, user.Same { user with status := status } := fun _ => ⟨rfl, rfl, rfl, rfl⟩
      refine { hrefl with users := fun user hmem => ?_ }
      show ∃ user' ∈ users.rows, user.Same user'
      rw [hrows]
      exact mem_updatedUser hset hmem
  | setRole hrows =>
      rename_i id role users
      have hset : ∀ user : User, user.Same { user with role := role } := fun _ => ⟨rfl, rfl, rfl, rfl⟩
      refine { hrefl with users := fun user hmem => ?_ }
      show ∃ user' ∈ users.rows, user.Same user'
      rw [hrows]
      exact mem_updatedUser hset hmem
  | _ => exact hrefl

/-- **Every run** keeps it. -/
theorem keeps_run (s : App κ) (events : List (AppEvent κ)) : s.db.Keeps (s.after platform events).db := by
  have hstep : ∀ (t : App κ) (e : AppEvent κ), s.db.Keeps t.db → s.db.Keeps (t.step platform e).1.db :=
    fun t e h => h.trans (keeps_step platform t e)
  exact Machine.run_invariant hstep (ApiDatabase.Keeps.refl s.db) events

/-! ## Foreign keys -/

/-- The user `id` is stored. -/
def HasUser (db : ApiDatabase) (id : Uuid) : Prop := ∃ user ∈ db.users.rows, user.id = id

/-- A user that was stored still is. -/
theorem hasUser_of_keeps {db db' : ApiDatabase} (h : db.Keeps db') {id : Uuid} (hid : HasUser db id) :
    HasUser db' id := by
  obtain ⟨user, hmem, rfl⟩ := hid
  obtain ⟨user', hmem', hid, -⟩ := h.users user hmem
  exact ⟨user', hmem', hid⟩

theorem complete_of_verifyLogin {unicode : Unicode} {crypto : Crypto} {db : Database} {request : LoginRequest}
    {row : LoginUserRow} (h : verifyLogin unicode crypto db request = .ok row) : request.Complete unicode := by
  unfold verifyLogin at h
  dsimp only at h
  split at h
  · cases h
  · rename_i hnot
    rw [Bool.or_eq_true, String.isEmpty_iff, String.isEmpty_iff, not_or] at hnot
    exact ⟨hnot.1, hnot.2⟩

/-- Every row and every request under way refers to users that are stored. -/
structure RefsInv (s : App κ) : Prop where
  referenced : s.db.Referenced
  verified : ∀ call row, s.calls call = some (.login (.verified row)) → HasUser s.db row.id
  issued : ∀ call issued, s.calls call = some (.login (.issued issued)) → HasUser s.db issued.user.id
  handlers : ∀ call endpoint request identity, s.calls call = some (.handler endpoint request (some identity)) →
    HasUser s.db identity.userId

variable {platform}

/-- Credentials are inserted with their user. -/
theorem referenced_insertUser {ε : Type} {db : ApiDatabase} {auth : Database} {user : User}
    {credentials : UserCredentials} {failed : TableLock.Failure → ε} (h : db.Referenced)
    (howner : credentials.userId = user.id) (hinsert : db.insertUser user credentials failed = .ok auth) :
    ApiDatabase.Referenced { db with toDatabase := auth } := by
  have hkeeps := keeps_insertUser hinsert
  obtain ⟨users, userCredentials, husers, hcredentials, rfl⟩ := Database.insertUser_ok hinsert
  refine ⟨?_, fun row hmem => hasUser_of_keeps hkeeps (h.sessions row hmem),
    fun row hmem => hasUser_of_keeps hkeeps (h.accounts row hmem)⟩
  intro row hmem
  have hmem' : row ∈ userCredentials.rows := hmem
  rw [(Table.insert_ok hcredentials).1] at hmem'
  rcases List.mem_append.mp hmem' with hold | hnew
  · exact hasUser_of_keeps hkeeps (h.credentials row hold)
  · obtain rfl := List.mem_singleton.mp hnew
    refine ⟨user, ?_, howner.symm⟩
    show user ∈ users.rows
    rw [(Table.insert_ok husers).1]
    exact List.mem_append_right _ (List.mem_singleton_self _)

/-- A step inserts rows for users that are stored. -/
theorem referenced_step {s : App κ} (h : s.db.Referenced) (e : AppEvent κ) :
    (s.step platform e).1.db.Referenced := by
  have hkeeps := keeps_step platform s e
  have hmoves := step_moves platform s e
  generalize (s.step platform e).1.db = db, (s.step platform e).2 = answer at hmoves hkeeps
  -- rows that stay refer to users that stay
  have hcredentials : ∀ row ∈ s.db.userCredentials.rows, HasUser db row.userId :=
    fun row hmem => hasUser_of_keeps hkeeps (h.credentials row hmem)
  have hsessions : ∀ row ∈ s.db.sessions.rows, HasUser db row.userId :=
    fun row hmem => hasUser_of_keeps hkeeps (h.sessions row hmem)
  have haccounts : ∀ row ∈ s.db.accounts.rows, HasUser db row.userId :=
    fun row hmem => hasUser_of_keeps hkeeps (h.accounts row hmem)
  cases hmoves with
  | signup hcall haccepted hhash hinsert htold => exact referenced_insertUser h rfl hinsert
  | bootstrapAdmin hadmin hnone hinsert => exact referenced_insertUser h rfl hinsert
  | login hcall hrows huser htold =>
      rename_i sessions answer
      refine ⟨hcredentials, ?_, haccounts⟩
      intro row hmem
      have hmem' : row ∈ sessions.rows := hmem
      rw [hrows] at hmem'
      rcases List.mem_append.mp hmem' with hold | hnew
      · exact hsessions row hold
      · obtain rfl := List.mem_singleton.mp hnew
        exact huser
  | logout hcall htoken hrows htold =>
      rename_i request user token sessions answer
      refine ⟨hcredentials, ?_, haccounts⟩
      intro row hmem
      have hmem' : row ∈ sessions.rows := hmem
      rw [hrows] at hmem'
      obtain ⟨old, hold, rfl⟩ := List.mem_map.mp hmem'
      have hid : (revoke s.now (hashToken platform.crypto token) old).userId = old.userId := by
        unfold revoke
        split <;> rfl
      rw [hid]
      exact hsessions old hold
  | createAccount hcall hname huser hinsert htold =>
      rename_i body request user accounts answer
      refine ⟨hcredentials, hsessions, ?_⟩
      intro row hmem
      have hmem' : row ∈ accounts.rows := hmem
      rw [(Table.insert_ok hinsert).1] at hmem'
      rcases List.mem_append.mp hmem' with hold | hnew
      · exact haccounts row hold
      · obtain rfl := List.mem_singleton.mp hnew
        exact huser
  | _ => exact ⟨hcredentials, hsessions, haccounts⟩

/-- A step keeps it, and looks up users that are stored. -/
theorem RefsInv.step {s : App κ} (h : RefsInv s) (e : AppEvent κ) : RefsInv (s.step platform e).1 := by
  have hkeeps := keeps_step platform s e
  refine ⟨referenced_step h.referenced e, ?_, ?_, ?_⟩
  · intro call row hcall
    have hpark := step_parks platform s e call
    generalize (s.step platform e).1.calls call = pending at hpark hcall
    cases hpark with
    | same hkeeps' => exact hasUser_of_keeps hkeeps (h.verified call row hcall)
    | done => cases hcall
    | received hpass => cases hcall
    | verified hhandler hverify =>
        cases hcall
        obtain ⟨user, credentials, hcredentials, -, -, rfl⟩ :=
          (verifyLogin_eq_ok_iff (complete_of_verifyLogin hverify)).mp hverify
        exact hasUser_of_keeps hkeeps ⟨user, hcredentials.user_mem, rfl⟩
    | issued hlogin hissue => cases hcall
  · intro call issued hcall
    have hpark := step_parks platform s e call
    generalize (s.step platform e).1.calls call = pending at hpark hcall
    cases hpark with
    | same hkeeps' => exact hasUser_of_keeps hkeeps (h.issued call issued hcall)
    | done => cases hcall
    | received hpass => cases hcall
    | verified hhandler hverify => cases hcall
    | issued hlogin hissue =>
        cases hcall
        obtain rfl := of_issueToken_user hissue
        exact hasUser_of_keeps hkeeps (h.verified call _ hlogin)
  · intro call endpoint request identity hcall
    have hpark := step_parks platform s e call
    generalize (s.step platform e).1.calls call = pending at hpark hcall
    cases hpark with
    | same hkeeps' => exact hasUser_of_keeps hkeeps (h.handlers call endpoint request identity hcall)
    | done => cases hcall
    | received hpass =>
        rename_i arrival limiter user
        by_cases hlayers : .requireAuthenticated ∈ arrival.endpoint.layers
        · obtain ⟨identity', session, rfl, hadmission⟩ := admission_of_pass hpass hlayers
          cases hcall
          obtain ⟨user, hmem, -, hid, -⟩ := hadmission.owner
          exact hasUser_of_keeps hkeeps ⟨user, hmem, hid⟩
        · obtain rfl := Arrival.pass_public hlayers hpass
          cases hcall
    | verified hhandler hverify => cases hcall
    | issued hlogin hissue => cases hcall

omit [DecidableEq κ] in
theorem refsInv_start (db : ApiDatabase) (hdb : db.Referenced) (config : RateLimitConfig) (now : Timestamp) :
    RefsInv (start db config now : App κ) := by
  refine ⟨hdb, ?_, ?_, ?_⟩
  · intro call row h
    cases h
  · intro call issued h
    cases h
  · intro call endpoint request identity h
    cases h

theorem refsInv_run (db : ApiDatabase) (hdb : db.Referenced) (config : RateLimitConfig) (now : Timestamp)
    (events : List (AppEvent κ)) : RefsInv ((start db config now).after platform events) := by
  have hstep : ∀ (s : App κ) (e : AppEvent κ), RefsInv s → RefsInv (s.step platform e).1 := fun s e h => h.step e
  exact Machine.run_invariant hstep (refsInv_start db hdb config now) events

/-- **Nothing that is stored is lost.** In every run from a database whose foreign keys hold, they hold at every
    moment, and from any moment to any later one: each user keeps its id, name, email and time of creation;
    credentials and accounts stay as they are; a session stays but for its revocation, which is for good; and an
    instrument stays but for its status, which no longer changes once it is delisted. -/
theorem nothing_is_lost (platform : Platform) (db : ApiDatabase) (hdb : db.Referenced) (config : RateLimitConfig)
    (now : Timestamp) (events more : List (AppEvent κ)) :
    let s := (start db config now).after platform events
    s.db.Referenced ∧ s.db.Keeps (s.after platform more).db :=
  ⟨(refsInv_run db hdb config now events).referenced, keeps_run platform _ more⟩

theorem sampleDatabase_referenced : sampleDatabase.Referenced := by
  refine ⟨by decide, ?_, ?_⟩
  · intro row hmem
    cases hmem
  · intro row hmem
    cases hmem

theorem nothing_is_lost_main :
    let s := (start sampleDatabase .default 0).after samplePlatform sampleLogin
    s.db.Referenced ∧ s.db.Keeps (s.after samplePlatform [.setRole 1 "admin", .advance 1]).db :=
  nothing_is_lost samplePlatform sampleDatabase sampleDatabase_referenced .default 0 sampleLogin
    [.setRole 1 "admin", .advance 1]

end App
end LimitOrderBook
