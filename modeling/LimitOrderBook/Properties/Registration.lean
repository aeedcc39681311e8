import LimitOrderBook.Properties.Integrity

/-!
# `Properties.Registration` — who can log in

Who can log in. A signup stores a user with credentials, and POST /admin/users stores one without. The first can log
in from then on with the password that was sent, and the second never can: only the transaction that inserts a user
inserts credentials for it.

`verifyLogin_of_none` and `verifyLogin_of_found` say how the checks of a login are decided by the row that is found
for its email. `Locked` is the invariant of a user without credentials: the user is stored, and no row and no request
under way refers to it in the way that a login or a session needs. Every step keeps it, because new credentials are
those of a new user (`credentials_insertUser`), and it begins with the answer to POST /admin/users
(`locked_of_createUser`).

For a signup it is the other way round: the user and its credentials stay (`Properties.Integrity`), so a later login
finds the hash that was made then (`stored_of_signup`).
-/

namespace LimitOrderBook

/-! ## The checks of a login -/

section Checks

variable {unicode : Unicode} {crypto : Crypto} {db : Database} {request : LoginRequest}

/-- The email that a login looks up. -/
def LoginRequest.normalizedEmail (unicode : Unicode) (request : LoginRequest) : String :=
  unicode.toLowercase (unicode.trim request.email)

/-- With no user to find, a login is answered as one with a wrong password. -/
theorem verifyLogin_of_none (h : request.Complete unicode)
    (hdummy : (crypto.passwordHash crypto.dummyPasswordHash).isSome)
    (hfind : findLoginUser db (request.normalizedEmail unicode) = none) :
    verifyLogin unicode crypto db request = .error invalidEmailOrPassword := by
  obtain ⟨verifies, hhash⟩ := Option.isSome_iff_exists.mp hdummy
  unfold LoginRequest.normalizedEmail at hfind
  unfold verifyLogin verifyPassword
  dsimp only
  rw [if_neg h.not_blank, hfind]
  simp only [Option.map_none, Option.getD_none, hhash, Option.isSome_none, Bool.and_false, Machine.ok_bind]
  rfl

/-- The checks of a login, once its user is found. -/
theorem verifyLogin_of_found {user : User} {credentials : UserCredentials} {verifies : List UInt8 → Bool}
    (h : request.Complete unicode) (hfound : HasCredentials db (request.normalizedEmail unicode) user credentials)
    (hhash : crypto.passwordHash credentials.passwordHash = some verifies) :
    verifyLogin unicode crypto db request =
      if verifies (asBytes request.password) = false then .error invalidEmailOrPassword
      else if user.status = "active" then .ok ⟨user.id, user.status, credentials.passwordHash⟩
      else .error accountNotActive := by
  have hfind := findLoginUser_eq_some_iff.mpr ⟨user, credentials, hfound, rfl⟩
  unfold LoginRequest.normalizedEmail at hfind
  unfold verifyLogin verifyPassword
  dsimp only
  rw [if_neg h.not_blank, hfind]
  simp only [Option.map_some, Option.getD_some, hhash, Option.isSome_some, Bool.and_true, Machine.ok_bind]
  cases hright : verifies (asBytes request.password) with
  | false => rfl
  | true =>
      have hcheck := db.users.checked user hfound.user_mem
      have hstatus : user.status ∈ ["active", "suspended", "closed"] := by
        simpa [usersSchema] using (Bool.and_eq_true_iff.mp hcheck).1
      simp only [List.mem_cons, List.not_mem_nil, or_false] at hstatus
      show (parseStatus user.status >>= _) = _
      rcases hstatus with hstatus | hstatus | hstatus
      · rw [hstatus]
        rfl
      · rw [hstatus]
        rfl
      · rw [hstatus]
        rfl

end Checks

namespace App

variable {κ : Type} [DecidableEq κ] {platform : Platform}

/-! ## Users without credentials -/

/-- The user `id` is stored, and nothing that a login or a session needs refers to it. -/
structure Locked (id : Uuid) (s : App κ) : Prop where
  user : HasUser s.db id
  credentials : ∀ row ∈ s.db.userCredentials.rows, row.userId ≠ id
  sessions : ∀ row ∈ s.db.sessions.rows, row.userId ≠ id
  verified : ∀ call row, s.calls call = some (.login (.verified row)) → row.id ≠ id
  issued : ∀ call issued, s.calls call = some (.login (.issued issued)) → issued.user.id ≠ id
  handlers : ∀ call endpoint request identity, s.calls call = some (.handler endpoint request (some identity)) →
    identity.userId ≠ id

omit [DecidableEq κ] in
/-- A user whose id is new is locked as it is inserted. -/
theorem locked_of_new {s s' : App κ} {id : Uuid} (h : RefsInv s) (hnew : ¬HasUser s.db id) (huser : HasUser s'.db id)
    (hcredentials : s'.db.userCredentials = s.db.userCredentials) (hsessions : s'.db.sessions = s.db.sessions)
    (hcalls : ∀ call pending, s'.calls call = some pending → s.calls call = some pending) : Locked id s' := by
  have hne : ∀ id', HasUser s.db id' → id' ≠ id := by
    rintro id' hid' rfl
    exact hnew hid'
  refine ⟨huser, ?_, ?_, ?_, ?_, ?_⟩
  · rw [hcredentials]
    exact fun row hmem => hne _ (h.referenced.credentials row hmem)
  · rw [hsessions]
    exact fun row hmem => hne _ (h.referenced.sessions row hmem)
  · exact fun call row hcall => hne _ (h.verified call row (hcalls call _ hcall))
  · exact fun call issued hcall => hne _ (h.issued call issued (hcalls call _ hcall))
  · exact fun call endpoint request identity hcall =>
      hne _ (h.handlers call endpoint request identity (hcalls call _ hcall))

/-- Credentials are inserted for a new user only. -/
theorem credentials_insertUser {ε : Type} {db : ApiDatabase} {auth : Database} {user : User}
    {credentials : UserCredentials} {failed : TableLock.Failure → ε} {id : Uuid} (huser : HasUser db id)
    (hlocked : ∀ row ∈ db.userCredentials.rows, row.userId ≠ id) (howner : credentials.userId = user.id)
    (hinsert : db.insertUser user credentials failed = .ok auth) :
    ∀ row ∈ auth.userCredentials.rows, row.userId ≠ id := by
  obtain ⟨users, userCredentials, husers, hcredentials, rfl⟩ := Database.insertUser_ok hinsert
  intro row hmem
  have hmem' : row ∈ userCredentials.rows := hmem
  rw [(Table.insert_ok hcredentials).1] at hmem'
  rcases List.mem_append.mp hmem' with hold | hnew
  · exact hlocked row hold
  · obtain rfl := List.mem_singleton.mp hnew
    obtain ⟨old, hold, rfl⟩ := huser
    have hdistinct := (Table.insert_ok husers).2.2 old hold
    simp only [usersSchema, Bool.and_eq_true, bne_iff_ne] at hdistinct
    rw [howner]
    exact hdistinct.1.symm

omit [DecidableEq κ] in
/-- No request is let through as a locked user. -/
theorem Locked.not_authenticated {s : App κ} {id : Uuid} (h : Locked id s) {request : Request}
    {identity : AuthenticatedUser}
    (hidentity : requireAuthenticated platform.crypto s.db.toDatabase s.now request = .ok identity) :
    identity.userId ≠ id := by
  obtain ⟨token, expiresAt, -, ⟨session, hmem, -, -, hid, -⟩, -⟩ := requireAuthenticated_eq_ok_iff.mp hidentity
  rw [← hid]
  exact h.sessions session hmem

omit [DecidableEq κ] in
/-- Nor does a login of one get past the checks. -/
theorem Locked.not_verified {s : App κ} {id : Uuid} (h : Locked id s) {request : LoginRequest} {row : LoginUserRow}
    (hverify : verifyLogin platform.unicode platform.crypto s.db.toDatabase request = .ok row) : row.id ≠ id := by
  obtain ⟨user, credentials, hcredentials, -, -, rfl⟩ :=
    (verifyLogin_eq_ok_iff (complete_of_verifyLogin hverify)).mp hverify
  show user.id ≠ id
  rw [← hcredentials.owner]
  exact h.credentials credentials hcredentials.credentials_mem

/-- **Every step** keeps a user locked. -/
theorem Locked.step {s : App κ} {id : Uuid} (h : Locked id s) (e : AppEvent κ) :
    Locked id (s.step platform e).1 := by
  refine ⟨hasUser_of_keeps (keeps_step platform s e) h.user, ?_, ?_, ?_, ?_, ?_⟩
  · have hmoves := step_moves platform s e
    generalize (s.step platform e).1.db = db, (s.step platform e).2 = answer at hmoves
    cases hmoves with
    | signup hcall haccepted hhash hinsert htold => exact credentials_insertUser h.user h.credentials rfl hinsert
    | bootstrapAdmin hadmin hnone hinsert => exact credentials_insertUser h.user h.credentials rfl hinsert
    | _ => exact h.credentials
  · intro row hmem
    rcases sessions_step hmem with ⟨old, hold, hid, -⟩ | ⟨call, turn, issued, rfl, hlogin, rfl⟩
    · rw [← hid]
      exact h.sessions old hold
    · exact h.issued call issued hlogin
  · intro call row hcall
    have hpark := step_parks platform s e call
    generalize (s.step platform e).1.calls call = pending at hpark hcall
    cases hpark with
    | same hkeeps => exact h.verified call row hcall
    | done => cases hcall
    | received hpass => cases hcall
    | verified hhandler hverify =>
        cases hcall
        exact h.not_verified hverify
    | issued hlogin hissue => cases hcall
  · intro call issued hcall
    have hpark := step_parks platform s e call
    generalize (s.step platform e).1.calls call = pending at hpark hcall
    cases hpark with
    | same hkeeps => exact h.issued call issued hcall
    | done => cases hcall
    | received hpass => cases hcall
    | verified hhandler hverify => cases hcall
    | issued hlogin hissue =>
        cases hcall
        obtain rfl := of_issueToken_user hissue
        exact h.verified call _ hlogin
  · intro call endpoint request identity hcall
    have hpark := step_parks platform s e call
    generalize (s.step platform e).1.calls call = pending at hpark hcall
    cases hpark with
    | same hkeeps => exact h.handlers call endpoint request identity hcall
    | done => cases hcall
    | received hpass =>
        rename_i arrival limiter user
        by_cases hlayers : .requireAuthenticated ∈ arrival.endpoint.layers
        · obtain ⟨identity', rfl, hidentity, -⟩ := Arrival.pass_authenticated hlayers hpass
          cases hcall
          exact h.not_authenticated hidentity
        · obtain rfl := Arrival.pass_public hlayers hpass
          cases hcall
    | verified hhandler hverify => cases hcall
    | issued hlogin hissue => cases hcall

/-- So does every run. -/
theorem Locked.run {s : App κ} {id : Uuid} (h : Locked id s) (events : List (AppEvent κ)) :
    Locked id (s.after platform events) := by
  have hstep : ∀ (s : App κ) (e : AppEvent κ), Locked id s → Locked id (s.step platform e).1 := fun s e h => h.step e
  exact Machine.run_invariant hstep h events

/-- A handler other than that of a login leaves the other calls as they are, and ends its own. -/
theorem calls_of_handler {s : App κ} {call call' : κ} {turn : Turn} {endpoint : Endpoint} {request : Request}
    {user : Option AuthenticatedUser} {pending : Pending}
    (hcall : s.calls call = some (.handler endpoint request user)) (hlogin : ∀ body, endpoint ≠ .login body)
    (hpending : (s.step platform (.proceed call turn)).1.calls call' = some pending) :
    s.calls call' = some pending := by
  have hpark := step_parks platform s (.proceed call turn) call'
  generalize (s.step platform (.proceed call turn)).1.calls call' = found at hpark hpending
  cases hpark with
  | same hkeeps => exact hpending
  | done => cases hpending
  | verified hhandler hverify =>
      rw [hcall] at hhandler
      cases hhandler
      exact absurd rfl (hlogin _)
  | issued hverified hissue =>
      rw [hcall] at hverified
      cases hverified

/-- The user that POST /admin/users reports is stored, and locked. -/
theorem locked_of_createUser {s : App κ} (h : RefsInv s) {e : AppEvent κ} {status : StatusCode}
    {response : CreateUserResponse} (hcreated : (s.step platform e).2 = some (.createUser status response)) :
    Locked response.id (s.step platform e).1
      ∧ ∃ user ∈ (s.step platform e).1.db.users.rows, user.id = response.id ∧ user.email = response.email := by
  have hmoves := step_moves platform s e
  rw [hcreated] at hmoves
  generalize hdb : (s.step platform e).1.db = db at hmoves
  cases hmoves with
  | refused h => exact absurd h (by simp [Answer.IsRefusal])
  | createUser hcall hname hinsert htold =>
      rename_i call turn body request user users
      obtain ⟨-, heq⟩ | ⟨-, heq⟩ := htold
      · cases heq
        obtain ⟨hrows, -, hdistinct⟩ := Table.insert_ok hinsert
        have hmem : body.user platform.unicode s.now (turn.newId 0) ∈ users.rows := by
          rw [hrows]
          exact List.mem_append_right _ (List.mem_singleton_self _)
        have hnew : ¬HasUser s.db (turn.newId 0) := by
          rintro ⟨old, hold, hid⟩
          have hdistinct' := hdistinct old hold
          simp only [usersSchema, Bool.and_eq_true, bne_iff_ne] at hdistinct'
          exact hdistinct'.1 hid
        refine ⟨?_, _, hmem, rfl, rfl⟩
        have huser : HasUser (s.step platform (.proceed call turn)).1.db (turn.newId 0) := by
          rw [hdb]
          exact ⟨_, hmem, rfl⟩
        exact locked_of_new h hnew huser (by rw [hdb]) (by rw [hdb])
          fun call' pending hpending => calls_of_handler hcall nofun hpending
      · cases heq
  | _ =>
      rename_i htold
      exact absurd htold (by simp [Told])

/-- **Users that an administrator creates cannot log in.** In every run from a database whose foreign keys hold, from
    the moment at which POST /admin/users reports a user: no login as that user gets past the checks, and one with the
    email of that user is answered as one for an unknown email; no session admits a request as that user, and no
    protected handler is called with its identity. -/
theorem created_users_cannot_log_in (platform : Platform)
    (hdummy : (platform.crypto.passwordHash platform.crypto.dummyPasswordHash).isSome) (db : ApiDatabase)
    (hdb : db.Referenced) (config : RateLimitConfig) (now : Timestamp) (events more : List (AppEvent κ))
    {e : AppEvent κ} {status : StatusCode} {response : CreateUserResponse}
    (hcreated : (((start db config now).after platform events).step platform e).2
      = some (.createUser status response)) :
    let later := (((start db config now).after platform events).step platform e).1.after platform more
    (∀ request row, verifyLogin platform.unicode platform.crypto later.db.toDatabase request = .ok row →
        row.id ≠ response.id)
      ∧ (∀ request : LoginRequest, request.Complete platform.unicode →
        response.email = some (request.normalizedEmail platform.unicode) →
        verifyLogin platform.unicode platform.crypto later.db.toDatabase request = .error invalidEmailOrPassword)
      ∧ (∀ request identity, requireAuthenticated platform.crypto later.db.toDatabase later.now request = .ok identity →
        identity.userId ≠ response.id)
      ∧ ∀ call endpoint request identity, later.calls call = some (.handler endpoint request (some identity)) →
        identity.userId ≠ response.id := by
  intro later
  obtain ⟨hlocked, user, hmem, hid, hemail⟩ := locked_of_createUser (refsInv_run db hdb config now events) hcreated
  have hlater : Locked response.id later := hlocked.run more
  refine ⟨fun _ _ => hlater.not_verified, ?_, fun _ _ => hlater.not_authenticated, hlater.handlers⟩
  intro request hcomplete hrequest
  refine verifyLogin_of_none hcomplete hdummy ?_
  -- the user with the email has no credentials to join
  obtain ⟨user', hmem', hid', -, hemail', -⟩ := (keeps_run platform _ more).users user hmem
  rw [Option.eq_none_iff_forall_not_mem]
  intro row hrow
  obtain ⟨found, credentials, h, -⟩ := findLoginUser_eq_some_iff.mp hrow
  obtain rfl : found = user' := by
    refine later.db.users.eq_of_not_distinct h.user_mem hmem' ?_
    simp [usersSchema, h.email_eq, hemail', hemail, hrequest]
  exact hlater.credentials credentials h.credentials_mem (h.owner.trans (hid'.trans hid))

/-- A trader signs up. -/
def sampleSignup : List (AppEvent Unit) :=
  [.receive () (sampleArrival (.signup (some ⟨"New", "New@Example.com ", "a password of its own"⟩)))]

/-- An administrator creates a user. -/
def sampleCreation : List (AppEvent Unit) :=
  .setRole 1 "admin" :: sampleLogin
    ++ [.receive () (sampleArrival (.createUser (some ⟨"Clerk", some " Clerk@Example.com", .trader⟩)))]

/-- The clerk cannot log in, also when another user has signed up since. -/
theorem created_users_cannot_log_in_clerk :
    let created := ((start sampleDatabase .default 0).after samplePlatform sampleCreation).step samplePlatform
      (.proceed () (sampleTurn 9))
    let later := created.1.after samplePlatform (sampleSignup ++ [.proceed () (sampleTurn 7), .setRole 9 "admin"])
    verifyLogin samplePlatform.unicode samplePlatform.crypto later.db.toDatabase ⟨"clerk@example.com", "password"⟩
      = .error invalidEmailOrPassword := by
  intro created later
  have hcreated : created.2 = some (.createUser .created ⟨9, "Clerk", some "clerk@example.com", "active", "trader"⟩) := by
    decide +kernel
  obtain ⟨-, hrefused, -⟩ := created_users_cannot_log_in samplePlatform (by decide +kernel) sampleDatabase
    sampleDatabase_referenced .default 0 sampleCreation
    (sampleSignup ++ [.proceed () (sampleTurn 7), .setRole 9 "admin"]) hcreated
  exact hrefused _ ⟨by decide +kernel, by decide +kernel⟩ (by decide +kernel)

/-! ## Users with credentials -/

/-- What a signup that reports its user has stored. -/
theorem stored_of_signup {s : App κ} {e : AppEvent κ} {status : StatusCode} {response : SignupResponse}
    (hsignup : (s.step platform e).2 = some (.signup status response)) :
    ∃ call turn passwordHash, e = .proceed call turn ∧ turn.passwordHash = some passwordHash
      ∧ ∃ user ∈ (s.step platform e).1.db.users.rows, user.id = response.id ∧ user.email = some response.email
        ∧ ∃ credentials ∈ (s.step platform e).1.db.userCredentials.rows, credentials.userId = response.id
          ∧ credentials.passwordHash = passwordHash := by
  have hmoves := step_moves platform s e
  rw [hsignup] at hmoves
  generalize (s.step platform e).1.db = db at hmoves ⊢
  cases hmoves with
  | refused h => exact absurd h (by simp [Answer.IsRefusal])
  | signup hcall haccepted hhash hinsert htold =>
      rename_i call turn body accepted request user passwordHash auth
      obtain ⟨-, heq⟩ | ⟨-, heq⟩ := htold
      · cases heq
        obtain ⟨users, userCredentials, husers, hcredentials, rfl⟩ := Database.insertUser_ok hinsert
        refine ⟨call, turn, passwordHash, rfl, hhash, (turn.signup s.now body).user accepted, ?_, rfl, rfl,
          (turn.signup s.now body).credentials passwordHash, ?_, rfl, rfl⟩
        · show _ ∈ users.rows
          rw [(Table.insert_ok husers).1]
          exact List.mem_append_right _ (List.mem_singleton_self _)
        · show _ ∈ userCredentials.rows
          rw [(Table.insert_ok hcredentials).1]
          exact List.mem_append_right _ (List.mem_singleton_self _)
      · cases heq
  | _ =>
      rename_i htold
      exact absurd htold (by simp [Told])

/-- **Users that sign up can log in.** After a signup that reports its user, and whatever happens then, a login with
    the email is decided by the hash that was made at the signup and the status that the user has now: a wrong password
    is refused, and the right one gets past the checks if and only if the account is active. -/
theorem signup_then_login (platform : Platform) (s : App κ) {e : AppEvent κ} {status : StatusCode}
    {response : SignupResponse} (hsignup : (s.step platform e).2 = some (.signup status response))
    (more : List (AppEvent κ)) :
    let later := (s.step platform e).1.after platform more
    ∃ call turn passwordHash, e = .proceed call turn ∧ turn.passwordHash = some passwordHash
      ∧ ∃ user ∈ later.db.users.rows, user.id = response.id
        ∧ ∀ verifies, platform.crypto.passwordHash passwordHash = some verifies →
          ∀ request : LoginRequest, request.Complete platform.unicode →
            request.normalizedEmail platform.unicode = response.email →
            verifyLogin platform.unicode platform.crypto later.db.toDatabase request =
              if verifies (asBytes request.password) = false then .error invalidEmailOrPassword
              else if user.status = "active" then .ok ⟨response.id, user.status, passwordHash⟩
              else .error accountNotActive := by
  intro later
  obtain ⟨call, turn, passwordHash, rfl, hhash, user, hmem, hid, hemail, credentials, hcredentials, howner, rfl⟩ :=
    stored_of_signup hsignup
  have hkeeps : ApiDatabase.Keeps _ later.db := keeps_run platform (s.step platform (.proceed call turn)).1 more
  obtain ⟨user', hmem', hid', -, hemail', -⟩ := hkeeps.users user hmem
  refine ⟨call, turn, credentials.passwordHash, rfl, hhash, user', hmem', hid'.trans hid, ?_⟩
  intro verifies hverifies request hcomplete hrequest
  have hfound : HasCredentials later.db.toDatabase (request.normalizedEmail platform.unicode) user' credentials := {
    user_mem := hmem'
    email_eq := by rw [hemail', hemail, hrequest]
    credentials_mem := hkeeps.credentials credentials hcredentials
    owner := by rw [howner, hid', hid] }
  rw [verifyLogin_of_found hcomplete hfound hverifies, hid', hid]

theorem signup_then_login_new :
    let later := (((start sampleDatabase .default 0).after samplePlatform sampleSignup).step samplePlatform
      (.proceed () (sampleTurn 7))).1.after samplePlatform [.setStatus 7 "suspended"]
    ∃ call turn passwordHash, (.proceed () (sampleTurn 7) : AppEvent Unit) = .proceed call turn
      ∧ turn.passwordHash = some passwordHash
      ∧ ∃ user ∈ later.db.users.rows, user.id = 7
        ∧ ∀ verifies, sampleCrypto.passwordHash passwordHash = some verifies →
          ∀ request : LoginRequest, request.Complete samplePlatform.unicode →
            request.normalizedEmail samplePlatform.unicode = "new@example.com" →
            verifyLogin samplePlatform.unicode sampleCrypto later.db.toDatabase request =
              if verifies (asBytes request.password) = false then .error invalidEmailOrPassword
              else if user.status = "active" then .ok ⟨7, user.status, passwordHash⟩
              else .error accountNotActive :=
  signup_then_login samplePlatform ((start sampleDatabase .default 0).after samplePlatform sampleSignup)
    (show _ = some (Answer.signup .created ⟨7, "New", "new@example.com", "active", "trader"⟩) by decide +kernel)
    [.setStatus 7 "suspended"]

end App
end LimitOrderBook
