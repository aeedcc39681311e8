import LimitOrderBook.Api.Auth.HashChecks
import LimitOrderBook.Properties.Sessions

/-!
# `Properties.LoginPrivacy` — what a failed login reveals

What a failed login reveals. A login that supplies a wrong password and one for an account that does not exist give
the same answer after the same work. The code has this from the dummy hash of `verify_password` and from reading the
status last; here it is one statement about two databases.

`Rejects` says that no user with this email logs in with this password: there is none, or it has no credentials, or
its hash is of another password. Whichever it is, exactly one check of the password is made (`loginChecks_eq`, with
the checks recorded by the copy of the handler in `Api.Auth.HashChecks`) and the login is refused in the same way
(`verifyLogin_of_rejects`).

In the other direction a login gets past the checks exactly if the password is verified and the user is active
(`verifyLogin_eq_ok_iff`), and then a session is stored (`storesSession_iff`). `login_reveals_nothing` puts the two
together. It is assumed that the stored hashes are well formed and that the insert of a session can take effect.
-/

namespace LimitOrderBook

/-- A user with this email, and the credentials of that user. -/
structure HasCredentials (db : Database) (email : String) (user : User) (credentials : UserCredentials) :
    Prop where
  user_mem : user ∈ db.users.rows
  email_eq : user.email = some email
  credentials_mem : credentials ∈ db.userCredentials.rows
  owner : credentials.userId = user.id

/-- The password is the one behind the hash. -/
def Verifies (crypto : Crypto) (hash password : String) : Prop :=
  ∃ verifies, crypto.passwordHash hash = some verifies ∧ verifies (asBytes password) = true

/-- No user with this email logs in with this password. -/
def Rejects (crypto : Crypto) (db : Database) (email password : String) : Prop :=
  ∀ user credentials, HasCredentials db email user credentials →
    ¬Verifies crypto credentials.passwordHash password

/-- The stored hashes are well formed. -/
def HashesParse (crypto : Crypto) (db : Database) : Prop :=
  ∀ credentials ∈ db.userCredentials.rows, (crypto.passwordHash credentials.passwordHash).isSome

/-- The insert of a session does not fail: its keys are new, and the users of `db` are still there. -/
structure Insertable (db later : Database) (sessionId : Uuid) (tokenHash : List UInt8) : Prop where
  fresh : ∀ session ∈ later.sessions.rows, session.id ≠ sessionId ∧ session.tokenHash ≠ tokenHash
  kept : ∀ user ∈ db.users.rows, ∃ user' ∈ later.users.rows, user'.id = user.id

section Handlers

variable {unicode : Unicode} {crypto : Crypto} {db later : Database} {now : Timestamp}
  {random : Option (Vector UInt8 32)} {sessionId : Uuid} {request : LoginRequest}

/-! ## The lookup -/

/-- At most one user has the email, and that user has at most one row of credentials. -/
theorem findLoginUser_eq_some_iff {email : String} {row : LoginUserRow} :
    findLoginUser db email = some row
      ↔ ∃ user credentials, HasCredentials db email user credentials
        ∧ row = ⟨user.id, user.status, credentials.passwordHash⟩ := by
  have hmem : ∀ row, row ∈ ((db.users.rows.filter fun user => user.email == some email).flatMap fun user =>
      (db.userCredentials.rows.filter fun credentials => credentials.userId == user.id).map fun credentials =>
        { id := user.id, status := user.status, passwordHash := credentials.passwordHash : LoginUserRow })
      ↔ ∃ user credentials, HasCredentials db email user credentials
        ∧ row = ⟨user.id, user.status, credentials.passwordHash⟩ := by
    intro row
    simp only [List.mem_flatMap, List.mem_map, List.mem_filter, beq_iff_eq]
    constructor
    · rintro ⟨user, ⟨huser, hemail⟩, credentials, ⟨hcredentials, howner⟩, rfl⟩
      exact ⟨user, credentials, ⟨huser, hemail, hcredentials, howner⟩, rfl⟩
    · rintro ⟨user, credentials, ⟨huser, hemail, hcredentials, howner⟩, rfl⟩
      exact ⟨user, ⟨huser, hemail⟩, credentials, ⟨hcredentials, howner⟩, rfl⟩
  unfold findLoginUser
  dsimp only
  rw [Table.head?_eq_some_iff, hmem]
  intro row hrow row' hrow'
  obtain ⟨user, credentials, h, rfl⟩ := (hmem row).mp hrow
  obtain ⟨user', credentials', h', rfl⟩ := (hmem row').mp hrow'
  obtain rfl : user = user' := by
    refine db.users.eq_of_not_distinct h.user_mem h'.user_mem ?_
    simp [usersSchema, h.email_eq, h'.email_eq]
  obtain rfl : credentials = credentials' := by
    refine db.userCredentials.eq_of_not_distinct h.credentials_mem h'.credentials_mem ?_
    simp [userCredentialsSchema, h.owner, h'.owner]
  rfl

/-! ## The check of the password -/

/-- The hash that the password is checked against is well formed. -/
theorem passwordHash_getD (hdummy : (crypto.passwordHash crypto.dummyPasswordHash).isSome)
    (hparse : HashesParse crypto db) (email : String) :
    ∃ verifies, crypto.passwordHash
      (((findLoginUser db email).map LoginUserRow.passwordHash).getD crypto.dummyPasswordHash) = some verifies := by
  cases hfind : findLoginUser db email with
  | none => exact Option.isSome_iff_exists.mp hdummy
  | some row =>
      obtain ⟨user, credentials, h, rfl⟩ := findLoginUser_eq_some_iff.mp hfind
      exact Option.isSome_iff_exists.mp (hparse credentials h.credentials_mem)

/-- A request with an email and a password. -/
structure LoginRequest.Complete (unicode : Unicode) (request : LoginRequest) : Prop where
  email : unicode.toLowercase (unicode.trim request.email) ≠ ""
  password : request.password ≠ ""

theorem LoginRequest.Complete.not_blank (h : request.Complete unicode) :
    ¬((unicode.toLowercase (unicode.trim request.email)).isEmpty || request.password.isEmpty) = true := by
  rw [Bool.or_eq_true, String.isEmpty_iff, String.isEmpty_iff, not_or]
  exact ⟨h.email, h.password⟩

/-- **A password is checked against exactly one hash**, whether there is a user or not. -/
theorem loginChecks_eq (hdummy : (crypto.passwordHash crypto.dummyPasswordHash).isSome)
    (hparse : HashesParse crypto db) (h : request.Complete unicode) :
    ∃ hash, loginChecks unicode crypto db request = [⟨asBytes request.password, hash⟩] := by
  obtain ⟨verifies, hhash⟩ :=
    passwordHash_getD hdummy hparse (unicode.toLowercase (unicode.trim request.email))
  unfold loginChecks passwordChecks
  dsimp only
  rw [if_neg h.not_blank, hhash]
  exact ⟨_, rfl⟩

/-- **The password is looked at first**: the answer to a wrong one, or for no user, is the same. -/
theorem verifyLogin_of_rejects (hdummy : (crypto.passwordHash crypto.dummyPasswordHash).isSome)
    (hparse : HashesParse crypto db) (h : request.Complete unicode)
    (hrejects : Rejects crypto db (unicode.toLowercase (unicode.trim request.email)) request.password) :
    verifyLogin unicode crypto db request = .error invalidEmailOrPassword := by
  obtain ⟨verifies, hhash⟩ :=
    passwordHash_getD hdummy hparse (unicode.toLowercase (unicode.trim request.email))
  unfold verifyLogin verifyPassword
  dsimp only
  rw [if_neg h.not_blank, hhash, Machine.ok_bind]
  cases hfind : findLoginUser db (unicode.toLowercase (unicode.trim request.email)) with
  | none => rfl
  | some row =>
      obtain ⟨user, credentials, hcredentials, rfl⟩ := findLoginUser_eq_some_iff.mp hfind
      have hwrong : verifies (asBytes request.password) = false := by
        rw [hfind] at hhash
        exact Bool.eq_false_iff.mpr fun hright => hrejects user credentials hcredentials ⟨verifies, hhash, hright⟩
      rw [hwrong]
      rfl

/-- A stored hash is checked for what it is. -/
theorem verifyPassword_some {password hash : String} :
    verifyPassword crypto password (some hash) = .ok true ↔ Verifies crypto hash password := by
  unfold verifyPassword Verifies
  dsimp only [Option.getD_some]
  cases crypto.passwordHash hash with
  | none => simp
  | some verifies => simp

theorem parseStatus_eq_ok_iff {value : String} {status : UserStatus} :
    parseStatus value = .ok status ↔ value = status.asStr := by
  unfold parseStatus
  rw [← UserStatus.parse_eq_some_iff]
  cases UserStatus.parse value <;> simp

/-- A login gets past the checks if and only if the password is right and the account is active. -/
theorem verifyLogin_eq_ok_iff (h : request.Complete unicode) {row : LoginUserRow} :
    verifyLogin unicode crypto db request = .ok row
      ↔ ∃ user credentials, HasCredentials db (unicode.toLowercase (unicode.trim request.email)) user credentials
        ∧ Verifies crypto credentials.passwordHash request.password ∧ user.status = UserStatus.active.asStr
        ∧ row = ⟨user.id, user.status, credentials.passwordHash⟩ := by
  unfold verifyLogin
  dsimp only
  rw [if_neg h.not_blank]
  constructor
  · intro hlogin
    obtain ⟨passwordMatches, hverify, hlogin⟩ := Machine.bind_eq_ok.mp hlogin
    split at hlogin
    next => cases hlogin
    next found hfilter =>
      obtain ⟨hfind, rfl⟩ := Option.filter_eq_some_iff.mp hfilter
      obtain ⟨status, hstatus, hlogin⟩ := Machine.bind_eq_ok.mp hlogin
      split at hlogin
      next => cases hlogin
      next hactive =>
        obtain rfl := Except.ok.inj hlogin
        obtain ⟨user, credentials, hcredentials, rfl⟩ := findLoginUser_eq_some_iff.mp hfind
        obtain rfl : status = .active := by simpa using hactive
        rw [hfind] at hverify
        exact ⟨user, credentials, hcredentials, verifyPassword_some.mp hverify,
          parseStatus_eq_ok_iff.mp hstatus, rfl⟩
  · rintro ⟨user, credentials, hcredentials, hverifies, hstatus, rfl⟩
    have hfind := findLoginUser_eq_some_iff.mpr ⟨user, credentials, hcredentials, rfl⟩
    have hverify := verifyPassword_some.mpr hverifies
    rw [hfind]
    show (verifyPassword crypto request.password (some credentials.passwordHash) >>= _) = _
    rw [hverify, Machine.ok_bind]
    show (parseStatus user.status >>= _) = _
    rw [parseStatus_eq_ok_iff.mpr hstatus]
    rfl

/-! ## The insert -/

/-- An insert that breaks no constraint stores the session. -/
theorem storeSession_of_insertable (issued : IssuedToken) {user : User}
    (hinsertable : Insertable db later issued.sessionId issued.token.hash) (huser : user ∈ db.users.rows)
    (hid : issued.user.id = user.id) (hexpires : now < issued.expiresAt) :
    ∃ sessions, storeSession later now issued = ({ later with sessions := sessions }, .ok (.ok, issued.response))
      ∧ sessions.rows = later.sessions.rows ++ [issued.session now] := by
  have hcheck : ∀ session ∈ later.sessions.rows ++ [issued.session now], sessionsSchema.check session = true := by
    intro session hmem
    rcases List.mem_append.mp hmem with hmem | hmem
    · exact later.sessions.checked session hmem
    · obtain rfl := List.mem_singleton.mp hmem
      exact decide_eq_true hexpires
  have hunique : (later.sessions.rows ++ [issued.session now]).Pairwise fun session session' =>
      sessionsSchema.distinct session session' = true := by
    refine List.pairwise_append.mpr ⟨later.sessions.unique, List.pairwise_singleton _ _, ?_⟩
    intro session hmem session' hmem'
    obtain rfl := List.mem_singleton.mp hmem'
    obtain ⟨hid, hhash⟩ := hinsertable.fresh session hmem
    simp [sessionsSchema, IssuedToken.session, hid, hhash]
  obtain ⟨sessions, hinsert, hrows⟩ := Table.ofRows?_of_constraints hcheck hunique
  have hreferenced : (later.users.rows.any fun user => user.id == issued.user.id) = true := by
    obtain ⟨user', hmem, hkept⟩ := hinsertable.kept user huser
    rw [List.any_eq_true]
    exact ⟨user', hmem, beq_iff_eq.mpr (hkept.trans hid.symm)⟩
  refine ⟨sessions, ?_, hrows⟩
  unfold storeSession
  dsimp only
  rw [if_pos hreferenced]
  have hinsert' : later.sessions.insert? (issued.session now) = some sessions := hinsert
  unfold IssuedToken.session at hinsert'
  rw [hinsert']
  rfl

/-! ## Logins -/

/-- The login stores a session of this user. -/
def StoresSession (later after : Database) (userId : Uuid) : Prop :=
  ∃ session, after.sessions.rows = later.sessions.rows ++ [session] ∧ session.userId = userId

/-- A database that is left as it is stores no session. -/
theorem not_storesSession_self (later : Database) (userId : Uuid) : ¬StoresSession later later userId := by
  rintro ⟨session, hrows, -⟩
  simp at hrows

/-- **A login stores a session** if and only if it gets past the checks. -/
theorem storesSession_iff {randomBytes : Vector UInt8 32} {log : List HashCheck}
    (hinsertable : Insertable db later sessionId (hashToken crypto (crypto.base64UrlNoPad randomBytes.toList)))
    (h : request.Complete unicode) (userId : Uuid) :
    StoresSession later
        ((authenticateChecking unicode crypto db later now (some randomBytes) sessionId request).run log).1.1 userId
      ↔ ∃ row, verifyLogin unicode crypto db request = .ok row ∧ row.id = userId := by
  cases hlogin : verifyLogin unicode crypto db request with
  | error e =>
      rw [run_authenticateChecking_of_error hlogin]
      simp [not_storesSession_self]
  | ok row =>
      obtain ⟨user, credentials, hcredentials, -, -, rfl⟩ := (verifyLogin_eq_ok_iff h).mp hlogin
      let token : GeneratedToken :=
        ⟨crypto.base64UrlNoPad randomBytes.toList, hashToken crypto (crypto.base64UrlNoPad randomBytes.toList)⟩
      let issued : IssuedToken :=
        ⟨⟨user.id, user.status, credentials.passwordHash⟩, token, sessionId, now + sessionLifetime⟩
      have hissue : issueToken crypto now (some randomBytes) sessionId issued.user = .ok issued := rfl
      have hexpires : now < issued.expiresAt := Nat.lt_add_of_pos_right (by decide)
      obtain ⟨sessions, hstore, hrows⟩ :=
        storeSession_of_insertable issued hinsertable hcredentials.user_mem rfl hexpires
      rw [run_authenticateChecking_of_ok hlogin hissue, hstore]
      constructor
      · rintro ⟨session, hsession, rfl⟩
        obtain rfl := List.singleton_inj.mp (List.append_cancel_left (hrows.symm.trans hsession))
        exact ⟨_, rfl, rfl⟩
      · rintro ⟨row, hrow, rfl⟩
        obtain rfl := Except.ok.inj hrow
        exact ⟨_, hrows, rfl⟩

/-- **A login does not reveal whether an account exists, or its status.** Two logins with the same email and
    password, on two databases in which the password is not the one of the account, give the same answer,
    check the password against one hash each, and store nothing. A session is stored exactly when the
    password is the one of an account that is active. -/
theorem login_reveals_nothing (unicode : Unicode) (crypto : Crypto)
    (hdummy : (crypto.passwordHash crypto.dummyPasswordHash).isSome) (request : LoginRequest)
    (hcomplete : request.Complete unicode) :
    let email := unicode.toLowercase (unicode.trim request.email)
    (∀ db db' later later' now now' random random' sessionId sessionId',
      HashesParse crypto db → HashesParse crypto db' →
      Rejects crypto db email request.password → Rejects crypto db' email request.password →
      let first := (authenticateChecking unicode crypto db later now random sessionId request).run []
      let second := (authenticateChecking unicode crypto db' later' now' random' sessionId' request).run []
      first.1.2 = .error invalidEmailOrPassword ∧ second.1.2 = first.1.2
        ∧ (∃ hash, first.2 = [⟨asBytes request.password, hash⟩])
        ∧ (∃ hash, second.2 = [⟨asBytes request.password, hash⟩])
        ∧ first.1.1 = later ∧ second.1.1 = later')
    ∧ ∀ db later now randomBytes sessionId,
      Insertable db later sessionId (hashToken crypto (crypto.base64UrlNoPad randomBytes.toList)) →
      let login := (authenticateChecking unicode crypto db later now (some randomBytes) sessionId request).run []
      (∀ userId, StoresSession later login.1.1 userId
        ↔ ∃ user credentials, HasCredentials db email user credentials
          ∧ Verifies crypto credentials.passwordHash request.password
          ∧ user.status = UserStatus.active.asStr ∧ user.id = userId)
      ∧ (login.1.1 = later ∨ ∃ userId, StoresSession later login.1.1 userId) := by
  intro email
  constructor
  · intro db db' later later' now now' random random' sessionId sessionId' hparse hparse' hrejects hrejects'
      first second
    have hfirst : first = _ := run_authenticateChecking_of_error
      (verifyLogin_of_rejects hdummy hparse hcomplete hrejects)
    have hsecond : second = _ := run_authenticateChecking_of_error
      (verifyLogin_of_rejects hdummy hparse' hcomplete hrejects')
    rw [hfirst, hsecond]
    exact ⟨rfl, rfl, loginChecks_eq hdummy hparse hcomplete, loginChecks_eq hdummy hparse' hcomplete, rfl, rfl⟩
  · intro db later now randomBytes sessionId hinsertable login
    have hstores : ∀ userId, StoresSession later login.1.1 userId ↔ _ := storesSession_iff hinsertable hcomplete
    constructor
    · intro userId
      rw [hstores]
      constructor
      · rintro ⟨row, hlogin, rfl⟩
        obtain ⟨user, credentials, hcredentials, hverifies, hactive, rfl⟩ :=
          (verifyLogin_eq_ok_iff hcomplete).mp hlogin
        exact ⟨user, credentials, hcredentials, hverifies, hactive, rfl⟩
      · rintro ⟨user, credentials, hcredentials, hverifies, hactive, rfl⟩
        exact ⟨_, (verifyLogin_eq_ok_iff hcomplete).mpr ⟨user, credentials, hcredentials, hverifies, hactive, rfl⟩,
          rfl⟩
    · cases hlogin : verifyLogin unicode crypto db request with
      | error e =>
          have hrun : login = _ := run_authenticateChecking_of_error hlogin
          exact Or.inl (congrArg (fun run => run.1.1) hrun)
      | ok row => exact Or.inr ⟨row.id, (hstores row.id).mpr ⟨row, hlogin, rfl⟩⟩

end Handlers

/-! ### An unknown email, with the password behind the dummy hash -/

/-- The Argon2 hash of `dummy-password-for-unknown-emails`. -/
def dummyHash : String :=
  "$argon2id$v=19$m=19456,t=2,p=1$c29tZXNhbHRzb21lc2FsdA$I0CSNVgCM43oNCrQryi9/vV7dR+4Upue58NnehkuHiE"

/-- The Argon2 hash of `correct horse battery staple`. -/
def passphraseHash : String :=
  "$argon2id$v=19$m=19456,t=2,p=1$c29tZXNhbHRzb21lc2FsdA$ISO7kkvFzh19GM8qB7patN3C3Y9HHsjlVTfEZ9T600Y"

def dummyCrypto : Crypto :=
  { sampleCrypto with
    passwordHash := fun hash =>
      if hash = dummyHash then some fun password => password == asBytes "dummy-password-for-unknown-emails"
      else if hash = passphraseHash then some fun password => password == asBytes "correct horse battery staple"
      else none
    dummyPasswordHash := dummyHash }

/-- A database with one account, or with none. -/
def accounts (account : Option (UserStatus × String)) : Database where
  users := {
    rows := account.toList.map fun x => ⟨1, "Trader", some "trader@example.com", x.1.asStr, "trader", 0⟩
    checked := by
      cases account with
      | none => simp
      | some x => cases h : x.1 <;> simp [h, usersSchema, UserStatus.asStr]
    unique := by cases account <;> simp }
  userCredentials := {
    rows := account.toList.map fun x => ⟨1, x.2, 0, 0⟩
    checked := by simp [userCredentialsSchema]
    unique := by cases account <;> simp }
  sessions := .empty

def dummyRequest : LoginRequest := ⟨" Trader@Example.com ", "dummy-password-for-unknown-emails"⟩

def dummyLogin (db : Database) : (Database × Except ApiError (StatusCode × LoginResponse)) × List HashCheck :=
  (authenticateChecking ⟨Char.isWhitespace, String.toLower⟩ dummyCrypto db db 0 (some (Vector.replicate 32 0)) 7
    dummyRequest).run []

/-- A suspended account with another password looks like no account; one with this password gets a session. -/
theorem login_reveals_nothing_dummy :
    (dummyLogin (accounts (some (.suspended, passphraseHash)))).1.2 = (dummyLogin (accounts none)).1.2
      ∧ StoresSession (accounts (some (.active, dummyHash)))
        (dummyLogin (accounts (some (.active, dummyHash)))).1.1 1 := by
  have hdummy : (dummyCrypto.passwordHash dummyCrypto.dummyPasswordHash).isSome := by decide +kernel
  have hcomplete : dummyRequest.Complete ⟨Char.isWhitespace, String.toLower⟩ :=
    ⟨by decide +kernel, by decide +kernel⟩
  obtain ⟨hsame, hstores⟩ :=
    login_reveals_nothing ⟨Char.isWhitespace, String.toLower⟩ dummyCrypto hdummy dummyRequest hcomplete
  have hemail : String.toLower (Unicode.trim ⟨Char.isWhitespace, String.toLower⟩ dummyRequest.email)
      = "trader@example.com" := by decide +kernel
  constructor
  · refine (hsame (accounts none) (accounts (some (.suspended, passphraseHash))) _ _ 0 0 _ _ 7 7
      ?_ ?_ ?_ ?_).2.1
    · intro credentials h
      cases h
    · intro credentials h
      obtain rfl := List.mem_singleton.mp h
      decide +kernel
    · rintro user credentials ⟨h, -⟩
      cases h
    · rintro user credentials ⟨-, -, h, -⟩
      obtain rfl := List.mem_singleton.mp h
      rintro ⟨verifies, hverifies, hright⟩
      have hne : passphraseHash ≠ dummyHash := by decide +kernel
      have hhash : dummyCrypto.passwordHash passphraseHash
          = some fun password => password == asBytes "correct horse battery staple" := by
        unfold dummyCrypto
        dsimp only
        rw [if_neg hne, if_pos rfl]
      obtain rfl := Option.some.inj (hhash.symm.trans hverifies)
      exact absurd hright (by decide +kernel)
  · have hinsertable : Insertable (accounts (some (.active, dummyHash))) (accounts (some (.active, dummyHash))) 7
        (hashToken dummyCrypto (dummyCrypto.base64UrlNoPad (Vector.replicate 32 0).toList)) := by
      refine ⟨?_, fun user h => ⟨user, h, rfl⟩⟩
      intro session h
      cases h
    refine ((hstores _ _ 0 _ 7 hinsertable).1 1).mpr
      ⟨_, _, ⟨List.mem_singleton.mpr rfl, ?_, List.mem_singleton.mpr rfl, rfl⟩, ?_, rfl, rfl⟩
    · exact congrArg some hemail.symm
    · exact ⟨fun password => password == asBytes "dummy-password-for-unknown-emails", rfl, by decide +kernel⟩

end LimitOrderBook
