import Mathlib.Data.Set.Function
import LimitOrderBook.Api.Auth.Server

/-!
# `Properties.Sessions` — who is let through

The code spreads the validity of a session over an insert in `storeSession`, a guarded update in `logout`, a filtered
join in `findValidSession` and a check of the status after it. Here it is one condition on the history of the server:
a request is let through when a login returned its token, no logout with the token completed since, the session has
not expired, and the user is active now.

* **Histories.** `LoggedIn` says that a login of the history returned a session and no later logout ended it. Its
  value after one event more is `loggedIn_snoc_iff`, with a lemma each for a login, a logout and anything else.
* **Steps.** `OpenSession` is the same of the database. `Moves` lists what a step can do to the stored sessions: a
  login stores one, a logout revokes one, and nothing else touches them.
* **The invariant.** `SessionsInv` says that the open sessions are those of the history that are logged in.
  `ClosedSession` is kept as well: a session that is over stays over.

SHA-256 is assumed not to collide on a set of tokens that contains those the history uses (`Event.Uses`).
-/

namespace LimitOrderBook

/-! ## Histories -/

section Histories

variable {κ : Type}

/-- The event ends a login that returns `session`. -/
def LogsIn (x : Event κ × Response) (session : LoginResponse) : Prop :=
  ∃ status, x.2 = .login (.ok (status, session))

/-- The event is a logout with `token` that completes. -/
def LogsOut (x : Event κ × Response) (token : String) : Prop :=
  ∃ request status, x = (.logout request, .logout (.ok status)) ∧ bearerToken request = .ok token

/-- A login returned `session`, and no logout with its token has completed since. -/
def LoggedIn (history : List (Event κ × Response)) (session : LoginResponse) : Prop :=
  ∃ before x after, history = before ++ x :: after ∧ LogsIn x session
    ∧ ∀ y ∈ after, ¬LogsOut y session.accessToken

/-- At first no one is logged in. -/
theorem not_loggedIn_nil (session : LoginResponse) : ¬LoggedIn ([] : List (Event κ × Response)) session := by
  rintro ⟨before, x, after, h, -⟩
  simp at h

theorem LogsIn.not_logsOut {x : Event κ × Response} {session : LoginResponse} (h : LogsIn x session)
    (token : String) : ¬LogsOut x token := by
  rintro ⟨request, status, rfl, -⟩
  obtain ⟨_, h⟩ := h
  cases h

/-- What one more event does to who is logged in. -/
theorem loggedIn_snoc_iff {history : List (Event κ × Response)} {x : Event κ × Response}
    {session : LoginResponse} :
    LoggedIn (history ++ [x]) session
      ↔ LogsIn x session ∨ LoggedIn history session ∧ ¬LogsOut x session.accessToken := by
  constructor
  · rintro ⟨before, y, after, h, hin, hout⟩
    rcases List.eq_nil_or_concat after with rfl | ⟨after, z, rfl⟩
    · obtain ⟨-, h⟩ := List.append_inj' h rfl
      obtain rfl : x = y := by simpa using h
      exact Or.inl hin
    · rw [List.concat_eq_append] at h hout
      rw [← List.cons_append, ← List.append_assoc] at h
      obtain ⟨rfl, h⟩ := List.append_inj' h rfl
      obtain rfl : x = z := by simpa using h
      exact Or.inr ⟨⟨before, y, after, rfl, hin, fun w hw => hout w (List.mem_append_left _ hw)⟩,
        hout x (by simp)⟩
  · rintro (hin | ⟨⟨before, y, after, rfl, hin, hout⟩, hx⟩)
    · exact ⟨history, x, [], rfl, hin, by simp⟩
    · refine ⟨before, y, after ++ [x], by simp, hin, ?_⟩
      intro w hw
      rcases List.mem_append.mp hw with hw | hw
      · exact hout w hw
      · rw [List.mem_singleton.mp hw]
        exact hx

/-- An event that ends no login and is no logout that completes leaves the same sessions logged in. -/
theorem loggedIn_snoc_of_quiet {history : List (Event κ × Response)} {e : Event κ} {response : Response}
    (hin : ∀ answer, response ≠ .login (.ok answer)) (hout : ∀ status, response ≠ .logout (.ok status))
    (session : LoginResponse) : LoggedIn (history ++ [(e, response)]) session ↔ LoggedIn history session := by
  rw [loggedIn_snoc_iff]
  constructor
  · rintro (⟨status, h⟩ | ⟨h, -⟩)
    · exact absurd h (hin _)
    · exact h
  · intro h
    refine Or.inr ⟨h, ?_⟩
    rintro ⟨request, status, heq, -⟩
    exact hout status (Prod.mk.inj heq).2

/-- A login adds its own session. -/
theorem loggedIn_snoc_of_login {history : List (Event κ × Response)} {e : Event κ} {status : StatusCode}
    {session session' : LoginResponse} :
    LoggedIn (history ++ [(e, .login (.ok (status, session')))]) session
      ↔ session = session' ∨ LoggedIn history session := by
  rw [loggedIn_snoc_iff]
  constructor
  · rintro (⟨status', h⟩ | ⟨h, -⟩)
    · cases h
      exact Or.inl rfl
    · exact Or.inr h
  · rintro (rfl | h)
    · exact Or.inl ⟨status, rfl⟩
    · exact Or.inr ⟨h, LogsIn.not_logsOut ⟨status, rfl⟩ _⟩

/-- A logout ends the sessions of its token. -/
theorem loggedIn_snoc_of_logout {history : List (Event κ × Response)} {request : Request} {token : String}
    {status : StatusCode} (htoken : bearerToken request = .ok token) {session : LoginResponse} :
    LoggedIn (history ++ [(.logout request, .logout (.ok status))]) session
      ↔ LoggedIn history session ∧ session.accessToken ≠ token := by
  rw [loggedIn_snoc_iff]
  constructor
  · rintro (⟨status', h⟩ | ⟨h, hout⟩)
    · cases h
    · refine ⟨h, ?_⟩
      rintro rfl
      exact hout ⟨request, status, rfl, htoken⟩
  · rintro ⟨h, hne⟩
    refine Or.inr ⟨h, ?_⟩
    rintro ⟨request', status', heq, htoken'⟩
    obtain rfl := Event.logout.inj (Prod.mk.inj heq).1
    exact hne (Except.ok.inj (htoken'.symm.trans htoken))

/-- Who is logged in after more events was so before them, or logged in during them. -/
theorem LoggedIn.of_append {history more : List (Event κ × Response)} {session : LoginResponse}
    (h : LoggedIn (history ++ more) session) :
    LoggedIn history session ∨ ∃ x ∈ more, LogsIn x session := by
  obtain ⟨before, x, after, happend, hin, hout⟩ := h
  rcases List.append_eq_append_iff.mp happend with ⟨rest, rfl, hmore⟩ | ⟨rest, rfl, hrest⟩
  · exact Or.inr ⟨x, by simp [hmore], hin⟩
  · cases rest with
    | nil => exact Or.inr ⟨x, by simp [← List.nil_append more ▸ hrest], hin⟩
    | cons y rest =>
        obtain ⟨rfl, rfl⟩ := List.cons.inj hrest
        exact Or.inl ⟨before, x, rest, rfl, hin, fun w hw => hout w (List.mem_append_left _ hw)⟩

end Histories

/-! ## What the handlers do -/

section Handlers

variable {unicode : Unicode} {crypto : Crypto} {db : Database} {now : Timestamp}

/-- The session of `tokenHash` is stored, and not revoked. -/
def OpenSession (db : Database) (tokenHash : List UInt8) (userId : Uuid) (expiresAt : Timestamp) : Prop :=
  ∃ session ∈ db.sessions.rows, session.tokenHash = tokenHash ∧ session.revokedAt = none
    ∧ session.userId = userId ∧ session.expiresAt = expiresAt

/-- One session has a token hash. -/
theorem session_unique {session session' : Session} (h : session ∈ db.sessions.rows)
    (h' : session' ∈ db.sessions.rows) (heq : session.tokenHash = session'.tokenHash) : session = session' :=
  db.sessions.eq_of_not_distinct h h' (by simp [sessionsSchema, heq])

/-- One user has an id. -/
theorem user_unique {user user' : User} (h : user ∈ db.users.rows) (h' : user' ∈ db.users.rows)
    (heq : user.id = user'.id) : user = user' :=
  db.users.eq_of_not_distinct h h' (by simp [usersSchema, heq])

/-- Whether a session is open is a matter of the table of sessions. -/
theorem openSession_congr {db' : Database} (h : db'.sessions = db.sessions) {tokenHash : List UInt8}
    {userId : Uuid} {expiresAt : Timestamp} :
    OpenSession db' tokenHash userId expiresAt ↔ OpenSession db tokenHash userId expiresAt := by
  unfold OpenSession
  rw [h]

/-- **The join in words**: the open session of the token, not expired, with its user as it is now. -/
theorem findValidSession_eq_some_iff {token : String} {row : SessionUserRow} :
    findValidSession crypto db now token = some row ↔
      ∃ expiresAt, OpenSession db (hashToken crypto token) row.userId expiresAt ∧ now < expiresAt
        ∧ ∃ user ∈ db.users.rows, user.id = row.userId ∧ row.role = user.role ∧ row.status = user.status := by
  unfold findValidSession
  dsimp only
  rw [Table.head?_eq_some_iff]
  · simp only [List.mem_flatMap, List.mem_filter, List.mem_map, Bool.and_eq_true, beq_iff_eq,
      Option.isNone_iff_eq_none, decide_eq_true_eq]
    constructor
    · rintro ⟨session, ⟨hmem, ⟨hhash, hrevoked⟩, hexpires⟩, user, ⟨huser, hid⟩, rfl⟩
      exact ⟨session.expiresAt, ⟨session, hmem, hhash, hrevoked, rfl, rfl⟩, hexpires, user, huser, hid,
        rfl, rfl⟩
    · rintro ⟨_, ⟨session, hmem, hhash, hrevoked, hid, rfl⟩, hexpires, user, huser, hid', hrole, hstatus⟩
      refine ⟨session, ⟨hmem, ⟨hhash, hrevoked⟩, hexpires⟩, user, ⟨huser, hid'.trans hid.symm⟩, ?_⟩
      rw [hid, ← hrole, ← hstatus]
  · -- one session has the hash, and one user its id
    intro row hrow row' hrow'
    simp only [List.mem_flatMap, List.mem_filter, List.mem_map, Bool.and_eq_true, beq_iff_eq] at hrow hrow'
    obtain ⟨session, ⟨hmem, ⟨hhash, -⟩, -⟩, user, ⟨huser, hid⟩, rfl⟩ := hrow
    obtain ⟨session', ⟨hmem', ⟨hhash', -⟩, -⟩, user', ⟨huser', hid'⟩, rfl⟩ := hrow'
    obtain rfl := session_unique hmem hmem' (hhash.trans hhash'.symm)
    obtain rfl := user_unique huser huser' (hid.trans hid'.symm)
    rfl

/-- **Who is let through now.** -/
theorem requireAuthenticated_eq_ok_iff {request : Request} {identity : AuthenticatedUser} :
    requireAuthenticated crypto db now request = .ok identity ↔
      ∃ token expiresAt, bearerToken request = .ok token
        ∧ OpenSession db (hashToken crypto token) identity.userId expiresAt ∧ now < expiresAt
        ∧ ∃ user ∈ db.users.rows, user.id = identity.userId ∧ user.status = UserStatus.active.asStr
          ∧ user.role = identity.role.asStr := by
  unfold requireAuthenticated
  rw [Machine.bind_eq_ok]
  constructor
  · rintro ⟨token, htoken, h⟩
    split at h
    · cases h
    · rename_i row hrow
      obtain ⟨expiresAt, hopen, hexpires, user, huser, hid, hrole, hstatus⟩ :=
        findValidSession_eq_some_iff.mp hrow
      split at h
      · cases h
      · rename_i status hparse
        split at h
        · cases h
        · rename_i hactive
          obtain rfl : status = .active := by simpa using hactive
          split at h
          · cases h
          · rename_i role hparse'
            cases h
            refine ⟨token, expiresAt, htoken, hopen, hexpires, user, huser, hid, ?_, ?_⟩
            · rw [← hstatus]
              exact UserStatus.parse_eq_some_iff.mp hparse
            · rw [← hrole]
              exact UserRole.parse_eq_some_iff.mp hparse'
  · rintro ⟨token, expiresAt, htoken, hopen, hexpires, user, huser, hid, hstatus, hrole⟩
    have hrow : findValidSession crypto db now token = some ⟨identity.userId, user.role, user.status⟩ :=
      findValidSession_eq_some_iff.mpr ⟨expiresAt, hopen, hexpires, user, huser, hid, rfl, rfl⟩
    refine ⟨token, htoken, ?_⟩
    rw [hrow]
    dsimp only
    rw [UserStatus.parse_eq_some_iff.mpr hstatus, UserRole.parse_eq_some_iff.mpr hrole]
    rfl

/-- The session that an issued token is stored as. -/
def IssuedToken.session (issued : IssuedToken) (now : Timestamp) : Session :=
  ⟨issued.sessionId, issued.user.id, issued.token.hash, issued.expiresAt, none, now⟩

/-- What the client of an issued token is told. -/
def IssuedToken.response (issued : IssuedToken) : LoginResponse :=
  ⟨issued.user.id, issued.token.raw, issued.expiresAt⟩

/-- A login stores its session and returns it, or fails and changes nothing. -/
theorem storeSession_cases (db : Database) (now : Timestamp) (issued : IssuedToken) :
    storeSession db now issued = (db, .error failedToCreateSession)
      ∨ ∃ sessions, storeSession db now issued = ({ db with sessions := sessions }, .ok (.ok, issued.response))
        ∧ sessions.rows = db.sessions.rows ++ [issued.session now] := by
  unfold storeSession
  dsimp only
  split
  · exact Or.inl rfl
  · rename_i sessions hinsert
    split at hinsert
    · exact Or.inr ⟨sessions, rfl, Table.rows_of_insert? hinsert⟩
    · cases hinsert

/-- Revoke the session of `tokenHash`, if it is open. -/
def revoke (now : Timestamp) (tokenHash : List UInt8) (session : Session) : Session :=
  if session.tokenHash == tokenHash && session.revokedAt.isNone then { session with revokedAt := some now }
  else session

/-- A stored session opens one. -/
theorem openSession_of_stored {db' : Database} {issued : IssuedToken}
    (hrows : db'.sessions.rows = db.sessions.rows ++ [issued.session now]) {tokenHash : List UInt8}
    {userId : Uuid} {expiresAt : Timestamp} :
    OpenSession db' tokenHash userId expiresAt ↔ OpenSession db tokenHash userId expiresAt
      ∨ issued.token.hash = tokenHash ∧ issued.user.id = userId ∧ issued.expiresAt = expiresAt := by
  unfold OpenSession
  rw [hrows]
  constructor
  · rintro ⟨session, hmem, hhash, hrevoked, hid, hexpires⟩
    rcases List.mem_append.mp hmem with hmem | hmem
    · exact Or.inl ⟨session, hmem, hhash, hrevoked, hid, hexpires⟩
    · obtain rfl := List.mem_singleton.mp hmem
      exact Or.inr ⟨hhash, hid, hexpires⟩
  · rintro (⟨session, hmem, hsession⟩ | ⟨hhash, hid, hexpires⟩)
    · exact ⟨session, List.mem_append_left _ hmem, hsession⟩
    · exact ⟨issued.session now, by simp, hhash, rfl, hid, hexpires⟩

/-- Other sessions are not revoked. -/
theorem revoke_of_ne (now : Timestamp) {tokenHash : List UInt8} {session : Session} (h : session.tokenHash ≠ tokenHash) :
    revoke now tokenHash session = session := by
  simp [revoke, h]

@[simp] theorem tokenHash_revoke (tokenHash : List UInt8) (session : Session) :
    (revoke now tokenHash session).tokenHash = session.tokenHash := by
  unfold revoke
  split <;> rfl

/-- A revoked session stays as it is. -/
theorem revoke_of_revoked {tokenHash : List UInt8} {session : Session} (h : session.revokedAt ≠ none) :
    revoke now tokenHash session = session := by
  simp [revoke, h]

theorem revokedAt_revoke (tokenHash : List UInt8) {session : Session} (h : session.tokenHash = tokenHash) :
    (revoke now tokenHash session).revokedAt ≠ none := by
  unfold revoke
  split
  · exact Option.some_ne_none _
  · rename_i hnot
    simpa [h] using hnot

/-- A revocation closes the session of its token. -/
theorem openSession_of_revoked {db' : Database} {tokenHash' : List UInt8}
    (hrows : db'.sessions.rows = db.sessions.rows.map (revoke now tokenHash')) {tokenHash : List UInt8}
    {userId : Uuid} {expiresAt : Timestamp} :
    OpenSession db' tokenHash userId expiresAt
      ↔ OpenSession db tokenHash userId expiresAt ∧ tokenHash ≠ tokenHash' := by
  unfold OpenSession
  rw [hrows]
  constructor
  · rintro ⟨session', hmem', hhash, hrevoked, hid, hexpires⟩
    obtain ⟨session, hmem, rfl⟩ := List.mem_map.mp hmem'
    have hne : session.tokenHash ≠ tokenHash' := fun heq => revokedAt_revoke tokenHash' heq hrevoked
    rw [revoke_of_ne now hne] at hhash hrevoked hid hexpires
    exact ⟨⟨session, hmem, hhash, hrevoked, hid, hexpires⟩, hhash ▸ hne⟩
  · rintro ⟨⟨session, hmem, hhash, hsession⟩, hne⟩
    have hsame := revoke_of_ne now (hhash.trans_ne hne)
    exact ⟨session, List.mem_map.mpr ⟨session, hmem, hsame⟩, hhash, hsession⟩

/-- **A logout with a token completes**, and revokes the session of the token. -/
theorem logout_of_token (crypto : Crypto) (db : Database) (now : Timestamp) {request : Request}
    {token : String} (h : bearerToken request = .ok token) :
    ∃ sessions, logout crypto db now request = ({ db with sessions := sessions }, .ok .noContent)
      ∧ sessions.rows = db.sessions.rows.map (revoke now (hashToken crypto token)) := by
  obtain ⟨sessions, hupdate, hrows⟩ := db.sessions.update?_of_keeps
    (fun session => session.tokenHash == hashToken crypto token && session.revokedAt.isNone)
    (fun session => { session with revokedAt := some now }) (fun _ h => h) (fun _ _ => rfl)
  refine ⟨sessions, ?_, hrows⟩
  unfold logout
  rw [h]
  dsimp only
  rw [hupdate]

/-- A logout without a token changes nothing. -/
theorem logout_of_no_token {request : Request} {e : ApiError} (h : bearerToken request = .error e) :
    logout crypto db now request = (db, .error e) := by
  unfold logout
  rw [h]

end Handlers

/-! ## What a step can do to the sessions -/

section Steps

variable {κ : Type} [DecidableEq κ] {unicode : Unicode} {crypto : Crypto} {s : Server κ}

omit [DecidableEq κ] in
/-- Updating a user leaves the sessions, the clock and the logins. -/
theorem sessions_updateUser (s : Server κ) (id : Uuid) (set : User → User) :
    (s.updateUser id set).db.sessions = s.db.sessions ∧ (s.updateUser id set).now = s.now
      ∧ (s.updateUser id set).logins = s.logins := by
  unfold Server.updateUser
  split <;> exact ⟨rfl, rfl, rfl⟩

/-- **What a step can do** to the sessions: a login stores one, a logout revokes one, and nothing else
    touches them. -/
inductive Moves (crypto : Crypto) (s : Server κ) (e : Event κ) (s' : Server κ) : Response → Prop
  | quiet {response : Response} (hsessions : s'.db.sessions = s.db.sessions)
      (hin : ∀ answer, response ≠ .login (.ok answer)) (hout : ∀ status, response ≠ .logout (.ok status)) :
      Moves crypto s e s' response
  | stored {call : κ} {issued : IssuedToken} (hissued : s.logins call = some (.issued issued))
      (hrows : s'.db.sessions.rows = s.db.sessions.rows ++ [issued.session s.now]) :
      Moves crypto s e s' (.login (.ok (.ok, issued.response)))
  | revoked {request : Request} {token : String} (he : e = .logout request)
      (htoken : bearerToken request = .ok token)
      (hrows : s'.db.sessions.rows = s.db.sessions.rows.map (revoke s.now (hashToken crypto token))) :
      Moves crypto s e s' (.logout (.ok .noContent))

/-- `step` does what `Moves` says. -/
theorem step_moves (unicode : Unicode) (crypto : Crypto) (s : Server κ) (e : Event κ) :
    Moves crypto s e (s.step unicode crypto e).1 (s.step unicode crypto e).2 := by
  cases e with
  | verifyLogin call request =>
      unfold Server.step
      dsimp only
      split
      · exact .quiet rfl nofun nofun
      · exact .quiet rfl nofun nofun
  | issueToken call random sessionId =>
      unfold Server.step
      dsimp only
      split
      · split
        · exact .quiet rfl nofun nofun
        · exact .quiet rfl nofun nofun
      · exact .quiet rfl nofun nofun
  | storeSession call =>
      unfold Server.step
      dsimp only
      split
      · rename_i issued hissued
        rcases storeSession_cases s.db s.now issued with h | ⟨sessions, h, hrows⟩
        · rw [h]
          exact .quiet rfl nofun nofun
        · rw [h]
          exact .stored hissued hrows
      · exact .quiet rfl nofun nofun
  | logout request =>
      unfold Server.step
      dsimp only
      cases htoken : bearerToken request with
      | error e =>
          rw [logout_of_no_token htoken]
          exact .quiet rfl nofun nofun
      | ok token =>
          obtain ⟨sessions, h, hrows⟩ := logout_of_token crypto s.db s.now htoken
          rw [h]
          exact .revoked rfl htoken hrows
  | requireAuthenticated request => exact .quiet rfl nofun nofun
  | advance elapsed => exact .quiet rfl nofun nofun
  | setStatus user status => exact .quiet (sessions_updateUser s _ _).1 nofun nofun
  | setRole user role => exact .quiet (sessions_updateUser s _ _).1 nofun nofun

/-- The clock does not go back. -/
theorem now_le_step (unicode : Unicode) (crypto : Crypto) (s : Server κ) (e : Event κ) :
    s.now ≤ (s.step unicode crypto e).1.now := by
  cases e with
  | verifyLogin call request =>
      unfold Server.step
      dsimp only
      split <;> exact Nat.le_refl _
  | issueToken call random sessionId =>
      unfold Server.step
      dsimp only
      split
      · split <;> exact Nat.le_refl _
      · exact Nat.le_refl _
  | storeSession call =>
      unfold Server.step
      dsimp only
      split <;> exact Nat.le_refl _
  | logout request => exact Nat.le_refl _
  | requireAuthenticated request => exact Nat.le_refl _
  | advance elapsed => exact Nat.le_add_right _ _
  | setStatus user status => exact (sessions_updateUser s _ _).2.1.ge
  | setRole user role => exact (sessions_updateUser s _ _).2.1.ge

theorem of_setLogin {call call' : κ} {stage : Option LoginStage} {found : LoginStage}
    (h : (s.setLogin call' stage).logins call = some found) :
    call = call' ∧ stage = some found ∨ s.logins call = some found := by
  unfold Server.setLogin at h
  dsimp only at h
  by_cases hcall : call = call'
  · subst hcall
    rw [Function.update_self] at h
    exact Or.inl ⟨rfl, h⟩
  · rw [Function.update_of_ne hcall] at h
    exact Or.inr h

/-- A login set to another stage is not at this one. -/
theorem of_setLogin_ne {call call' : κ} {stage : Option LoginStage} {found : LoginStage}
    (h : (s.setLogin call' stage).logins call = some found) (hne : stage ≠ some found) :
    s.logins call = some found := (of_setLogin h).resolve_left fun hset => hne hset.2

/-- What is issued is a token of the random bytes, with its hash. -/
theorem of_issueToken_ok {now : Timestamp} {random : Option (Vector UInt8 32)} {sessionId : Uuid}
    {user : LoginUserRow} {issued : IssuedToken}
    (h : issueToken crypto now random sessionId user = .ok issued) :
    ∃ randomBytes, random = some randomBytes ∧ issued.token.raw = crypto.base64UrlNoPad randomBytes.toList
      ∧ issued.token.hash = hashToken crypto issued.token.raw := by
  cases random with
  | none => cases h
  | some randomBytes =>
      cases h
      exact ⟨randomBytes, rfl, rfl, rfl⟩

/-- A token that waits to be stored was issued by this event, or waited before it. -/
theorem of_issued_step {e : Event κ} {call : κ} {issued : IssuedToken}
    (h : (s.step unicode crypto e).1.logins call = some (.issued issued)) :
    s.logins call = some (.issued issued)
      ∨ ∃ random sessionId, e = .issueToken call (some random) sessionId
        ∧ issued.token.raw = crypto.base64UrlNoPad random.toList
        ∧ issued.token.hash = hashToken crypto issued.token.raw := by
  cases e with
  | verifyLogin call' request =>
      unfold Server.step at h
      dsimp only at h
      split at h
      · exact Or.inl (of_setLogin_ne h nofun)
      · exact Or.inl (of_setLogin_ne h nofun)
  | issueToken call' random sessionId =>
      unfold Server.step at h
      dsimp only at h
      split at h
      · split at h
        · exact Or.inl (of_setLogin_ne h nofun)
        · rename_i hissue
          rcases of_setLogin h with ⟨rfl, hstage⟩ | h
          · cases hstage
            obtain ⟨randomBytes, rfl, hraw, hhash⟩ := of_issueToken_ok hissue
            exact Or.inr ⟨randomBytes, sessionId, rfl, hraw, hhash⟩
          · exact Or.inl h
      · exact Or.inl h
  | storeSession call' =>
      unfold Server.step at h
      dsimp only at h
      split at h
      · exact Or.inl (of_setLogin_ne h nofun)
      · exact Or.inl h
  | logout request => exact Or.inl h
  | requireAuthenticated request => exact Or.inl h
  | advance elapsed => exact Or.inl h
  | setStatus user status =>
      rw [← (sessions_updateUser s user fun user => { user with status := status }).2.2]
      exact Or.inl h
  | setRole user role =>
      rw [← (sessions_updateUser s user fun user => { user with role := role }).2.2]
      exact Or.inl h

end Steps

/-! ## The invariant over histories -/

/-- The request carries no token, or one of `used`. -/
def Request.Uses (request : Request) (used : Set String) : Prop :=
  ∀ token, bearerToken request = .ok token → token ∈ used

/-- The tokens that the event generates or carries are in `used`. -/
def Event.Uses {κ : Type} (crypto : Crypto) (used : Set String) : Event κ → Prop
  | .issueToken _ (some random) _ => crypto.base64UrlNoPad random.toList ∈ used
  | .logout request => request.Uses used
  | .requireAuthenticated request => request.Uses used
  | _ => True

section Runs

variable {κ : Type} [DecidableEq κ] {unicode : Unicode} {crypto : Crypto} {used : Set String}

/-- The open sessions are those of the history that are logged in. -/
structure SessionsInv (crypto : Crypto) (used : Set String) (s : Server κ)
    (history : List (Event κ × Response)) : Prop where
  issued : ∀ call issued, s.logins call = some (.issued issued) →
    issued.token.hash = hashToken crypto issued.token.raw ∧ issued.token.raw ∈ used
  loggedIn : ∀ session, LoggedIn history session → session.accessToken ∈ used
  sessions : ∀ tokenHash userId expiresAt, OpenSession s.db tokenHash userId expiresAt ↔
    ∃ token, hashToken crypto token = tokenHash ∧ LoggedIn history ⟨userId, token, expiresAt⟩

omit [DecidableEq κ] in
/-- At first there are no sessions. -/
theorem sessionsInv_start (users : Table usersSchema) (userCredentials : Table userCredentialsSchema)
    (now : Timestamp) : SessionsInv crypto used (.start users userCredentials now : Server κ) [] := by
  refine ⟨?_, ?_, ?_⟩
  · intro call issued h
    cases h
  · intro session h
    exact absurd h (not_loggedIn_nil session)
  · intro tokenHash userId expiresAt
    constructor
    · rintro ⟨session, hmem, -⟩
      cases hmem
    · rintro ⟨token, -, h⟩
      exact absurd h (not_loggedIn_nil _)

/-- **Every step keeps the invariant.** -/
theorem SessionsInv.step (unicode : Unicode) (hsha : used.InjOn (hashToken crypto)) {s : Server κ}
    {history : List (Event κ × Response)} (h : SessionsInv crypto used s history) {e : Event κ}
    (he : e.Uses crypto used) :
    SessionsInv crypto used (s.step unicode crypto e).1
      (history ++ [(e, (s.step unicode crypto e).2)]) := by
  have hissued : ∀ call issued, (s.step unicode crypto e).1.logins call = some (.issued issued) →
      issued.token.hash = hashToken crypto issued.token.raw ∧ issued.token.raw ∈ used := by
    intro call issued hcall
    rcases of_issued_step hcall with hcall | ⟨random, sessionId, rfl, hraw, hhash⟩
    · exact h.issued call issued hcall
    · exact ⟨hhash, hraw ▸ he⟩
  have hmoves := step_moves unicode crypto s e
  generalize s.step unicode crypto e = r at hissued hmoves
  obtain ⟨s', response⟩ := r
  dsimp only at hissued hmoves ⊢
  cases hmoves with
  | quiet hsessions hin hout =>
      refine ⟨hissued, ?_, ?_⟩
      · intro session hsession
        exact h.loggedIn session ((loggedIn_snoc_of_quiet hin hout session).mp hsession)
      · intro tokenHash userId expiresAt
        rw [openSession_congr hsessions, h.sessions]
        simp only [loggedIn_snoc_of_quiet hin hout]
  | @stored call issued hcall hrows =>
      obtain ⟨hhash, hused⟩ := h.issued call issued hcall
      refine ⟨hissued, ?_, ?_⟩
      · intro session hsession
        rcases loggedIn_snoc_of_login.mp hsession with rfl | hsession
        · exact hused
        · exact h.loggedIn session hsession
      · intro tokenHash userId expiresAt
        rw [openSession_of_stored hrows, h.sessions]
        simp only [loggedIn_snoc_of_login]
        constructor
        · rintro (⟨token, htoken, hsession⟩ | ⟨rfl, rfl, rfl⟩)
          · exact ⟨token, htoken, Or.inr hsession⟩
          · exact ⟨issued.token.raw, hhash.symm, Or.inl rfl⟩
        · rintro ⟨token, htoken, heq | hsession⟩
          · cases heq
            exact Or.inr ⟨hhash.trans htoken, rfl, rfl⟩
          · exact Or.inl ⟨token, htoken, hsession⟩
  | @revoked request token he' htoken hrows =>
      subst he'
      refine ⟨hissued, ?_, ?_⟩
      · intro session hsession
        exact h.loggedIn session ((loggedIn_snoc_of_logout htoken).mp hsession).1
      · intro tokenHash userId expiresAt
        rw [openSession_of_revoked hrows, h.sessions]
        simp only [loggedIn_snoc_of_logout htoken]
        constructor
        · rintro ⟨⟨token', rfl, hsession⟩, hne⟩
          refine ⟨token', rfl, hsession, ?_⟩
          rintro rfl
          exact hne rfl
        · rintro ⟨token', rfl, hsession, hne⟩
          -- two tokens of the history with one hash are one token
          refine ⟨⟨token', rfl, hsession⟩, fun heq => hne ?_⟩
          exact hsha (h.loggedIn _ hsession) (he token htoken) heq

/-- **Every run keeps the invariant.** -/
theorem sessionsInv_run (unicode : Unicode) (hsha : used.InjOn (hashToken crypto))
    {s : Server κ} {history : List (Event κ × Response)} (h : SessionsInv crypto used s history)
    {events : List (Event κ)} (hevents : ∀ e ∈ events, e.Uses crypto used) :
    SessionsInv crypto used (Machine.run (Server.step unicode crypto) s events).1
      (history ++ events.zip (Machine.run (Server.step unicode crypto) s events).2) := by
  induction events generalizing s history with
  | nil =>
      rw [Machine.run_nil, List.zip_nil_left, List.append_nil]
      exact h
  | cons e events ih =>
      obtain ⟨he, hevents⟩ := List.forall_mem_cons.mp hevents
      have hrest := ih (h.step unicode hsha he) hevents
      rw [List.append_assoc] at hrest
      exact hrest

/-! ## Sessions that are over -/

/-- The session is revoked or expired. -/
def Session.Closed (session : Session) (now : Timestamp) : Prop :=
  session.revokedAt ≠ none ∨ session.expiresAt ≤ now

/-- The session of `tokenHash` is stored, and over. -/
def ClosedSession (tokenHash : List UInt8) (s : Server κ) : Prop :=
  ∃ session ∈ s.db.sessions.rows, session.tokenHash = tokenHash ∧ session.Closed s.now

theorem Session.Closed.revoke {session : Session} {now now' : Timestamp} (h : session.Closed now)
    (hnow : now ≤ now') (at_ : Timestamp) (tokenHash : List UInt8) :
    (revoke at_ tokenHash session).Closed now' := by
  unfold LimitOrderBook.revoke
  split
  · exact Or.inl (Option.some_ne_none _)
  · exact h.imp_right fun hexpires => hexpires.trans hnow

/-- **A session that is over stays over.** -/
theorem ClosedSession.step (unicode : Unicode) {s : Server κ} {tokenHash : List UInt8} (h : ClosedSession tokenHash s)
    (e : Event κ) : ClosedSession tokenHash (s.step unicode crypto e).1 := by
  obtain ⟨session, hmem, hhash, hclosed⟩ := h
  have hnow := now_le_step unicode crypto s e
  have hstill : session.Closed (s.step unicode crypto e).1.now :=
    hclosed.imp_right fun hexpires => hexpires.trans hnow
  have hmoves := step_moves unicode crypto s e
  generalize s.step unicode crypto e = r at hnow hstill hmoves ⊢
  obtain ⟨s', response⟩ := r
  cases hmoves with
  | quiet hsessions hin hout => exact ⟨session, hsessions ▸ hmem, hhash, hstill⟩
  | stored hcall hrows => exact ⟨session, by rw [hrows]; exact List.mem_append_left _ hmem, hhash, hstill⟩
  | @revoked request token he htoken hrows =>
      refine ⟨revoke s.now (hashToken crypto token) session, ?_, (tokenHash_revoke _ _).trans hhash,
        hclosed.revoke hnow _ _⟩
      rw [hrows]
      exact List.mem_map_of_mem hmem

omit [DecidableEq κ] in
/-- A session that is over is not found. -/
theorem findValidSession_of_closed {s : Server κ} {token : String}
    (h : ClosedSession (hashToken crypto token) s) : findValidSession crypto s.db s.now token = none := by
  obtain ⟨session, hmem, hhash, hclosed⟩ := h
  cases hfind : findValidSession crypto s.db s.now token with
  | none => rfl
  | some row =>
      obtain ⟨expiresAt, ⟨session', hmem', hhash', hrevoked, -, rfl⟩, hexpires, -⟩ :=
        findValidSession_eq_some_iff.mp hfind
      obtain rfl := session_unique hmem hmem' (hhash.trans hhash'.symm)
      rcases hclosed with hclosed | hclosed
      · exact absurd hrevoked hclosed
      · exact absurd hexpires (Nat.not_lt.mpr hclosed)

omit [DecidableEq κ] in
theorem requireAuthenticated_of_closed {s : Server κ} {request : Request} {token : String}
    (htoken : bearerToken request = .ok token) (h : ClosedSession (hashToken crypto token) s) :
    requireAuthenticated crypto s.db s.now request = .error invalidSession := by
  unfold requireAuthenticated
  rw [htoken, Machine.ok_bind, findValidSession_of_closed h]

/-- A logout leaves the sessions of other tokens as they are. -/
theorem mem_sessions_logout {db : Database} {now : Timestamp} {request : Request} {token : String}
    (htoken : bearerToken request = .ok token) {session : Session} (hmem : session ∈ db.sessions.rows)
    (hother : session.tokenHash ≠ hashToken crypto token) :
    session ∈ (logout crypto db now request).1.sessions.rows := by
  obtain ⟨sessions, hlogout, hrows⟩ := logout_of_token crypto db now htoken
  rw [hlogout]
  show session ∈ sessions.rows
  rw [hrows]
  exact List.mem_map.mpr ⟨session, hmem, revoke_of_ne now hother⟩

/-- A logout whose token has no open session changes nothing. -/
theorem logout_of_not_open {db : Database} {now : Timestamp} {request : Request} {token : String}
    (htoken : bearerToken request = .ok token)
    (h : ∀ userId expiresAt, ¬OpenSession db (hashToken crypto token) userId expiresAt) :
    logout crypto db now request = (db, .ok .noContent) := by
  obtain ⟨sessions, hlogout, hrows⟩ := logout_of_token crypto db now htoken
  have hsame : sessions = db.sessions := by
    apply Table.ext
    rw [hrows]
    refine (List.map_congr_left fun session hmem => ?_).trans (List.map_id _)
    by_cases hhash : session.tokenHash = hashToken crypto token
    · apply revoke_of_revoked
      intro hrevoked
      exact h _ _ ⟨session, hmem, hhash, hrevoked, rfl, rfl⟩
    · exact revoke_of_ne now hhash
  rw [hlogout, hsame]

/-! ## What a history decides -/

omit [DecidableEq κ] in
/-- The requests that are let through are those that the history lets through. -/
theorem SessionsInv.requireAuthenticated_iff {s : Server κ} {history : List (Event κ × Response)}
    (h : SessionsInv crypto used s history) (hsha : used.InjOn (hashToken crypto)) {request : Request}
    (huses : request.Uses used) (identity : AuthenticatedUser) :
    requireAuthenticated crypto s.db s.now request = .ok identity ↔
      ∃ token expiresAt, bearerToken request = .ok token
        ∧ LoggedIn history ⟨identity.userId, token, expiresAt⟩ ∧ s.now < expiresAt
        ∧ ∃ user ∈ s.db.users.rows, user.id = identity.userId
          ∧ user.status = UserStatus.active.asStr ∧ user.role = identity.role.asStr := by
  rw [requireAuthenticated_eq_ok_iff]
  constructor
  · rintro ⟨token, expiresAt, htoken, hopen, hrest⟩
    obtain ⟨token', hhash, hloggedIn⟩ := (h.sessions _ _ _).mp hopen
    obtain rfl := hsha (h.loggedIn _ hloggedIn) (huses token htoken) hhash
    exact ⟨token', expiresAt, htoken, hloggedIn, hrest⟩
  · rintro ⟨token, expiresAt, htoken, hloggedIn, hrest⟩
    exact ⟨token, expiresAt, htoken, (h.sessions _ _ _).mpr ⟨token, rfl, hloggedIn⟩, hrest⟩

omit [DecidableEq κ] in
/-- A token that no login returned since its logout has no open session. -/
theorem SessionsInv.not_open_since_logout {s : Server κ} {history more : List (Event κ × Response)}
    {request : Request} {token : String}
    (h : SessionsInv crypto used s (history ++ [(.logout request, .logout (.ok .noContent))] ++ more))
    (hsha : used.InjOn (hashToken crypto)) (htoken : bearerToken request = .ok token) (hused : token ∈ used)
    (hnone : ∀ x ∈ more, ∀ session, LogsIn x session → session.accessToken ≠ token)
    (userId : Uuid) (expiresAt : Timestamp) : ¬OpenSession s.db (hashToken crypto token) userId expiresAt := by
  intro hopen
  obtain ⟨token', hhash, hloggedIn⟩ := (h.sessions _ _ _).mp hopen
  obtain rfl := hsha (h.loggedIn _ hloggedIn) hused hhash
  -- the logout ended the session, and no login since returned the token
  rcases hloggedIn.of_append with hbefore | ⟨x, hx, hin⟩
  · rw [loggedIn_snoc_of_logout htoken] at hbefore
    exact hbefore.2 rfl
  · exact hnone x hx _ hin rfl

/-- **Session validity over whole histories.** A request with a token is let through exactly when a login
    returned the token, no logout with it completed since, the session has not expired and its user is
    active now; the identity is that user with the present role. A session that is revoked or expired never
    becomes valid again, a logout leaves the sessions of other tokens as they are, and a repeated logout
    changes nothing. -/
theorem session_validity (unicode : Unicode) (crypto : Crypto) (users : Table usersSchema)
    (userCredentials : Table userCredentialsSchema) (now : Timestamp) (used : Set String)
    (hsha : used.InjOn (hashToken crypto)) (events : List (Event κ))
    (hevents : ∀ e ∈ events, e.Uses crypto used) :
    let r := Machine.run (Server.step unicode crypto) (Server.start users userCredentials now) events
    let s := r.1
    let history := events.zip r.2
    (∀ request identity, request.Uses used →
      (requireAuthenticated crypto s.db s.now request = .ok identity ↔
        ∃ token expiresAt, bearerToken request = .ok token
          ∧ LoggedIn history ⟨identity.userId, token, expiresAt⟩ ∧ s.now < expiresAt
          ∧ ∃ user ∈ s.db.users.rows, user.id = identity.userId
            ∧ user.status = UserStatus.active.asStr ∧ user.role = identity.role.asStr))
    ∧ (∀ session ∈ s.db.sessions.rows, session.Closed s.now →
        ∀ more token request, hashToken crypto token = session.tokenHash →
          bearerToken request = .ok token →
          let later := (Machine.run (Server.step unicode crypto) s more).1
          requireAuthenticated crypto later.db later.now request = .error invalidSession)
    ∧ (∀ request token token', bearerToken request = .ok token → token ∈ used → token' ∈ used →
        token' ≠ token → ∀ session ∈ s.db.sessions.rows, session.tokenHash = hashToken crypto token' →
          session ∈ (s.step unicode crypto (.logout request)).1.db.sessions.rows)
    ∧ ∀ request request' token more, bearerToken request = .ok token →
        bearerToken request' = .ok token → token ∈ used → (∀ e ∈ more, e.Uses crypto used) →
        let first := s.step unicode crypto (.logout request)
        let later := Machine.run (Server.step unicode crypto) first.1 more
        (∀ x ∈ more.zip later.2, ∀ session, LogsIn x session → session.accessToken ≠ token) →
          later.1.step unicode crypto (.logout request') = (later.1, .logout (.ok .noContent)) := by
  intro r s history
  have hinv : SessionsInv crypto used s history := by
    have hrun := sessionsInv_run unicode hsha
      (sessionsInv_start users userCredentials now) hevents
    rw [List.nil_append] at hrun
    exact hrun
  refine ⟨?_, ?_, ?_, ?_⟩
  · intro request identity huses
    exact hinv.requireAuthenticated_iff hsha huses identity
  · intro session hmem hclosed more token request hhash htoken later
    have hlater : ClosedSession (hashToken crypto token) later :=
      Machine.run_invariant (fun _ e h => h.step unicode e) ⟨session, hmem, hhash.symm, hclosed⟩ more
    exact requireAuthenticated_of_closed htoken hlater
  · intro request token token' htoken hused hused' hne session hmem hhash
    have hother : session.tokenHash ≠ hashToken crypto token :=
      fun heq => hne (hsha hused' hused (hhash.symm.trans heq))
    exact mem_sessions_logout htoken hmem hother
  · intro request request' token more htoken htoken' hused hmore first later hnone
    have huses : Event.Uses crypto used (Event.logout request : Event κ) := by
      intro token' h
      rwa [Except.ok.inj (h.symm.trans htoken)]
    have hlater := sessionsInv_run unicode hsha (hinv.step unicode hsha huses) hmore
    have hended : first.2 = .logout (.ok .noContent) := by
      obtain ⟨sessions, hlogout, -⟩ := logout_of_token crypto s.db s.now htoken
      show Response.logout (logout crypto s.db s.now request).2 = _
      rw [hlogout]
    rw [show (s.step unicode crypto (.logout request)).2 = _ from hended] at hlater
    have hclosed := hlater.not_open_since_logout hsha htoken hused hnone
    show ({ later.1 with db := (logout crypto later.1.db later.1.now request').1 },
      Response.logout (logout crypto later.1.db later.1.now request').2) = _
    rw [logout_of_not_open htoken' hclosed]

end Runs

/-! ### A login whose user is promoted afterwards -/

/-- The token of 32 zero bytes. -/
def sampleToken : String := "AAAAAAAAAAAAAAAAAAAAAAAAAAAAAAAAAAAAAAAAAAA"

/-- The Argon2 hash of `password`. -/
def samplePasswordHash : String :=
  "$argon2i$v=19$m=65536,t=2,p=1$c29tZXNhbHQ$wWKIMhR9lyDFvRz9YTZweHKfbftvj+qf+YFY4NeBbtA"

/-- The crates on the inputs of the sample. -/
def sampleCrypto : Crypto where
  sha256 bytes :=
    if bytes = asBytes sampleToken then
      [15, 0, 115, 133, 182, 249, 212, 183, 238, 178, 116, 134, 5, 175, 225, 169, 132, 160, 163, 191, 163, 240,
        20, 208, 158, 42, 120, 76, 233, 229, 205, 26]
    else []
  base64UrlNoPad bytes := if bytes = List.replicate 32 0 then sampleToken else ""
  passwordHash hash :=
    if hash = samplePasswordHash then some fun password => password == asBytes "password" else none
  dummyPasswordHash := samplePasswordHash

def sampleUsers : Table usersSchema where
  rows := [⟨1, "Trader", some "trader@example.com", "active", "trader", 0⟩]
  checked := by decide
  unique := by decide

def sampleCredentials : Table userCredentialsSchema where
  rows := [⟨1, samplePasswordHash, 0, 0⟩]
  checked := by decide
  unique := by decide

def sampleEvents : List (Event Unit) :=
  [.verifyLogin () ⟨" Trader@Example.com ", "password"⟩, .issueToken () (some (Vector.replicate 32 0)) 7,
    .setStatus 1 "suspended", .storeSession (), .advance 1, .setRole 1 "admin", .setStatus 1 "active"]

def sampleRequest : Request := ⟨some (asBytes ("bearer " ++ sampleToken))⟩

/-- The server after the events, and its answers. -/
def sampleRun : Server Unit × List Response :=
  Machine.run (Server.step ⟨Char.isWhitespace, String.toLower⟩ sampleCrypto)
    (Server.start sampleUsers sampleCredentials 0) sampleEvents

theorem session_validity_promoted :
    requireAuthenticated sampleCrypto sampleRun.1.db sampleRun.1.now sampleRequest = .ok ⟨1, .admin⟩
      ∧ ∃ token expiresAt, bearerToken sampleRequest = .ok token
        ∧ LoggedIn (sampleEvents.zip sampleRun.2) ⟨1, token, expiresAt⟩ ∧ sampleRun.1.now < expiresAt := by
  have hsha : Set.InjOn (hashToken sampleCrypto) {sampleToken} := Set.injOn_singleton _ _
  have hevents : ∀ e ∈ sampleEvents, e.Uses sampleCrypto {sampleToken} := by
    simp [sampleEvents, Event.Uses, sampleCrypto]
  have huses : sampleRequest.Uses {sampleToken} := by
    intro token h
    have htoken : bearerToken sampleRequest = .ok sampleToken := rfl
    exact Except.ok.inj (h.symm.trans htoken)
  have hthrough :
      requireAuthenticated sampleCrypto sampleRun.1.db sampleRun.1.now sampleRequest = .ok ⟨1, .admin⟩ := by
    decide +kernel
  refine ⟨hthrough, ?_⟩
  obtain ⟨token, expiresAt, htoken, hloggedIn, hexpires, -⟩ :=
    ((session_validity ⟨Char.isWhitespace, String.toLower⟩ sampleCrypto sampleUsers sampleCredentials 0
      {sampleToken} hsha sampleEvents hevents).1 sampleRequest ⟨1, .admin⟩ huses).mp hthrough
  exact ⟨token, expiresAt, htoken, hloggedIn, hexpires⟩

end LimitOrderBook
