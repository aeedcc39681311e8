import LimitOrderBook.Api.App
import LimitOrderBook.Properties.Delisting
import LimitOrderBook.Properties.Instruments
import LimitOrderBook.Properties.Sessions

/-!
# `Properties.App` — what one moment of the API can do

What one moment of the API can do. `Moves` lists all that a step can do to the database, with the request behind it
and what its client is told, and `Parks` does it for the requests that are under way. Every result about the API reads
these two.

Before `Moves` there is a lemma for each handler that writes, with the cases in which it returns: the row that it
writes, the guard that it has checked, and what the client is told. That a write takes effect and that its client
hears of it are two things: `Told` says that the client is told of a success, or of a failure when only the answer was
lost, and `Delivery` decides which. `step_moves` puts the handlers together.

`step_parks` does the same for the calls: a request arrives, is verified, or is done, and a step about another call
leaves it. `limiter_step` says that only the middleware asks the limiter. `after` is the state after a list of events,
by which results about runs are stated.
-/

namespace LimitOrderBook

open TableLock (Failure)

/-! ## The handlers -/

/-- A write that took effect, and what its client is told. -/
def Told (delivery : Delivery) (success : Answer) (failed : ApiError) (answer : Answer) : Prop :=
  delivery = .answered ∧ answer = success ∨ delivery = .answerLost ∧ answer = .error failed

/-- A write that can take effect does so and says so, or says that it failed, or does nothing and says so. -/
theorem write_ok {σ α : Type} (delivery : Delivery) (failed : ApiError) (s s' : σ) (a : α)
    (done : α → Answer) :
    (∃ e, delivery.write failed s (s', .ok a) = (s, .error e))
      ∨ ∃ result, delivery.write failed s (s', .ok a) = (s', result)
        ∧ Told delivery (done a) failed (.ofExcept done result) := by
  cases delivery with
  | answered => exact Or.inr ⟨_, rfl, Or.inl ⟨rfl, rfl⟩⟩
  | failed => exact Or.inl ⟨failed, rfl⟩
  | answerLost => exact Or.inr ⟨_, rfl, Or.inr ⟨rfl, rfl⟩⟩

/-- The user and its credentials are inserted together. -/
theorem Database.insertUser_ok {ε : Type} {db auth : Database} {user : User} {credentials : UserCredentials}
    {failed : Failure → ε} (h : db.insertUser user credentials failed = .ok auth) :
    ∃ users userCredentials, db.users.insert user = .ok users
      ∧ db.userCredentials.insert credentials = .ok userCredentials
      ∧ auth = { db with users := users, userCredentials := userCredentials } := by
  unfold insertUser at h
  split at h
  · cases h
  · cases h
  · rename_i users husers
    split at h
    · cases h
    · rename_i userCredentials hcredentials
      exact ⟨users, userCredentials, husers, hcredentials, (Except.ok.inj h).symm⟩

/-- A signup is refused, or it inserts its trader. -/
theorem signupAtOnce_cases (unicode : Unicode) (db : Database) (delivery : Delivery) (s : Signup) :
    (∃ e, signupAtOnce unicode db delivery s = (db, .error e))
      ∨ ∃ accepted passwordHash auth result, validateSignup unicode s.request = .ok accepted
        ∧ s.passwordHash = some passwordHash
        ∧ db.insertUser (s.user accepted) (s.credentials passwordHash) signupFailed = .ok auth
        ∧ signupAtOnce unicode db delivery s = (auth, result)
        ∧ Told delivery (.signup .created ⟨s.userId, accepted.displayName, accepted.email, "active", "trader"⟩)
            failedToCreateUser (.ofExcept (fun r => .signup r.1 r.2) result) := by
  unfold signupAtOnce
  split
  · rename_i e _
    exact Or.inl ⟨e, rfl⟩
  · rename_i accepted haccepted
    split
    · exact Or.inl ⟨_, rfl⟩
    · rename_i passwordHash hhash
      split
      · exact Or.inl (delivery.write_error _ _ db)
      · rename_i auth hinsert
        rcases write_ok delivery failedToCreateUser db auth _ fun r : StatusCode × SignupResponse => .signup r.1 r.2
          with hquiet | ⟨result, hdone, htold⟩
        · exact Or.inl hquiet
        · exact Or.inr ⟨accepted, passwordHash, auth, result, haccepted, hhash, hinsert, hdone, htold⟩

/-- The bootstrap is refused, or there is no administrator yet and it inserts one. -/
theorem BootstrapAdmin.atOnce_cases (unicode : Unicode) (db : Database) (delivery : Delivery) (b : BootstrapAdmin) :
    (b.atOnce unicode db delivery).1 = db
      ∨ ∃ admin, b.prepare unicode = .ok admin ∧ db.adminExists = false
        ∧ db.insertUser (b.user unicode admin) (b.credentials admin) (fun _ => BootstrapError.database)
          = .ok (b.atOnce unicode db delivery).1 := by
  unfold BootstrapAdmin.atOnce
  split
  · exact Or.inl rfl
  · rename_i admin hadmin
    split
    · obtain ⟨e', h⟩ := delivery.write_error (α := String × Uuid) BootstrapError.database
        (.invalidInput "an administrator already exists") db
      exact Or.inl (congrArg Prod.fst h)
    · rename_i hnone
      split
      · rename_i e _
        obtain ⟨e', h⟩ := delivery.write_error (α := String × Uuid) BootstrapError.database e db
        exact Or.inl (congrArg Prod.fst h)
      · rename_i auth hinsert
        rcases delivery.fst_write BootstrapError.database db (auth, .ok (admin.email, b.userId)) with h | h
        · exact Or.inl h
        · refine Or.inr ⟨admin, hadmin, by simpa using hnone, ?_⟩
          rw [h]
          exact hinsert

/-- An account is refused, or its row goes in. -/
theorem createAccount_cases (unicode : Unicode) (users : Table usersSchema) (accounts : Table accountsSchema)
    (now : Timestamp) (accountId : Uuid) (delivery : Delivery) (user : AuthenticatedUser)
    (request : CreateAccountRequest) :
    (∃ e, createAccount unicode users accounts now accountId delivery user request = (accounts, .error e))
      ∨ ∃ inserted result, (unicode.trim request.name).isEmpty = false
        ∧ (∃ row ∈ users.rows, row.id = user.userId)
        ∧ accounts.insert (request.account unicode now accountId user) = .ok inserted
        ∧ createAccount unicode users accounts now accountId delivery user request = (inserted, result)
        ∧ Told delivery (.createAccount .created (request.account unicode now accountId user))
            failedToCreateAccount (.ofExcept (fun r => .createAccount r.1 r.2) result) := by
  unfold createAccount
  split
  · exact Or.inl ⟨_, rfl⟩
  · rename_i hname
    dsimp only
    rcases accounts.write_insertReturning_cases delivery (users.rows.any fun row => row.id == user.userId)
      accountNameAlreadyExists failedToCreateAccount (request.account unicode now accountId user)
      with ⟨e, h⟩ | ⟨inserted, result, h, hinsert, hreferenced, hresult⟩
    · rw [h]
      exact Or.inl ⟨e, rfl⟩
    · rw [h]
      refine Or.inr ⟨inserted, _, by simpa using hname, by simpa using hreferenced, hinsert, rfl, ?_⟩
      rcases hresult with ⟨rfl, rfl⟩ | ⟨rfl, rfl⟩
      · exact Or.inl ⟨rfl, rfl⟩
      · exact Or.inr ⟨rfl, rfl⟩

/-- A new user is refused, or its row goes in. -/
theorem createUser_cases (unicode : Unicode) (users : Table usersSchema) (now : Timestamp) (userId : Uuid)
    (delivery : Delivery) (request : CreateUserRequest) :
    (∃ e, createUser unicode users now userId delivery request = (users, .error e))
      ∨ ∃ inserted result, (unicode.trim request.displayName).isEmpty = false
        ∧ users.insert (request.user unicode now userId) = .ok inserted
        ∧ createUser unicode users now userId delivery request = (inserted, result)
        ∧ Told delivery (.createUser .created (request.user unicode now userId).created) failedToCreateUser
            (.ofExcept (fun r => .createUser r.1 r.2) result) := by
  unfold createUser
  split
  · exact Or.inl ⟨_, rfl⟩
  · rename_i hname
    dsimp only
    rcases users.write_insertReturning_cases delivery true emailAlreadyExists failedToCreateUser
      (request.user unicode now userId) with ⟨e, h⟩ | ⟨inserted, result, h, hinsert, -, hresult⟩
    · rw [h]
      exact Or.inl ⟨e, rfl⟩
    · rw [h]
      refine Or.inr ⟨inserted, _, by simpa using hname, hinsert, rfl, ?_⟩
      rcases hresult with ⟨rfl, rfl⟩ | ⟨rfl, rfl⟩
      · exact Or.inl ⟨rfl, rfl⟩
      · exact Or.inr ⟨rfl, rfl⟩

/-- A login that has its token stores the session, or nothing. -/
theorem storeSession_delivered (db : Database) (now : Timestamp) (delivery : Delivery) (issued : IssuedToken) :
    (∃ e, delivery.write failedToCreateSession db (storeSession db now issued) = (db, .error e))
      ∨ ∃ sessions result, sessions.rows = db.sessions.rows ++ [issued.session now]
        ∧ (∃ user ∈ db.users.rows, user.id = issued.user.id)
        ∧ delivery.write failedToCreateSession db (storeSession db now issued)
          = ({ db with sessions := sessions }, result)
        ∧ Told delivery (.login .ok issued.response) failedToCreateSession
            (.ofExcept (fun r => .login r.1 r.2) result) := by
  unfold storeSession
  dsimp only
  split
  · exact Or.inl (delivery.write_error _ _ db)
  · rename_i sessions hinsert
    split at hinsert
    · rename_i hreferenced
      rcases write_ok delivery failedToCreateSession db { db with sessions := sessions } _
        fun r : StatusCode × LoginResponse => .login r.1 r.2 with hquiet | ⟨result, hdone, htold⟩
      · exact Or.inl hquiet
      · exact Or.inr ⟨sessions, result, Table.rows_of_insert? hinsert, by simpa using hreferenced, hdone, htold⟩
    · cases hinsert

/-- A logout with a token revokes its session, or does nothing. -/
theorem logout_delivered (crypto : Crypto) (db : Database) (now : Timestamp) (delivery : Delivery)
    {request : Request} {token : String} (htoken : bearerToken request = .ok token) :
    (∃ e, delivery.write failedToLogOut db (logout crypto db now request) = (db, .error e))
      ∨ ∃ sessions result, sessions.rows = db.sessions.rows.map (revoke now (hashToken crypto token))
        ∧ delivery.write failedToLogOut db (logout crypto db now request) = ({ db with sessions := sessions }, result)
        ∧ Told delivery (.logout .noContent) failedToLogOut (.ofExcept .logout result) := by
  obtain ⟨sessions, h, hrows⟩ := logout_of_token crypto db now htoken
  rw [h]
  rcases write_ok delivery failedToLogOut db { db with sessions := sessions } _ .logout
    with hquiet | ⟨result, hdone, htold⟩
  · exact Or.inl hquiet
  · exact Or.inr ⟨sessions, result, hrows, hdone, htold⟩

/-- A batch of instruments is refused, or all of it goes in. -/
theorem createInstruments_cases (turn : Turn) (unicode : Unicode) (now : Timestamp)
    (table : Table instrumentsSchema) (requests : List CreateInstrumentRequest) :
    (∃ e, turn.createInstruments unicode now table requests = (table, .error e))
      ∨ ∃ accepted inserted result, Accepted unicode requests accepted
        ∧ table.insertAll (instrumentRows now turn.newId 0 accepted) = .ok inserted
        ∧ turn.createInstruments unicode now table requests = (inserted, result)
        ∧ Told turn.delivery (.createInstruments .created (instrumentRows now turn.newId 0 accepted))
            failedToCreateInstruments (.ofExcept (fun r => .createInstruments r.1 r.2) result) := by
  unfold Turn.createInstruments
  split
  · rename_i table' e h
    rw [createInstruments_error h]
    exact Or.inl ⟨e, rfl⟩
  · rename_i inserted response h
    obtain ⟨-, -, accepted, haccepted, hinsert, rfl⟩ := createInstruments_ok h
    rcases write_ok turn.delivery failedToCreateInstruments table inserted _
      fun r : StatusCode × List InstrumentResponse => .createInstruments r.1 r.2
      with hquiet | ⟨result, hdone, htold⟩
    · exact Or.inl hquiet
    · exact Or.inr ⟨accepted, inserted, result, haccepted, hinsert, hdone, htold⟩

/-- One instrument has an id. -/
theorem instrument_unique {table : Table instrumentsSchema} {row row' : InstrumentResponse} (h : row ∈ table.rows)
    (h' : row' ∈ table.rows) (heq : row.id = row'.id) : row = row' :=
  table.eq_of_not_distinct h h' (by simp [instrumentsSchema, heq])

/-- The row with the new status, if it is the row of `id`. -/
def InstrumentResponse.withStatus (id : Uuid) (status : MarketStatus) (row : InstrumentResponse) :
    InstrumentResponse :=
  if row.id == id then { row with status := status } else row

/-- Writing the row of an id back with another status cannot fail, and changes nothing else. -/
theorem update?_status {table : Table instrumentsSchema} {id : Uuid} {found : InstrumentResponse}
    (hfound : table.rows.find? (fun row => row.id == id) = some found) (status : MarketStatus) :
    ∃ updated, table.update? (fun row => row.id == id) (fun _ => { found with status := status }) = some updated
      ∧ updated.rows = table.rows.map (InstrumentResponse.withStatus id status) := by
  have hid : found.id = id := by simpa using List.find?_some hfound
  have hmem : found ∈ table.rows := List.mem_of_find?_eq_some hfound
  obtain ⟨updated, hupdate, hrows⟩ := table.update?_of_keeps (fun row => row.id == id)
    (fun row => { row with status := status }) (fun _ h => h) (fun _ _ => rfl)
  refine ⟨updated, ?_, hrows⟩
  -- the row that is written back is the one of the id
  rw [← hupdate]
  unfold Table.update?
  congr 1
  refine List.map_congr_left fun row hrow => ?_
  by_cases hrowid : row.id = id
  · rw [instrument_unique hrow hmem (hrowid.trans hid.symm)]
  · simp [hrowid]

/-- The status of an instrument stays, or it moves as the transition check allows. -/
theorem updateInstrumentStatus_cases (turn : Turn) (table : Table instrumentsSchema) (instrumentId : Uuid)
    (request : UpdateInstrumentStatusRequest) :
    (∃ e, turn.updateInstrumentStatus table instrumentId request = (table, .error e))
      ∨ ∃ found updated result, found ∈ table.rows ∧ found.id = instrumentId
        ∧ validTransition found.status request.status = true
        ∧ updated.rows = table.rows.map (InstrumentResponse.withStatus instrumentId request.status)
        ∧ turn.updateInstrumentStatus table instrumentId request = (updated, result)
        ∧ Told turn.delivery (.updateInstrumentStatus { found with status := request.status })
            failedToUpdateStatus (.ofExcept .updateInstrumentStatus result) := by
  unfold Turn.updateInstrumentStatus
  dsimp only
  rw [alone_updateInstrumentStatus]
  cases hfound : table.rows.find? fun row => row.id == instrumentId with
  | none => exact Or.inl (turn.delivery.write_error _ _ table)
  | some found =>
      cases hvalid : validTransition found.status request.status with
      | false =>
          simp only [hvalid, Bool.false_eq_true, if_false]
          exact Or.inl (turn.delivery.write_error _ _ table)
      | true =>
          obtain ⟨updated, hupdate, hrows⟩ := update?_status hfound request.status
          simp only [hvalid, if_true, hupdate]
          rcases write_ok turn.delivery failedToUpdateStatus table updated { found with status := request.status }
            .updateInstrumentStatus with hquiet | ⟨result, hdone, htold⟩
          · exact Or.inl hquiet
          · exact Or.inr ⟨found, updated, result, List.mem_of_find?_eq_some hfound,
              by simpa using List.find?_some hfound, hvalid, hrows, hdone, htold⟩

namespace App

variable {κ : Type}

/-! ## What a step can do -/

/-- The row after an update of the user `id`. -/
def updatedUser (id : Uuid) (set : User → User) (user : User) : User := if user.id == id then set user else user

/-- Updating a user finds it and changes its row, or changes nothing. -/
theorem updateUser_cases (s : App κ) (id : Uuid) (set : User → User) :
    s.updateUser id set = s
      ∨ ∃ users, users.rows = s.db.users.rows.map (updatedUser id set)
        ∧ s.updateUser id set = { s with db := { s.db with users := users } } := by
  unfold updateUser
  split
  · exact Or.inl rfl
  · rename_i users hupdate
    exact Or.inr ⟨users, Table.rows_of_ofRows? hupdate, rfl⟩

/-- An update from outside touches the database alone. -/
theorem updateUser_frame (s : App κ) (id : Uuid) (set : User → User) :
    (s.updateUser id set).calls = s.calls ∧ (s.updateUser id set).now = s.now
      ∧ (s.updateUser id set).limiter = s.limiter := by
  unfold updateUser
  split <;> exact ⟨rfl, rfl, rfl⟩

/-- The answer reports no result. -/
def Answer.IsRefusal (answer : Answer) : Prop := answer = .rejected ∨ ∃ e, answer = .error e

/-- **What a step can do** to the database, with the request behind it and the answer. -/
inductive Moves (platform : Platform) (s : App κ) : AppEvent κ → ApiDatabase → Option Answer → Prop
  | silent (e : AppEvent κ) : Moves platform s e s.db none
  | refused {e : AppEvent κ} {answer : Answer} (h : Answer.IsRefusal answer) : Moves platform s e s.db (some answer)
  | health {call : κ} {turn : Turn} (available : Bool) :
      Moves platform s (.proceed call turn) s.db (some (.health available))
  | signup {call : κ} {turn : Turn} {body accepted : SignupRequest} {request : Request}
      {user : Option AuthenticatedUser} {passwordHash : String} {auth : Database} {answer : Answer}
      (hcall : s.calls call = some (.handler (.signup (some body)) request user))
      (haccepted : validateSignup platform.unicode body = .ok accepted) (hhash : turn.passwordHash = some passwordHash)
      (hinsert : s.db.insertUser ((turn.signup s.now body).user accepted)
        ((turn.signup s.now body).credentials passwordHash) signupFailed = .ok auth)
      (htold : Told turn.delivery
        (.signup .created ⟨turn.newId 0, accepted.displayName, accepted.email, "active", "trader"⟩)
        failedToCreateUser answer) :
      Moves platform s (.proceed call turn) { s.db with toDatabase := auth } (some answer)
  | login {call : κ} {turn : Turn} {issued : IssuedToken} {sessions : Table sessionsSchema} {answer : Answer}
      (hcall : s.calls call = some (.login (.issued issued)))
      (hrows : sessions.rows = s.db.sessions.rows ++ [issued.session s.now])
      (huser : ∃ user ∈ s.db.users.rows, user.id = issued.user.id)
      (htold : Told turn.delivery (.login .ok issued.response) failedToCreateSession answer) :
      Moves platform s (.proceed call turn) { s.db with sessions := sessions } (some answer)
  | logout {call : κ} {turn : Turn} {request : Request} {user : Option AuthenticatedUser} {token : String}
      {sessions : Table sessionsSchema} {answer : Answer}
      (hcall : s.calls call = some (.handler .logout request user)) (htoken : bearerToken request = .ok token)
      (hrows : sessions.rows = s.db.sessions.rows.map (revoke s.now (hashToken platform.crypto token)))
      (htold : Told turn.delivery (.logout .noContent) failedToLogOut answer) :
      Moves platform s (.proceed call turn) { s.db with sessions := sessions } (some answer)
  | currentUser {call : κ} {turn : Turn} {request : Request} {user : AuthenticatedUser}
      (hcall : s.calls call = some (.handler .currentUser request (some user))) :
      Moves platform s (.proceed call turn) s.db (some (.currentUser user))
  | createAccount {call : κ} {turn : Turn} {body : CreateAccountRequest} {request : Request}
      {user : AuthenticatedUser} {accounts : Table accountsSchema} {answer : Answer}
      (hcall : s.calls call = some (.handler (.createAccount (some body)) request (some user)))
      (hname : (platform.unicode.trim body.name).isEmpty = false)
      (huser : ∃ row ∈ s.db.users.rows, row.id = user.userId)
      (hinsert : s.db.accounts.insert (body.account platform.unicode s.now (turn.newId 0) user) = .ok accounts)
      (htold : Told turn.delivery
        (.createAccount .created (body.account platform.unicode s.now (turn.newId 0) user))
        failedToCreateAccount answer) :
      Moves platform s (.proceed call turn) { s.db with accounts := accounts } (some answer)
  | listAccounts {call : κ} {turn : Turn} {request : Request} {user : AuthenticatedUser}
      {accounts : List AccountResponse}
      (hcall : s.calls call = some (.handler .listAccounts request (some user)))
      (hlist : LimitOrderBook.listAccounts s.db.accounts turn.delivery user = .ok accounts) :
      Moves platform s (.proceed call turn) s.db (some (.listAccounts accounts))
  | createUser {call : κ} {turn : Turn} {body : CreateUserRequest} {request : Request}
      {user : Option AuthenticatedUser} {users : Table usersSchema} {answer : Answer}
      (hcall : s.calls call = some (.handler (.createUser (some body)) request user))
      (hname : (platform.unicode.trim body.displayName).isEmpty = false)
      (hinsert : s.db.users.insert (body.user platform.unicode s.now (turn.newId 0)) = .ok users)
      (htold : Told turn.delivery
        (.createUser .created (body.user platform.unicode s.now (turn.newId 0)).created) failedToCreateUser answer) :
      Moves platform s (.proceed call turn) { s.db with users := users } (some answer)
  | createInstruments {call : κ} {turn : Turn} {body accepted : List CreateInstrumentRequest} {request : Request}
      {user : AuthenticatedUser} {instruments : Table instrumentsSchema} {answer : Answer}
      (hcall : s.calls call = some (.handler (.createInstruments (some body)) request (some user)))
      (haccepted : Accepted platform.unicode body accepted)
      (hinsert : s.db.instruments.insertAll (instrumentRows s.now turn.newId 0 accepted) = .ok instruments)
      (htold : Told turn.delivery (.createInstruments .created (instrumentRows s.now turn.newId 0 accepted))
        failedToCreateInstruments answer) :
      Moves platform s (.proceed call turn) { s.db with instruments := instruments } (some answer)
  | updateInstrumentStatus {call : κ} {turn : Turn} {instrumentId : Uuid} {body : UpdateInstrumentStatusRequest}
      {request : Request} {user : AuthenticatedUser} {found : InstrumentResponse}
      {instruments : Table instrumentsSchema} {answer : Answer}
      (hcall : s.calls call
        = some (.handler (.updateInstrumentStatus (some instrumentId) (some body)) request (some user)))
      (hfound : found ∈ s.db.instruments.rows) (hid : found.id = instrumentId)
      (hvalid : validTransition found.status body.status = true)
      (hrows : instruments.rows
        = s.db.instruments.rows.map (InstrumentResponse.withStatus instrumentId body.status))
      (htold : Told turn.delivery (.updateInstrumentStatus { found with status := body.status })
        failedToUpdateStatus answer) :
      Moves platform s (.proceed call turn) { s.db with instruments := instruments } (some answer)
  | listInstruments {call : κ} {turn : Turn} {request : Request} {user : Option AuthenticatedUser}
      {instruments : List InstrumentResponse}
      (hcall : s.calls call = some (.handler .listInstruments request user))
      (hlist : LimitOrderBook.listInstruments platform.collation s.db.instruments turn.delivery = .ok instruments) :
      Moves platform s (.proceed call turn) s.db (some (.listInstruments instruments))
  | getInstrument {call : κ} {turn : Turn} {instrumentId : Uuid} {request : Request}
      {user : Option AuthenticatedUser} {instrument : InstrumentResponse}
      (hcall : s.calls call = some (.handler (.getInstrument (some instrumentId)) request user))
      (hget : LimitOrderBook.getInstrument s.db.instruments turn.delivery instrumentId = .ok instrument) :
      Moves platform s (.proceed call turn) s.db (some (.getInstrument instrument))
  | setStatus {id : Uuid} {status : String} {users : Table usersSchema}
      (hrows : users.rows = s.db.users.rows.map (updatedUser id fun user => { user with status := status })) :
      Moves platform s (.setStatus id status) { s.db with users := users } none
  | setRole {id : Uuid} {role : String} {users : Table usersSchema}
      (hrows : users.rows = s.db.users.rows.map (updatedUser id fun user => { user with role := role })) :
      Moves platform s (.setRole id role) { s.db with users := users } none
  | bootstrapAdmin {b : BootstrapAdmin} {delivery : Delivery} {admin : NewAdmin} {auth : Database}
      (hadmin : b.prepare platform.unicode = .ok admin) (hnone : s.db.adminExists = false)
      (hinsert : s.db.insertUser (b.user platform.unicode admin) (b.credentials admin)
        (fun _ => BootstrapError.database) = .ok auth) :
      Moves platform s (.bootstrapAdmin b delivery) { s.db with toDatabase := auth } none

variable (platform : Platform)

/-- A handler that answers. -/
theorem moves_handle (s : App κ) {call : κ} (turn : Turn) {endpoint : Endpoint} {request : Request}
    {user : Option AuthenticatedUser} (hcall : s.calls call = some (.handler endpoint request user)) :
    let r := handle platform s.db s.now turn request user endpoint
    Moves platform s (.proceed call turn) r.1 (some r.2) := by
  have hrejected : ∀ {e : AppEvent κ}, Moves platform s e s.db (some .rejected) := .refused (Or.inl rfl)
  have herror : ∀ {e : AppEvent κ} (err : ApiError), Moves platform s e s.db (some (.error err)) := by
    intro e err
    exact .refused (Or.inr ⟨err, rfl⟩)
  cases endpoint with
  | health => exact .health _
  | signup body =>
      cases body with
      | none => exact hrejected
      | some body =>
          rcases signupAtOnce_cases platform.unicode s.db.toDatabase turn.delivery (turn.signup s.now body)
            with ⟨e, h⟩ | ⟨accepted, passwordHash, auth, result, haccepted, hhash, hinsert, h, htold⟩
          · simp only [handle, extract, h]
            exact herror e
          · simp only [handle, extract, h]
            exact .signup hcall haccepted hhash hinsert htold
  | login body => exact hrejected
  | logout =>
      cases htoken : bearerToken request with
      | error e =>
          simp only [handle, htoken]
          exact herror e
      | ok token =>
          rcases logout_delivered platform.crypto s.db.toDatabase s.now turn.delivery htoken
            with ⟨e, h⟩ | ⟨sessions, result, hrows, h, htold⟩
          · simp only [handle, htoken, h]
            exact herror e
          · simp only [handle, htoken, h]
            exact .logout hcall htoken hrows htold
  | currentUser =>
      cases user with
      | none => exact hrejected
      | some user => exact .currentUser hcall
  | createAccount body =>
      cases user with
      | none => exact hrejected
      | some user =>
          cases body with
          | none => exact hrejected
          | some body =>
              rcases createAccount_cases platform.unicode s.db.users s.db.accounts s.now (turn.newId 0) turn.delivery
                user body with ⟨e, h⟩ | ⟨accounts, result, hname, huser, hinsert, h, htold⟩
              · simp only [handle, withUser, extract, h]
                exact herror e
              · simp only [handle, withUser, extract, h]
                exact .createAccount hcall hname huser hinsert htold
  | listAccounts =>
      cases user with
      | none => exact hrejected
      | some user =>
          cases hlist : LimitOrderBook.listAccounts s.db.accounts turn.delivery user with
          | error e =>
              simp only [handle, withUser, hlist]
              exact herror e
          | ok accounts =>
              simp only [handle, withUser, hlist]
              exact .listAccounts hcall hlist
  | listInstruments =>
      cases hlist : LimitOrderBook.listInstruments platform.collation s.db.instruments turn.delivery with
      | error e =>
          simp only [handle, hlist]
          exact herror e
      | ok instruments =>
          simp only [handle, hlist]
          exact .listInstruments hcall hlist
  | getInstrument instrumentId =>
      cases instrumentId with
      | none => exact hrejected
      | some instrumentId =>
          cases hget : LimitOrderBook.getInstrument s.db.instruments turn.delivery instrumentId with
          | error e =>
              simp only [handle, extract, hget]
              exact herror e
          | ok instrument =>
              simp only [handle, extract, hget]
              exact .getInstrument hcall hget
  | createUser body =>
      cases body with
      | none => exact hrejected
      | some body =>
          rcases createUser_cases platform.unicode s.db.users s.now (turn.newId 0) turn.delivery body
            with ⟨e, h⟩ | ⟨users, result, hname, hinsert, h, htold⟩
          · simp only [handle, extract, h]
            exact herror e
          · simp only [handle, extract, h]
            exact .createUser hcall hname hinsert htold
  | createInstruments body =>
      cases user with
      | none => exact hrejected
      | some user =>
          cases body with
          | none => exact hrejected
          | some body =>
              rcases createInstruments_cases turn platform.unicode s.now s.db.instruments body
                with ⟨e, h⟩ | ⟨accepted, instruments, result, haccepted, hinsert, h, htold⟩
              · simp only [handle, withUser, extract, h]
                exact herror e
              · simp only [handle, withUser, extract, h]
                exact .createInstruments hcall haccepted hinsert htold
  | updateInstrumentStatus instrumentId body =>
      cases user with
      | none => exact hrejected
      | some user =>
          cases instrumentId with
          | none => exact hrejected
          | some instrumentId =>
              cases body with
              | none => exact hrejected
              | some body =>
                  rcases updateInstrumentStatus_cases turn s.db.instruments instrumentId body
                    with ⟨e, h⟩ | ⟨found, instruments, result, hfound, hid, hvalid, hrows, h, htold⟩
                  · simp only [handle, withUser, extract, h]
                    exact herror e
                  · simp only [handle, withUser, extract, h]
                    exact .updateInstrumentStatus hcall hfound hid hvalid hrows htold

variable [DecidableEq κ]

/-- `step` does what `Moves` says. -/
theorem step_moves (s : App κ) (e : AppEvent κ) :
    Moves platform s e (s.step platform e).1.db (s.step platform e).2 := by
  cases e with
  | receive call arrival =>
      unfold step receive
      dsimp only
      split
      · rename_i err _
        exact .refused (Or.inr ⟨err, rfl⟩)
      · exact .silent _
  | proceed call turn =>
      show Moves platform s (.proceed call turn) (s.proceed platform call turn).1.db (s.proceed platform call turn).2
      unfold proceed
      split
      · exact .silent _
      · split
        · rename_i err _
          exact .refused (Or.inr ⟨err, rfl⟩)
        · exact .silent _
      · rename_i endpoint request user hcall
        exact moves_handle platform s turn hcall
      · split
        · rename_i err _
          exact .refused (Or.inr ⟨err, rfl⟩)
        · exact .silent _
      · rename_i issued hcall
        rcases storeSession_delivered s.db.toDatabase s.now turn.delivery issued
          with ⟨err, h⟩ | ⟨sessions, result, hrows, huser, h, htold⟩
        · rw [h]
          exact .refused (Or.inr ⟨err, rfl⟩)
        · rw [h]
          exact .login hcall hrows huser htold
  | advance elapsed => exact .silent _
  | setStatus user status =>
      rcases s.updateUser_cases user fun user => { user with status := status } with h | ⟨users, hrows, h⟩
      · show Moves platform s _ (s.updateUser user _).db none
        rw [h]
        exact .silent _
      · show Moves platform s _ (s.updateUser user _).db none
        rw [h]
        exact .setStatus hrows
  | setRole user role =>
      rcases s.updateUser_cases user fun user => { user with role := role } with h | ⟨users, hrows, h⟩
      · show Moves platform s _ (s.updateUser user _).db none
        rw [h]
        exact .silent _
      · show Moves platform s _ (s.updateUser user _).db none
        rw [h]
        exact .setRole hrows
  | bootstrapAdmin b delivery =>
      show Moves platform s _ { s.db with toDatabase := (b.atOnce platform.unicode s.db.toDatabase delivery).1 } none
      rcases b.atOnce_cases platform.unicode s.db.toDatabase delivery with h | ⟨admin, hadmin, hnone, hinsert⟩
      · rw [h]
        exact .silent _
      · exact .bootstrapAdmin hadmin hnone hinsert

/-! ## The requests under way -/

/-- The event is not the arrival of a request on the call. -/
def KeepsCall (call : κ) (e : AppEvent κ) : Prop := ∀ arrival, e ≠ .receive call arrival

/-- What a step does to the call `call`. -/
inductive Parks (platform : Platform) (s : App κ) (call : κ) : AppEvent κ → Option Pending → Prop
  | same {e : AppEvent κ} (he : KeepsCall call e) : Parks platform s call e (s.calls call)
  | done (e : AppEvent κ) : Parks platform s call e none
  | received {arrival : Arrival} {limiter : RateLimiter} {user : Option AuthenticatedUser}
      (hpass : arrival.pass platform.crypto s.db.toDatabase s.now s.limiter = (limiter, .ok user)) :
      Parks platform s call (.receive call arrival) (some (.handler arrival.endpoint arrival.request user))
  | verified {turn : Turn} {body : LoginRequest} {request : Request} {user : Option AuthenticatedUser}
      {row : LoginUserRow} (hcall : s.calls call = some (.handler (.login (some body)) request user))
      (hverify : verifyLogin platform.unicode platform.crypto s.db.toDatabase body = .ok row) :
      Parks platform s call (.proceed call turn) (some (.login (.verified row)))
  | issued {turn : Turn} {row : LoginUserRow} {issued : IssuedToken}
      (hcall : s.calls call = some (.login (.verified row)))
      (hissue : issueToken platform.crypto s.now turn.random (turn.newId 0) row = .ok issued) :
      Parks platform s call (.proceed call turn) (some (.login (.issued issued)))

/-- A login that goes on has verified the password. -/
theorem startLogin_ok {db : Database} {delivery : Delivery} {body : LoginRequest} {row : LoginUserRow}
    (h : startLogin platform db delivery body = .ok row) :
    verifyLogin platform.unicode platform.crypto db body = .ok row := by
  unfold startLogin at h
  split at h
  · rename_i user hverify
    rw [hverify, Delivery.query_eq_ok h]
  · split at h
    · cases h
    · cases h

theorem calls_setCall (s : App κ) (call call' : κ) (pending : Option Pending) :
    (s.setCall call pending).calls call' = if call' = call then pending else s.calls call' := by
  simp [setCall, Function.update_apply]

/-- `step` does to a call what `Parks` says. -/
theorem step_parks (s : App κ) (e : AppEvent κ) (call : κ) :
    Parks platform s call e ((s.step platform e).1.calls call) := by
  -- a request changes its own call and no other
  have hown : ∀ {call' : κ} {s' : App κ} {pending : Option Pending}, s'.calls = s.calls →
      (call ≠ call' → KeepsCall call e) → (call = call' → Parks platform s call e pending) →
      Parks platform s call e ((s'.setCall call' pending).calls call) := by
    intro call' s' pending hcalls hother h
    rw [calls_setCall]
    split
    · rename_i heq
      exact h heq
    · rename_i hne
      rw [hcalls]
      exact .same (hother hne)
  cases e with
  | receive call' arrival =>
      have hother : call ≠ call' → KeepsCall call (.receive call' arrival) := by
        intro hne arrival' heq
        cases heq
        exact hne rfl
      show Parks platform s call _ ((s.receive platform call' arrival).1.calls call)
      unfold receive
      split
      · exact hown rfl hother fun _ => .done _
      · rename_i limiter user hpass
        refine hown rfl hother fun heq => ?_
        rw [heq]
        exact .received hpass
  | proceed call' turn =>
      have hother : call ≠ call' → KeepsCall call (.proceed call' turn) := fun _ => nofun
      show Parks platform s call _ ((s.proceed platform call' turn).1.calls call)
      unfold proceed
      split
      · exact .same nofun
      · rename_i body request user hcall
        split
        · exact hown rfl hother fun _ => .done _
        · rename_i row hstart
          refine hown rfl hother fun heq => ?_
          rw [heq]
          exact .verified hcall (startLogin_ok platform hstart)
      · exact hown rfl hother fun _ => .done _
      · rename_i row hcall
        split
        · exact hown rfl hother fun _ => .done _
        · rename_i issued hissue
          refine hown rfl hother fun heq => ?_
          rw [heq]
          exact .issued hcall hissue
      · exact hown rfl hother fun _ => .done _
  | advance elapsed => exact .same nofun
  | setStatus user status =>
      show Parks platform s call _ ((s.updateUser user _).calls call)
      rw [(s.updateUser_frame user _).1]
      exact .same nofun
  | setRole user role =>
      show Parks platform s call _ ((s.updateUser user _).calls call)
      rw [(s.updateUser_frame user _).1]
      exact .same nofun
  | bootstrapAdmin b delivery => exact .same nofun

/-! ## The limiter -/

/-- The API after the events. -/
def after (s : App κ) (events : List (AppEvent κ)) : App κ := (s.run platform events).1

@[simp] theorem after_nil (s : App κ) : s.after platform [] = s := rfl

theorem after_append (s : App κ) (events more : List (AppEvent κ)) :
    s.after platform (events ++ more) = (s.after platform events).after platform more := by
  unfold after run
  rw [Machine.run_append]

theorem after_snoc (s : App κ) (events : List (AppEvent κ)) (e : AppEvent κ) :
    s.after platform (events ++ [e]) = ((s.after platform events).step platform e).1 := by
  rw [after_append]
  rfl

end App
end LimitOrderBook
