import LimitOrderBook.Api.Auth.AtOnce
import LimitOrderBook.Api.Auth.Server
import LimitOrderBook.Api.Router

/-!
# `Api.App` — the API under any interleaving of its requests

The API under any interleaving of its requests. The state is the database, the limiter, the clock and the requests
that are under way, each under the name of its call. An event is one atomic moment: a request passes the middleware, a
handler runs to its next answer from the database, time passes, or somebody else writes to the database. A transaction
is the moment of its commit; that several of them whose statements interleave act as such moments is shown in
`Properties.Turns` and `Properties.InstrumentTurns`.

A login takes three moments, which are kept under its call: the password is verified, a token is drawn, the session is
stored. `Turn` has what a moment takes from outside, such as new ids and random bytes, and `Delivery` what becomes of
a write and of its answer. `step` dispatches an event; the result about what it can do is in `Properties.App`.
-/

namespace LimitOrderBook

/-- The tables that the API works on. -/
structure ApiDatabase extends Database where
  accounts : Table accountsSchema
  instruments : Table instrumentsSchema

/-- What the foreign keys of the migrations promise. -/
structure ApiDatabase.Referenced (db : ApiDatabase) : Prop where
  credentials : ∀ row ∈ db.userCredentials.rows, ∃ user ∈ db.users.rows, user.id = row.userId
  sessions : ∀ row ∈ db.sessions.rows, ∃ user ∈ db.users.rows, user.id = row.userId
  accounts : ∀ row ∈ db.accounts.rows, ∃ user ∈ db.users.rows, user.id = row.userId

/-- What the program calls: the tables of Unicode, the cryptography, and the order of the database on text. -/
structure Platform where
  unicode : Unicode
  crypto : Crypto
  collation : Collation

/-- Where a request that is under way waits: before its handler, with what the middleware handed on, or inside a
    login. -/
inductive Pending where
  | handler (endpoint : Endpoint) (request : Request) (user : Option AuthenticatedUser)
  | login (stage : LoginStage)
deriving DecidableEq, Repr

/-- What a handler reads besides at its turn. -/
structure Turn where
  delivery : Delivery
  random : Option (Vector UInt8 32)
  passwordHash : Option String
  newId : Nat → Uuid
  connection : Connection

/-- What the client is told. -/
inductive Answer where
  /-- An extractor refused the path, the body or the extensions of the request. -/
  | rejected
  | error (e : ApiError)
  /-- 200 when the database answers and 503 otherwise. -/
  | health (databaseIsAvailable : Bool)
  | signup (status : StatusCode) (response : SignupResponse)
  | login (status : StatusCode) (response : LoginResponse)
  | logout (status : StatusCode)
  | currentUser (identity : AuthenticatedUser)
  | createAccount (status : StatusCode) (account : AccountResponse)
  | listAccounts (accounts : List AccountResponse)
  | createUser (status : StatusCode) (response : CreateUserResponse)
  | createInstruments (status : StatusCode) (instruments : List InstrumentResponse)
  | updateInstrumentStatus (instrument : InstrumentResponse)
  | listInstruments (instruments : List InstrumentResponse)
  | getInstrument (instrument : InstrumentResponse)
deriving DecidableEq, Repr

/-- The answer to a handler's result. -/
def Answer.ofExcept {α : Type} (done : α → Answer) : Except ApiError α → Answer
  | .error e => .error e
  | .ok a => done a

structure App (κ : Type) where
  db : ApiDatabase
  limiter : RateLimiter
  now : Timestamp
  calls : κ → Option Pending

inductive AppEvent (κ : Type) where
  /-- A request arrives, or arrives anew and drops what the call was doing. -/
  | receive (call : κ) (arrival : Arrival)
  | proceed (call : κ) (turn : Turn)
  | advance (elapsed : Timestamp)
  | setStatus (user : Uuid) (status : String)
  | setRole (user : Uuid) (role : String)
  | bootstrapAdmin (b : BootstrapAdmin) (delivery : Delivery)

/-! ## Handlers with what they read at their turn -/

/-- The signup that a body asks for. -/
def Turn.signup (turn : Turn) (now : Timestamp) (body : SignupRequest) : Signup :=
  { request := body, passwordHash := turn.passwordHash, userId := turn.newId 0, now := now }

/-- The handler of POST /admin/instruments. The delivery is that of the commit. -/
def Turn.createInstruments (turn : Turn) (unicode : Unicode) (now : Timestamp) (table : Table instrumentsSchema)
    (requests : List CreateInstrumentRequest) :
    Table instrumentsSchema × Except ApiError (StatusCode × List InstrumentResponse) :=
  match LimitOrderBook.createInstruments unicode turn.connection now turn.newId table requests with
  | (table, .error e) => (table, .error e)
  | (inserted, .ok response) => turn.delivery.write failedToCreateInstruments table (inserted, .ok response)

/-- The handler of PATCH /admin/instruments/{instrument_id}/status: its transaction on the row of the id. -/
def Turn.updateInstrumentStatus (turn : Turn) (table : Table instrumentsSchema) (instrumentId : Uuid)
    (request : UpdateInstrumentStatusRequest) : Table instrumentsSchema × Except ApiError InstrumentResponse :=
  turn.delivery.write failedToUpdateStatus table <|
    let found := table.rows.find? fun row => row.id == instrumentId
    match (LimitOrderBook.updateInstrumentStatus request).alone found none with
    | (none, answer) => (table, answer)
    | (some written, answer) =>
        match table.update? (fun row => row.id == instrumentId) fun _ => written with
        | none => (table, .error failedToUpdateStatus)
        | some table => (table, answer)

namespace App

variable {κ : Type}

/-- No request under way yet, and every client with a full bucket. -/
def start (db : ApiDatabase) (config : RateLimitConfig) (now : Timestamp) : App κ :=
  ⟨db, RateLimiter.new config, now, fun _ => none⟩

/-- `UPDATE users SET … WHERE id = …` from outside; a value that the `CHECK` refuses changes nothing. -/
def updateUser (s : App κ) (id : Uuid) (set : User → User) : App κ :=
  match s.db.users.update? (fun user => user.id == id) set with
  | none => s
  | some users => { s with db := { s.db with users := users } }

section Step

variable (platform : Platform) [DecidableEq κ]

def setCall (s : App κ) (call : κ) (pending : Option Pending) : App κ :=
  { s with calls := Function.update s.calls call pending }

/-- The request passes the middleware of its route and waits for its handler, or is answered. -/
def receive (s : App κ) (call : κ) (arrival : Arrival) : App κ × Option Answer :=
  match arrival.pass platform.crypto s.db.toDatabase s.now s.limiter with
  | (limiter, .error e) => ({ s with limiter := limiter }.setCall call none, some (.error e))
  | (limiter, .ok user) =>
      ({ s with limiter := limiter }.setCall call (some (.handler arrival.endpoint arrival.request user)), none)

/-- `Extension(user)`: a handler that wants an identity is refused without one. -/
def withUser (db : ApiDatabase) (user : Option AuthenticatedUser)
    (handler : AuthenticatedUser → ApiDatabase × Answer) : ApiDatabase × Answer :=
  match user with
  | none => (db, .rejected)
  | some user => handler user

/-- `Json(..)` and `Path(..)`. -/
def extract {α : Type} (db : ApiDatabase) (extracted : Option α) (handler : α → ApiDatabase × Answer) :
    ApiDatabase × Answer :=
  match extracted with
  | none => (db, .rejected)
  | some a => handler a

/-- The handlers that answer at their first turn. Of the logins these are the ones whose body is refused; the others
    begin with `startLogin`. -/
def handle (db : ApiDatabase) (now : Timestamp) (turn : Turn) (request : Request)
    (user : Option AuthenticatedUser) : Endpoint → ApiDatabase × Answer
  | .health => (db, .health (turn.delivery == .answered))
  | .signup body => extract db body fun body =>
      let (auth, result) := signupAtOnce platform.unicode db.toDatabase turn.delivery (turn.signup now body)
      ({ db with toDatabase := auth }, .ofExcept (fun r => .signup r.1 r.2) result)
  | .login _ => (db, .rejected)
  | .logout =>
      match bearerToken request with
      | .error e => (db, .error e)
      | .ok _ =>
          let (auth, result) := turn.delivery.write failedToLogOut db.toDatabase
            (LimitOrderBook.logout platform.crypto db.toDatabase now request)
          ({ db with toDatabase := auth }, .ofExcept .logout result)
  | .currentUser => withUser db user fun user => (db, .currentUser user)
  | .createAccount body => withUser db user fun user => extract db body fun body =>
      let (accounts, result) := LimitOrderBook.createAccount platform.unicode db.users db.accounts now
        (turn.newId 0) turn.delivery user body
      ({ db with accounts := accounts }, .ofExcept (fun r => .createAccount r.1 r.2) result)
  | .listAccounts => withUser db user fun user =>
      (db, .ofExcept .listAccounts (LimitOrderBook.listAccounts db.accounts turn.delivery user))
  | .listInstruments =>
      (db, .ofExcept .listInstruments
        (LimitOrderBook.listInstruments platform.collation db.instruments turn.delivery))
  | .getInstrument instrumentId => extract db instrumentId fun instrumentId =>
      (db, .ofExcept .getInstrument (LimitOrderBook.getInstrument db.instruments turn.delivery instrumentId))
  | .createUser body => extract db body fun body =>
      let (users, result) := LimitOrderBook.createUser platform.unicode db.users now (turn.newId 0)
        turn.delivery body
      ({ db with users := users }, .ofExcept (fun r => .createUser r.1 r.2) result)
  | .createInstruments body => withUser db user fun _ => extract db body fun body =>
      let (instruments, result) := turn.createInstruments platform.unicode now db.instruments body
      ({ db with instruments := instruments }, .ofExcept (fun r => .createInstruments r.1 r.2) result)
  | .updateInstrumentStatus instrumentId body => withUser db user fun _ =>
      extract db instrumentId fun instrumentId => extract db body fun body =>
        let (instruments, result) := turn.updateInstrumentStatus db.instruments instrumentId body
        ({ db with instruments := instruments }, .ofExcept .updateInstrumentStatus result)

/-- The checks of a login, with a query that may fail; a request that is incomplete makes no query. -/
def startLogin (db : Database) (delivery : Delivery) (request : LoginRequest) : Except ApiError LoginUserRow :=
  match verifyLogin platform.unicode platform.crypto db request with
  | .ok user => delivery.query failedToProcessLogin user
  | .error e =>
      if e = emailAndPasswordRequired || delivery = .answered then .error e else .error failedToProcessLogin

/-- The next moment of a request that is under way. -/
def proceed (s : App κ) (call : κ) (turn : Turn) : App κ × Option Answer :=
  match s.calls call with
  | none => (s, none)
  | some (.handler (.login (some body)) _ _) =>
      match startLogin platform s.db.toDatabase turn.delivery body with
      | .error e => (s.setCall call none, some (.error e))
      | .ok user => (s.setCall call (some (.login (.verified user))), none)
  | some (.handler endpoint request user) =>
      let (db, answer) := handle platform s.db s.now turn request user endpoint
      ({ s with db := db }.setCall call none, some answer)
  | some (.login (.verified user)) =>
      match issueToken platform.crypto s.now turn.random (turn.newId 0) user with
      | .error e => (s.setCall call none, some (.error e))
      | .ok issued => (s.setCall call (some (.login (.issued issued))), none)
  | some (.login (.issued issued)) =>
      let (auth, result) := turn.delivery.write failedToCreateSession s.db.toDatabase
        (storeSession s.db.toDatabase s.now issued)
      ({ s with db := { s.db with toDatabase := auth } }.setCall call none,
        some (.ofExcept (fun r => .login r.1 r.2) result))

def step (s : App κ) : AppEvent κ → App κ × Option Answer
  | .receive call arrival => s.receive platform call arrival
  | .proceed call turn => s.proceed platform call turn
  | .advance elapsed => ({ s with now := s.now + elapsed }, none)
  | .setStatus user status => (s.updateUser user fun user => { user with status := status }, none)
  | .setRole user role => (s.updateUser user fun user => { user with role := role }, none)
  | .bootstrapAdmin b delivery =>
      let (auth, _) := b.atOnce platform.unicode s.db.toDatabase delivery
      ({ s with db := { s.db with toDatabase := auth } }, none)

/-- The API after the events, and what each of them answered. -/
def run (s : App κ) (events : List (AppEvent κ)) : App κ × List (Option Answer) :=
  Machine.run (step platform) s events

end Step
end App
end LimitOrderBook
