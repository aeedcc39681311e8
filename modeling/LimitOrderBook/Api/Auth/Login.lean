import LimitOrderBook.Api.Auth.Sessions

/-!
# `Api.Auth.Login` — creating a session (`src/api/auth/login.rs`)

`authenticate` awaits the database twice, and other requests run in between: it is cut there, and before the
clock is read, into `verifyLogin`, `issueToken` and `storeSession`.
-/

namespace LimitOrderBook

/-- `SESSION_LIFETIME_HOURS`, in microseconds. -/
def sessionLifetime : Timestamp := 12 * 60 * 60 * 1000000

structure LoginRequest where
  email : String
  password : String
deriving DecidableEq, Repr

/-- Holds the client token and the hash stored in PostgreSQL. -/
structure GeneratedToken where
  raw : String
  hash : List UInt8
deriving DecidableEq, Repr

/-- Session information returned after successful authentication. -/
structure LoginResponse where
  userId : Uuid
  accessToken : String
  expiresAt : Timestamp
deriving DecidableEq, Repr

/-- Internal database result used while verifying credentials. -/
structure LoginUserRow where
  id : Uuid
  status : String
  passwordHash : String
deriving DecidableEq, Repr

def emailAndPasswordRequired : ApiError := ⟨.badRequest, "email and password are required"⟩

def invalidEmailOrPassword : ApiError := ⟨.unauthorized, "invalid email or password"⟩

def failedToProcessLogin : ApiError := ⟨.internalServerError, "failed to process login"⟩

def failedToCreateSession : ApiError := ⟨.internalServerError, "failed to create session"⟩

section Handlers

variable (unicode : Unicode) (crypto : Crypto)

def findLoginUser (db : Database) (email : String) : Option LoginUserRow :=
  let users := db.users.rows.filter fun user => user.email == some email
  let rows := users.flatMap fun user =>
    (db.userCredentials.rows.filter fun credentials => credentials.userId == user.id).map fun credentials =>
      { id := user.id, status := user.status, passwordHash := credentials.passwordHash : LoginUserRow }
  rows.head?

/-- With no stored hash the password is checked against a dummy hash and the result is always false. -/
def verifyPassword (password : String) (storedHash : Option String) : Except ApiError Bool :=
  let userExists := storedHash.isSome
  let hash := storedHash.getD crypto.dummyPasswordHash
  match crypto.passwordHash hash with
  | none => .error failedToProcessLogin
  | some verifies => .ok (verifies (asBytes password) && userExists)

def parseStatus (value : String) : Except ApiError UserStatus :=
  match UserStatus.parse value with
  | none => .error failedToProcessLogin
  | some status => .ok status

/-- `random` is what `getrandom::fill` yields, if it does not fail. -/
def generateSessionToken (random : Option (Vector UInt8 32)) : Except ApiError GeneratedToken :=
  match random with
  | none => .error failedToCreateSession
  | some randomBytes =>
      let raw := crypto.base64UrlNoPad randomBytes.toList
      .ok { raw := raw, hash := crypto.sha256 (asBytes raw) }

/-- `authenticate` up to the check of the account: the user that the credentials belong to. -/
def verifyLogin (db : Database) (request : LoginRequest) : Except ApiError LoginUserRow := do
  let email := unicode.toLowercase (unicode.trim request.email)
  if email.isEmpty || request.password.isEmpty then .error emailAndPasswordRequired
  else
    let user := findLoginUser db email
    let storedHash := user.map LoginUserRow.passwordHash
    let passwordMatches ← verifyPassword crypto request.password storedHash
    match user.filter fun _ => passwordMatches with
    | none => .error invalidEmailOrPassword
    | some user =>
        if (← parseStatus user.status) != .active then .error accountNotActive else .ok user

/-- A session that waits to be stored. -/
structure IssuedToken where
  user : LoginUserRow
  token : GeneratedToken
  sessionId : Uuid
  expiresAt : Timestamp
deriving DecidableEq, Repr

/-- `authenticate` from there to the insert: the token, the id and the expiry. -/
def issueToken (now : Timestamp) (random : Option (Vector UInt8 32)) (sessionId : Uuid)
    (user : LoginUserRow) : Except ApiError IssuedToken := do
  let token ← generateSessionToken crypto random
  .ok { user := user, token := token, sessionId := sessionId, expiresAt := now + sessionLifetime }

/-- The insert and the answer of `authenticate`. The insert also fails when the user is gone. -/
def storeSession (db : Database) (now : Timestamp) (issued : IssuedToken) :
    Database × Except ApiError (StatusCode × LoginResponse) :=
  let session : Session :=
    { id := issued.sessionId, userId := issued.user.id, tokenHash := issued.token.hash,
      expiresAt := issued.expiresAt, revokedAt := none, createdAt := now }
  let referenced := db.users.rows.any fun user => user.id == session.userId
  match if referenced then db.sessions.insert? session else none with
  | none => (db, .error failedToCreateSession)
  | some sessions =>
      ({ db with sessions := sessions },
        .ok (.ok, { userId := issued.user.id, accessToken := issued.token.raw,
                    expiresAt := issued.expiresAt }))

/-- The whole of `authenticate`, when nothing runs in between. -/
def authenticate (db : Database) (now : Timestamp) (random : Option (Vector UInt8 32)) (sessionId : Uuid)
    (request : LoginRequest) : Database × Except ApiError (StatusCode × LoginResponse) :=
  match verifyLogin unicode crypto db request with
  | .error e => (db, .error e)
  | .ok user =>
      match issueToken crypto now random sessionId user with
      | .error e => (db, .error e)
      | .ok issued => storeSession db now issued

end Handlers
end LimitOrderBook
