import LimitOrderBook.Api.Auth.Database
import LimitOrderBook.Api.Text

/-!
# `Api.Auth.Sessions` — bearer tokens and sessions (`src/api/auth/{sessions,logout}.rs`)

A handler gets the database and the clock as they are when its one statement runs.
-/

namespace LimitOrderBook

/-- The crates that the authentication handlers call: SHA-256, URL-safe Base64 without padding, and Argon2, as
    the passwords that a well-formed hash verifies and the hash of `DUMMY_PASSWORD_HASH`. -/
structure Crypto where
  sha256 : List UInt8 → List UInt8
  base64UrlNoPad : List UInt8 → String
  passwordHash : String → Option (List UInt8 → Bool)
  dummyPasswordHash : String

/-- What the handlers read of a request: the first value of its `Authorization` header. -/
structure Request where
  authorization : Option (List UInt8)
deriving DecidableEq, Repr

/-- `HeaderValue::to_str`: only visible ASCII is text. -/
def headerToStr (value : List UInt8) : Option String :=
  if value.all fun b => (32 ≤ b && b < 127) || b == 9 then
    some (String.ofList (value.map fun b => Char.ofNat b.toNat))
  else none

/-- Trusted identity produced after validating a database session. -/
structure AuthenticatedUser where
  userId : Uuid
  role : UserRole
deriving DecidableEq, Repr

/-- Session identity loaded from PostgreSQL. -/
structure SessionUserRow where
  userId : Uuid
  role : String
  status : String
deriving DecidableEq, Repr

def missingToken : ApiError := ⟨.unauthorized, "missing authorization token"⟩

def invalidToken : ApiError := ⟨.unauthorized, "invalid authorization token"⟩

def invalidSession : ApiError := ⟨.unauthorized, "invalid or expired session"⟩

def failedToValidateSession : ApiError := ⟨.internalServerError, "failed to validate session"⟩

def accountNotActive : ApiError := ⟨.forbidden, "account is not active"⟩

def failedToLogOut : ApiError := ⟨.internalServerError, "failed to log out"⟩

section Handlers

variable (crypto : Crypto) (db : Database) (now : Timestamp)

def hashToken (rawToken : String) : List UInt8 := crypto.sha256 (asBytes rawToken)

/-- The raw token of `Authorization: Bearer <token>`. -/
def bearerToken (request : Request) : Except ApiError String :=
  match request.authorization.bind headerToStr with
  | none => .error missingToken
  | some header =>
      match splitOnce header ' ' with
      | none => .error invalidToken
      | some (scheme, token) =>
          if !eqIgnoreAsciiCase scheme "Bearer" || token.isEmpty then .error invalidToken else .ok token

def findValidSession (rawToken : String) : Option SessionUserRow :=
  let tokenHash := hashToken crypto rawToken
  let sessions := db.sessions.rows.filter fun session =>
    session.tokenHash == tokenHash && session.revokedAt.isNone && decide (now < session.expiresAt)
  let rows := sessions.flatMap fun session =>
    (db.users.rows.filter fun user => user.id == session.userId).map fun user =>
      { userId := session.userId, role := user.role, status := user.status : SessionUserRow }
  rows.head?

def requireAuthenticated (request : Request) : Except ApiError AuthenticatedUser := do
  let rawToken ← bearerToken request
  match findValidSession crypto db now rawToken with
  | none => .error invalidSession
  | some session =>
      match UserStatus.parse session.status with
      | none => .error failedToValidateSession
      | some status =>
          if status != .active then .error accountNotActive
          else
            match UserRole.parse session.role with
            | none => .error failedToValidateSession
            | some role => .ok { userId := session.userId, role := role }

def logout (request : Request) : Database × Except ApiError StatusCode :=
  match bearerToken request with
  | .error e => (db, .error e)
  | .ok rawToken =>
      let tokenHash := hashToken crypto rawToken
      let revoked := db.sessions.update?
        (fun session => session.tokenHash == tokenHash && session.revokedAt.isNone)
        (fun session => { session with revokedAt := some now })
      match revoked with
      | none => (db, .error failedToLogOut)
      | some sessions => ({ db with sessions := sessions }, .ok .noContent)

end Handlers
end LimitOrderBook
