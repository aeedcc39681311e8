import LimitOrderBook.Api.Types
import LimitOrderBook.Lib.Table

/-!
# `Api.Auth.Database` — users, credentials and sessions (`src/api/auth/{role,status}.rs`, `migrations/`)

The tables that the authentication handlers read and write, with the constraints of the migrations. Roles and
statuses are stored as text under a `CHECK`.
-/

namespace LimitOrderBook

/-- Allowed roles in the users table. -/
inductive UserRole where
  | admin
  | trader
  | system
deriving DecidableEq, Repr

namespace UserRole

def asStr : UserRole → String
  | admin => "admin"
  | trader => "trader"
  | system => "system"

def parse (value : String) : Option UserRole :=
  if value = "admin" then some admin
  else if value = "trader" then some trader
  else if value = "system" then some system
  else none

/-- A stored role is read back, and nothing else is. -/
theorem parse_eq_some_iff {value : String} {role : UserRole} :
    parse value = some role ↔ value = role.asStr := by
  unfold parse
  cases role <;> grind [asStr]

end UserRole

/-- Lifecycle states in the users table. -/
inductive UserStatus where
  | active
  | suspended
  | closed
deriving DecidableEq, Repr

namespace UserStatus

def asStr : UserStatus → String
  | active => "active"
  | suspended => "suspended"
  | closed => "closed"

def parse (value : String) : Option UserStatus :=
  if value = "active" then some active
  else if value = "suspended" then some suspended
  else if value = "closed" then some closed
  else none

/-- A stored status is read back, and nothing else is. -/
theorem parse_eq_some_iff {value : String} {status : UserStatus} :
    parse value = some status ↔ value = status.asStr := by
  unfold parse
  cases status <;> grind [asStr]

end UserStatus

/-- A row of the users table. -/
structure User where
  id : Uuid
  displayName : String
  email : Option String
  status : String
  role : String
  createdAt : Timestamp
deriving DecidableEq, Repr

/-- A row of the user_credentials table. -/
structure UserCredentials where
  userId : Uuid
  passwordHash : String
  createdAt : Timestamp
  updatedAt : Timestamp
deriving DecidableEq, Repr

/-- A row of the sessions table. -/
structure Session where
  id : Uuid
  userId : Uuid
  tokenHash : List UInt8
  expiresAt : Timestamp
  revokedAt : Option Timestamp
  createdAt : Timestamp
deriving DecidableEq, Repr

def usersSchema : Schema User where
  check user := ["active", "suspended", "closed"].contains user.status
    && ["admin", "trader", "system"].contains user.role
  -- NULL is no email, and equal to none
  distinct user user' := user.id != user'.id && (user.email.isNone || user.email != user'.email)
  distinct_comm user user' := by grind

def userCredentialsSchema : Schema UserCredentials where
  check _ := true
  distinct credentials credentials' := credentials.userId != credentials'.userId
  distinct_comm _ _ := bne_comm

def sessionsSchema : Schema Session where
  check session := session.createdAt < session.expiresAt
  distinct session session' := session.id != session'.id && session.tokenHash != session'.tokenHash
  distinct_comm session session' := by rw [bne_comm (a := session.id), bne_comm (a := session.tokenHash)]

structure Database where
  users : Table usersSchema
  userCredentials : Table userCredentialsSchema
  sessions : Table sessionsSchema

end LimitOrderBook
