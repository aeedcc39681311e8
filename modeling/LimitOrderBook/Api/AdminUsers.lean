import LimitOrderBook.Api.Auth.Sessions
import LimitOrderBook.Api.Auth.Signup
import LimitOrderBook.Lib.Statement

/-!
# `Api.AdminUsers` — administrators and the users they create (`src/api/admin/{auth,users}.rs`)
-/

namespace LimitOrderBook

def authenticationRequired : ApiError := ⟨.unauthorized, "authentication required"⟩

def administratorAccessRequired : ApiError := ⟨.forbidden, "administrator access required"⟩

/-- Allows only authenticated administrators to continue; `user` is the identity in the request extensions. -/
def requireAdmin (user : Option AuthenticatedUser) : Except ApiError Unit :=
  match user with
  | none => .error authenticationRequired
  | some user => if user.role != .admin then .error administratorAccessRequired else .ok ()

/-- JSON accepted by POST /admin/users. -/
structure CreateUserRequest where
  displayName : String
  email : Option String
  role : UserRole
deriving DecidableEq, Repr

/-- JSON returned after creating a user. -/
structure CreateUserResponse where
  id : Uuid
  displayName : String
  email : Option String
  status : String
  role : String
deriving DecidableEq, Repr

/-- The columns that `RETURNING` gives back. -/
def User.created (user : User) : CreateUserResponse :=
  { id := user.id, displayName := user.displayName, email := user.email, status := user.status,
    role := user.role }

/-- The stored form of the email that was sent, if any is left of it. -/
def CreateUserRequest.normalizedEmail (unicode : Unicode) (request : CreateUserRequest) : Option String :=
  (request.email.map fun value => unicode.toLowercase (unicode.trim value)).filter fun value => !value.isEmpty

/-- The row that is inserted. -/
def CreateUserRequest.user (unicode : Unicode) (now : Timestamp) (userId : Uuid) (request : CreateUserRequest) :
    User :=
  { id := userId, displayName := unicode.trim request.displayName, email := request.normalizedEmail unicode,
    status := "active", role := request.role.asStr, createdAt := now }

/-- Creates a user of any role; it has no credentials. -/
def createUser (unicode : Unicode) (users : Table usersSchema) (now : Timestamp) (userId : Uuid)
    (delivery : Delivery) (request : CreateUserRequest) :
    Table usersSchema × Except ApiError (StatusCode × CreateUserResponse) :=
  if (unicode.trim request.displayName).isEmpty then (users, .error displayNameEmpty)
  else
    let (users, result) := delivery.write failedToCreateUser users
      (users.insertReturning true emailAlreadyExists failedToCreateUser (request.user unicode now userId))
    (users, result.map fun user => (.created, user.created))

end LimitOrderBook
