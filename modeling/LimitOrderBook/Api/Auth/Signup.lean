import LimitOrderBook.Api.Auth.Rows
import LimitOrderBook.Api.Text

/-!
# `Api.Auth.Signup` — creating a trader (`src/api/auth/signup.rs`)
-/

namespace LimitOrderBook

open TableLock (Transaction Failure)

/-- Information accepted from a new trader. -/
structure SignupRequest where
  displayName : String
  email : String
  password : String
deriving DecidableEq, Repr

/-- Public user information returned after registration. -/
structure SignupResponse where
  id : Uuid
  displayName : String
  email : String
  status : String
  role : String
deriving DecidableEq, Repr

def displayNameEmpty : ApiError := ⟨.badRequest, "display_name cannot be empty"⟩

def invalidEmail : ApiError := ⟨.badRequest, "invalid email"⟩

def passwordTooShort : ApiError := ⟨.badRequest, "password must contain at least 15 characters"⟩

def failedToProcessCredentials : ApiError := ⟨.internalServerError, "failed to process credentials"⟩

def emailAlreadyExists : ApiError := ⟨.conflict, "email already exists"⟩

def failedToCreateUser : ApiError := ⟨.internalServerError, "failed to create user"⟩

/-- Normalizes and validates public signup data. -/
def validateSignup (unicode : Unicode) (request : SignupRequest) : Except ApiError SignupRequest :=
  let displayName := unicode.trim request.displayName
  let email := unicode.toLowercase (unicode.trim request.email)
  if displayName.isEmpty then .error displayNameEmpty
  else if email.isEmpty || !email.toList.contains '@' then .error invalidEmail
  else if request.password.length < 15 then .error passwordTooShort
  else .ok { displayName := displayName, email := email, password := request.password }

/-- One request, with what it reads besides: the hash that Argon2 returns, if it does not fail, the new id and the
    time of the transaction. -/
structure Signup where
  request : SignupRequest
  passwordHash : Option String
  userId : Uuid
  now : Timestamp
deriving DecidableEq, Repr

/-- The user of a signup is a trader, whatever was requested. -/
def Signup.user (s : Signup) (request : SignupRequest) : User :=
  { id := s.userId, displayName := request.displayName, email := some request.email,
    status := "active", role := "trader", createdAt := s.now }

def Signup.credentials (s : Signup) (passwordHash : String) : UserCredentials :=
  { userId := s.userId, passwordHash := passwordHash, createdAt := s.now, updatedAt := s.now }

/-- Creates a trader and their password credentials atomically. -/
def signup (unicode : Unicode) (s : Signup) :
    Transaction AuthTable AuthRow (Except ApiError (StatusCode × SignupResponse)) :=
  match validateSignup unicode s.request with
  | .error e => .finish (.error e)
  | .ok request =>
      match s.passwordHash with
      | none => .finish (.error failedToProcessCredentials)
      | some passwordHash =>
          .start (.error failedToCreateUser) <|
          .insert (fun
            | Failure.unique => .error emailAlreadyExists
            | Failure.other => .error failedToCreateUser) (.user (s.user request)) <|
          .insert (fun _ => .error failedToCreateUser) (.credentials (s.credentials passwordHash)) <|
          .commit (.error failedToCreateUser)
            (.ok (.created, { id := s.userId, displayName := request.displayName, email := request.email,
                              status := UserStatus.active.asStr, role := "trader" }))

end LimitOrderBook
