import LimitOrderBook.Api.Auth.Rows
import LimitOrderBook.Api.Text

/-!
# `Bin.BootstrapAdmin` — the first administrator (`src/bin/bootstrap_admin.rs`)
-/

namespace LimitOrderBook

open TableLock (Transaction)

/-- How the command fails: with a message of its own, or with the error of the prompt, of Argon2 or of the
    database. -/
inductive BootstrapError where
  | invalidInput (message : String)
  | prompt
  | passwordHash
  | database
deriving DecidableEq, Repr

/-- One run of the command: its arguments, what is typed at the two prompts, and what it reads besides. -/
structure BootstrapAdmin where
  args : List String
  password : Option String
  confirmation : Option String
  passwordHash : Option String
  userId : Uuid
  now : Timestamp
deriving DecidableEq, Repr

/-- What the command has by the time it connects to the database. -/
structure NewAdmin where
  email : String
  displayName : String
  passwordHash : String
deriving DecidableEq, Repr

namespace BootstrapAdmin

variable (unicode : Unicode) (b : BootstrapAdmin)

def orError {α : Type} (e : BootstrapError) : Option α → Except BootstrapError α
  | none => .error e
  | some a => .ok a

/-- `main` up to the connection: the checks, and the hash. -/
def prepare : Except BootstrapError NewAdmin := do
  let email ← orError (.invalidInput "missing admin email") b.args[0]?
  let email := unicode.toLowercase (unicode.trim email)
  let displayName := b.args[1]?.getD "Administrator"
  if email.isEmpty || !email.toList.contains '@' then .error (.invalidInput "invalid admin email")
  else
    let password ← orError .prompt b.password
    let confirmation ← orError .prompt b.confirmation
    if password != confirmation then .error (.invalidInput "passwords do not match")
    else if password.length < 15 then
      .error (.invalidInput "password must contain at least 15 characters")
    else
      let passwordHash ← orError .passwordHash b.passwordHash
      .ok { email := email, displayName := displayName, passwordHash := passwordHash }

def user (admin : NewAdmin) : User :=
  { id := b.userId, displayName := unicode.trim admin.displayName, email := some admin.email,
    status := "active", role := "admin", createdAt := b.now }

def credentials (admin : NewAdmin) : UserCredentials :=
  { userId := b.userId, passwordHash := admin.passwordHash, createdAt := b.now, updatedAt := b.now }

/-- `role = 'admin'`. -/
def isAdmin : AuthRow → Bool
  | .user row => row.role == "admin"
  | .credentials _ => false

/-- The command prints the email and the id of the administrator. The statements that have no effect are
    `connect_db` and `begin`. -/
def main : Transaction AuthTable AuthRow (Except BootstrapError (String × Uuid)) :=
  match prepare unicode b with
  | .error e => .finish (.error e)
  | .ok admin =>
      .start (.error .database) <|
      .start (.error .database) <|
      .lockTable (.error .database) .users .exclusive <|
      .selectExists (.error .database) .users isAdmin fun adminExists =>
        if adminExists then .finish (.error (.invalidInput "an administrator already exists"))
        else
          .insert (fun _ => .error .database) (.user (user unicode b admin)) <|
          .insert (fun _ => .error .database) (.credentials (credentials b admin)) <|
          .commit (.error .database) (.ok (admin.email, b.userId))

end BootstrapAdmin
end LimitOrderBook
