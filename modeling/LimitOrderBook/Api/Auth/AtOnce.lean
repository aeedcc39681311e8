import LimitOrderBook.Api.Auth.Signup
import LimitOrderBook.Bin.BootstrapAdmin
import LimitOrderBook.Lib.Statement

/-!
# `Api.Auth.AtOnce` — signup and the bootstrap as one moment each

The transactions of `signup` and of the bootstrap on the tables of a database, with no other transaction in
between. The `Delivery` is that of the whole transaction.
-/

namespace LimitOrderBook

open TableLock (Failure)

/-- A user and its credentials, inserted in one transaction. -/
def Database.insertUser {ε : Type} (db : Database) (user : User) (credentials : UserCredentials)
    (failed : Failure → ε) : Except ε Database :=
  match db.users.insert user with
  | .error .unique => .error (failed .unique)
  | .error .check => .error (failed .other)
  | .ok users =>
      match db.userCredentials.insert credentials with
      | .error _ => .error (failed .other)
      | .ok userCredentials => .ok { db with users := users, userCredentials := userCredentials }

/-- How a failed insert of a signup is answered. -/
def signupFailed : Failure → ApiError
  | .unique => emailAlreadyExists
  | .other => failedToCreateUser

/-- The handler of POST /auth/signup. -/
def signupAtOnce (unicode : Unicode) (db : Database) (delivery : Delivery) (s : Signup) :
    Database × Except ApiError (StatusCode × SignupResponse) :=
  match validateSignup unicode s.request with
  | .error e => (db, .error e)
  | .ok request =>
      match s.passwordHash with
      | none => (db, .error failedToProcessCredentials)
      | some passwordHash =>
          delivery.write failedToCreateUser db <|
            match db.insertUser (s.user request) (s.credentials passwordHash) signupFailed with
            | .error e => (db, .error e)
            | .ok db =>
                (db, .ok (.created, { id := s.userId, displayName := request.displayName,
                                      email := request.email, status := UserStatus.active.asStr,
                                      role := "trader" }))

/-- The table has an administrator. -/
def Database.adminExists (db : Database) : Bool := db.users.rows.any fun row => row.role == "admin"

/-- The bootstrap command. -/
def BootstrapAdmin.atOnce (unicode : Unicode) (db : Database) (delivery : Delivery) (b : BootstrapAdmin) :
    Database × Except BootstrapError (String × Uuid) :=
  match b.prepare unicode with
  | .error e => (db, .error e)
  | .ok admin =>
      delivery.write .database db <|
        if db.adminExists then (db, .error (.invalidInput "an administrator already exists"))
        else
          match db.insertUser (b.user unicode admin) (b.credentials admin) fun _ => .database with
          | .error e => (db, .error e)
          | .ok db => (db, .ok (admin.email, b.userId))

end LimitOrderBook
