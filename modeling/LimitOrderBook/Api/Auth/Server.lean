import Mathlib.Logic.Function.Basic
import LimitOrderBook.Api.Auth.Login
import LimitOrderBook.Lib.Machine

/-!
# `Api.Auth.Server` — the authentication handlers under any interleaving

The server is the database, the clock and the logins that are under way, each under the name of its call.
An event is one atomic moment of one request, the passing of time, or a change of a user from outside.
-/

namespace LimitOrderBook

/-- Where a login that is under way waits. -/
inductive LoginStage where
  | verified (user : LoginUserRow)
  | issued (issued : IssuedToken)
deriving DecidableEq, Repr

structure Server (κ : Type) where
  db : Database
  now : Timestamp
  logins : κ → Option LoginStage

inductive Event (κ : Type) where
  /-- A login begins, or begins anew and drops what the call was doing. -/
  | verifyLogin (call : κ) (request : LoginRequest)
  | issueToken (call : κ) (random : Option (Vector UInt8 32)) (sessionId : Uuid)
  | storeSession (call : κ)
  | logout (request : Request)
  | requireAuthenticated (request : Request)
  | advance (elapsed : Timestamp)
  | setStatus (user : Uuid) (status : String)
  | setRole (user : Uuid) (role : String)

/-- What the client of an event is told, if the event ends a request. -/
inductive Response where
  | none
  | login (answer : Except ApiError (StatusCode × LoginResponse))
  | logout (answer : Except ApiError StatusCode)
  | requireAuthenticated (answer : Except ApiError AuthenticatedUser)

namespace Server

variable {κ : Type}

/-- No sessions yet, and no login under way. -/
def start (users : Table usersSchema) (userCredentials : Table userCredentialsSchema) (now : Timestamp) :
    Server κ :=
  ⟨⟨users, userCredentials, .empty⟩, now, fun _ => none⟩

/-- `UPDATE users SET … WHERE id = …` from outside; a value that the `CHECK` refuses changes nothing. -/
def updateUser (s : Server κ) (id : Uuid) (set : User → User) : Server κ :=
  match s.db.users.update? (fun user => user.id == id) set with
  | none => s
  | some users => { s with db := { s.db with users := users } }

section Step

variable (unicode : Unicode) (crypto : Crypto) [DecidableEq κ]

def setLogin (s : Server κ) (call : κ) (stage : Option LoginStage) : Server κ :=
  { s with logins := Function.update s.logins call stage }

def step (s : Server κ) : Event κ → Server κ × Response
  | .verifyLogin call request =>
      match verifyLogin unicode crypto s.db request with
      | .error e => (s.setLogin call none, .login (.error e))
      | .ok user => (s.setLogin call (some (.verified user)), .none)
  | .issueToken call random sessionId =>
      match s.logins call with
      | some (.verified user) =>
          match issueToken crypto s.now random sessionId user with
          | .error e => (s.setLogin call none, .login (.error e))
          | .ok issued => (s.setLogin call (some (.issued issued)), .none)
      | _ => (s, .none)
  | .storeSession call =>
      match s.logins call with
      | some (.issued issued) =>
          let (db, answer) := storeSession s.db s.now issued
          ({ s with db := db }.setLogin call none, .login answer)
      | _ => (s, .none)
  | .logout request =>
      let (db, answer) := logout crypto s.db s.now request
      ({ s with db := db }, .logout answer)
  | .requireAuthenticated request =>
      (s, .requireAuthenticated (requireAuthenticated crypto s.db s.now request))
  | .advance elapsed => ({ s with now := s.now + elapsed }, .none)
  | .setStatus user status => (s.updateUser user fun user => { user with status := status }, .none)
  | .setRole user role => (s.updateUser user fun user => { user with role := role }, .none)

/-- A login with nothing in between is the whole of `authenticate`. -/
theorem run_authenticate (s : Server κ) (call : κ) (request : LoginRequest)
    (random : Option (Vector UInt8 32)) (sessionId : Uuid) :
    let r := Machine.run (step unicode crypto) s
      [.verifyLogin call request, .issueToken call random sessionId, .storeSession call]
    let (db, answer) := authenticate unicode crypto s.db s.now random sessionId request
    r.1.db = db ∧ r.1.now = s.now ∧ Response.login answer ∈ r.2 := by
  unfold authenticate
  cases hverify : verifyLogin unicode crypto s.db request with
  | error e => simp [step, setLogin, hverify]
  | ok user =>
      cases hissue : issueToken crypto s.now random sessionId user with
      | error e => simp [step, setLogin, hverify, hissue]
      | ok issued => simp [step, setLogin, hverify, hissue]

end Step
end Server
end LimitOrderBook
