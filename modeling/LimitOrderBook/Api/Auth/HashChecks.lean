import LimitOrderBook.Api.Auth.Login
import LimitOrderBook.Lib.Machine

/-!
# `Api.Auth.HashChecks` — the hashes that a login checks (`src/api/auth/login.rs`)

Argon2 is slow on purpose, so how long a login takes shows how many hashes it checked. `verify_password` and
`authenticate` are written here once more, with the log of their checks and with the database as it is by the
time of the insert; without the log they are the definitions of `Api.Auth.Login`.
-/

namespace LimitOrderBook

/-- `Argon2::verify_password` of a password against a hash. -/
structure HashCheck where
  password : List UInt8
  hash : String
deriving DecidableEq, Repr

/-- A part of a login that may fail; what it has logged stays logged. -/
abbrev Checking := ExceptT ApiError (StateM (List HashCheck))

section Handlers

variable (unicode : Unicode) (crypto : Crypto)

def verifyPasswordChecking (password : String) (storedHash : Option String) : Checking Bool := do
  let userExists := storedHash.isSome
  let hash := storedHash.getD crypto.dummyPasswordHash
  match crypto.passwordHash hash with
  | none => throw failedToProcessLogin
  | some verifies =>
      modify fun log => log ++ [⟨asBytes password, hash⟩]
      return verifies (asBytes password) && userExists

def verifyLoginChecking (db : Database) (request : LoginRequest) : Checking LoginUserRow := do
  let email := unicode.toLowercase (unicode.trim request.email)
  if email.isEmpty || request.password.isEmpty then throw emailAndPasswordRequired
  else
    let user := findLoginUser db email
    let storedHash := user.map LoginUserRow.passwordHash
    let passwordMatches ← verifyPasswordChecking crypto request.password storedHash
    match user.filter fun _ => passwordMatches with
    | none => throw invalidEmailOrPassword
    | some user =>
        if (← ofExcept (parseStatus user.status)) != .active then throw accountNotActive else return user

/-- The credentials are read from `db`, and the session goes into `later`. -/
def authenticateChecking (db later : Database) (now : Timestamp) (random : Option (Vector UInt8 32))
    (sessionId : Uuid) (request : LoginRequest) :
    StateM (List HashCheck) (Database × Except ApiError (StatusCode × LoginResponse)) := do
  match ← (verifyLoginChecking unicode crypto db request).run with
  | .error e => return (later, .error e)
  | .ok user =>
      match issueToken crypto now random sessionId user with
      | .error e => return (later, .error e)
      | .ok issued => return storeSession later now issued

/-! ## The log -/

/-- A hash that cannot be parsed is not checked. -/
def passwordChecks (password : String) (storedHash : Option String) : List HashCheck :=
  let hash := storedHash.getD crypto.dummyPasswordHash
  if (crypto.passwordHash hash).isSome then [⟨asBytes password, hash⟩] else []

/-- A request without an email or a password is turned away before that. -/
def loginChecks (db : Database) (request : LoginRequest) : List HashCheck :=
  let email := unicode.toLowercase (unicode.trim request.email)
  if email.isEmpty || request.password.isEmpty then []
  else passwordChecks crypto request.password ((findLoginUser db email).map LoginUserRow.passwordHash)

variable {unicode crypto}

theorem run_verifyPasswordChecking (password : String) (storedHash : Option String) (log : List HashCheck) :
    (verifyPasswordChecking crypto password storedHash).run.run log
      = (verifyPassword crypto password storedHash, log ++ passwordChecks crypto password storedHash) := by
  unfold verifyPasswordChecking verifyPassword passwordChecks
  dsimp only
  cases crypto.passwordHash (storedHash.getD crypto.dummyPasswordHash) with
  | none =>
      rw [if_neg (by simp), List.append_nil]
      rfl
  | some verifies => rfl

theorem run_verifyLoginChecking (db : Database) (request : LoginRequest) (log : List HashCheck) :
    (verifyLoginChecking unicode crypto db request).run.run log
      = (verifyLogin unicode crypto db request, log ++ loginChecks unicode crypto db request) := by
  unfold verifyLoginChecking verifyLogin loginChecks
  dsimp only
  split
  · rw [List.append_nil]
    rfl
  · generalize findLoginUser db _ = user
    have hrun : (verifyPasswordChecking crypto request.password _).run.run log = _ :=
      run_verifyPasswordChecking request.password (user.map LoginUserRow.passwordHash) log
    cases hverify : verifyPassword crypto request.password (user.map LoginUserRow.passwordHash) with
    | error e =>
        rw [hverify] at hrun
        rw [Machine.run_bind_of_error hrun]
        rfl
    | ok passwordMatches =>
        rw [hverify] at hrun
        rw [Machine.run_bind_of_ok hrun, Machine.ok_bind]
        cases user.filter fun _ => passwordMatches with
        | none => rfl
        | some user =>
            dsimp only
            cases hstatus : parseStatus user.status with
            | error e => rw [Machine.run_bind_of_error (Machine.run_ofExcept _ _)]; rfl
            | ok status =>
                rw [Machine.run_bind_of_ok (Machine.run_ofExcept _ _), Machine.ok_bind]
                cases status <;> rfl

section Authenticate

variable {db later : Database} {now : Timestamp} {random : Option (Vector UInt8 32)} {sessionId : Uuid}
  {request : LoginRequest} {log : List HashCheck}

theorem run_authenticateChecking_of_error {e : ApiError} (h : verifyLogin unicode crypto db request = .error e) :
    (authenticateChecking unicode crypto db later now random sessionId request).run log
      = ((later, .error e), log ++ loginChecks unicode crypto db request) := by
  unfold authenticateChecking
  rw [Machine.run_bind (run_verifyLoginChecking db request log), h]
  rfl

theorem run_authenticateChecking_of_ok {user : LoginUserRow}
    (h : verifyLogin unicode crypto db request = .ok user) {issued : IssuedToken}
    (hissue : issueToken crypto now random sessionId user = .ok issued) :
    (authenticateChecking unicode crypto db later now random sessionId request).run log
      = (storeSession later now issued, log ++ loginChecks unicode crypto db request) := by
  unfold authenticateChecking
  rw [Machine.run_bind (run_verifyLoginChecking db request log), h]
  dsimp only
  rw [hissue]
  rfl

/-- Without the log, and with nothing in between, it is `authenticate`. -/
theorem authenticateChecking_fst :
    ((authenticateChecking unicode crypto db db now random sessionId request).run log).1
      = authenticate unicode crypto db now random sessionId request := by
  unfold authenticateChecking authenticate
  rw [Machine.run_bind (run_verifyLoginChecking db request log)]
  cases verifyLogin unicode crypto db request with
  | error e => rfl
  | ok user =>
      dsimp only
      cases issueToken crypto now random sessionId user <;> rfl

end Authenticate
end Handlers
end LimitOrderBook
