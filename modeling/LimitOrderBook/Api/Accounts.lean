import Mathlib.Data.List.Sort
import LimitOrderBook.Api.Auth.Sessions
import LimitOrderBook.Lib.Statement

/-!
# `Api.Accounts` — the accounts of a user (`src/api/accounts/`, `migrations/`)
-/

namespace LimitOrderBook

/-- Client input for creating an account. -/
structure CreateAccountRequest where
  name : String
deriving DecidableEq, Repr

/-- Account data that may be returned to an authenticated client: the row of the accounts table. -/
structure AccountResponse where
  id : Uuid
  userId : Uuid
  name : String
  status : String
  createdAt : Timestamp
deriving DecidableEq, Repr

def accountsSchema : Schema AccountResponse where
  check account := ["active", "suspended", "closed"].contains account.status
  -- UNIQUE(user_id, name) prevents duplicate account names per user
  distinct account account' :=
    account.id != account'.id && (account.userId != account'.userId || account.name != account'.name)
  distinct_comm account account' := by grind

def accountNameEmpty : ApiError := ⟨.badRequest, "account name cannot be empty"⟩

def accountNameAlreadyExists : ApiError := ⟨.conflict, "account name already exists"⟩

def failedToCreateAccount : ApiError := ⟨.internalServerError, "failed to create account"⟩

def failedToListAccounts : ApiError := ⟨.internalServerError, "failed to list accounts"⟩

/-- The row that is inserted; ownership comes from authenticated middleware, never client JSON. -/
def CreateAccountRequest.account (unicode : Unicode) (now : Timestamp) (accountId : Uuid) (user : AuthenticatedUser)
    (request : CreateAccountRequest) : AccountResponse :=
  { id := accountId, userId := user.userId, name := unicode.trim request.name, status := "active",
    createdAt := now }

/-- Creates an account owned by the authenticated user. -/
def createAccount (unicode : Unicode) (users : Table usersSchema) (accounts : Table accountsSchema)
    (now : Timestamp) (accountId : Uuid) (delivery : Delivery) (user : AuthenticatedUser)
    (request : CreateAccountRequest) : Table accountsSchema × Except ApiError (StatusCode × AccountResponse) :=
  if (unicode.trim request.name).isEmpty then (accounts, .error accountNameEmpty)
  else
    let referenced := users.rows.any fun row => row.id == user.userId
    let (accounts, result) := delivery.write failedToCreateAccount accounts
      (accounts.insertReturning referenced accountNameAlreadyExists failedToCreateAccount
        (request.account unicode now accountId user))
    (accounts, result.map fun account => (.created, account))

/-- `ORDER BY created_at, id`. -/
def AccountOrder (account account' : AccountResponse) : Prop :=
  account.createdAt < account'.createdAt
    ∨ account.createdAt = account'.createdAt ∧ account.id ≤ account'.id

instance : DecidableRel AccountOrder := fun _ _ => inferInstanceAs (Decidable (_ ∨ _ ∧ _))

/-- Lists every account owned by the authenticated user. -/
def listAccounts (accounts : Table accountsSchema) (delivery : Delivery) (user : AuthenticatedUser) :
    Except ApiError (List AccountResponse) :=
  delivery.query failedToListAccounts
    ((accounts.rows.filter fun account => account.userId == user.userId).insertionSort AccountOrder)

end LimitOrderBook
