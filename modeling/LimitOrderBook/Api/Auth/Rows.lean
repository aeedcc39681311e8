import LimitOrderBook.Api.Auth.Database
import LimitOrderBook.Lib.TableLock

/-!
# `Api.Auth.Rows` — the rows that transactions write (`migrations/`)

Signup and the bootstrap of an administrator write a user and its credentials in one transaction. Here both
tables are one list of rows, with the constraints of `Api.Auth.Database` and the foreign key between them.
-/

namespace LimitOrderBook

inductive AuthTable where
  | users
  | userCredentials
deriving DecidableEq, Repr

inductive AuthRow where
  | user (row : User)
  | credentials (row : UserCredentials)
deriving DecidableEq, Repr

namespace AuthRow

def table : AuthRow → AuthTable
  | user _ => .users
  | credentials _ => .userCredentials

def user? : AuthRow → Option User
  | user row => some row
  | credentials _ => none

def credentials? : AuthRow → Option UserCredentials
  | user _ => none
  | credentials row => some row

def check : AuthRow → Bool
  | user row => usersSchema.check row
  | credentials row => userCredentialsSchema.check row

/-- Rows of two tables share no key. -/
def distinct : AuthRow → AuthRow → Bool
  | user row, user row' => usersSchema.distinct row row'
  | credentials row, credentials row' => userCredentialsSchema.distinct row row'
  | _, _ => true

/-- The row is a user with this id. -/
def isUser (id : Uuid) : AuthRow → Bool
  | user row => row.id == id
  | credentials _ => false

/-- Credentials reference their user. -/
def references : AuthRow → List (AuthTable × (AuthRow → Bool))
  | user _ => []
  | credentials row => [(.users, isUser row.userId)]

end AuthRow

def authCatalog : TableLock.Catalog AuthTable AuthRow where
  table := AuthRow.table
  schema := {
    check := AuthRow.check
    distinct := AuthRow.distinct
    distinct_comm := by
      intro r r'
      cases r <;> cases r'
      · exact usersSchema.distinct_comm _ _
      · rfl
      · rfl
      · exact userCredentialsSchema.distinct_comm _ _ }
  references := AuthRow.references

/-- The rows of both tables. -/
def Database.authRows (db : Database) : List AuthRow :=
  db.users.rows.map .user ++ db.userCredentials.rows.map .credentials

theorem Database.check_authRows (db : Database) : ∀ r ∈ db.authRows, authCatalog.schema.check r = true := by
  intro r hr
  rcases List.mem_append.mp hr with hr | hr
  · obtain ⟨user, hmem, rfl⟩ := List.mem_map.mp hr
    exact db.users.checked user hmem
  · obtain ⟨credentials, hmem, rfl⟩ := List.mem_map.mp hr
    exact db.userCredentials.checked credentials hmem

theorem Database.distinct_authRows (db : Database) :
    db.authRows.Pairwise fun r r' => authCatalog.schema.distinct r r' = true := by
  refine List.pairwise_append.mpr ⟨?_, ?_, ?_⟩
  · rw [List.pairwise_map]
    exact db.users.unique
  · rw [List.pairwise_map]
    exact db.userCredentials.unique
  · intro r hr r' hr'
    obtain ⟨user, -, rfl⟩ := List.mem_map.mp hr
    obtain ⟨credentials, -, rfl⟩ := List.mem_map.mp hr'
    rfl

/-- Rows that meet the constraints are the two tables of a database. -/
theorem exists_database_of_rows {rows : List AuthRow} (hcheck : ∀ r ∈ rows, authCatalog.schema.check r = true)
    (hdistinct : rows.Pairwise fun r r' => authCatalog.schema.distinct r r' = true)
    (sessions : Table sessionsSchema) :
    ∃ db : Database, db.users.rows = rows.filterMap AuthRow.user?
      ∧ db.userCredentials.rows = rows.filterMap AuthRow.credentials? ∧ db.sessions = sessions := by
  have huser : ∀ {r : AuthRow} {user}, r.user? = some user → r = .user user := by
    intro r user h
    cases r <;> cases h
    rfl
  have hcredentials : ∀ {r : AuthRow} {credentials}, r.credentials? = some credentials →
      r = .credentials credentials := by
    intro r credentials h
    cases r <;> cases h
    rfl
  have husers : (rows.filterMap AuthRow.user?).Pairwise fun user user' =>
      usersSchema.distinct user user' = true := by
    rw [List.pairwise_filterMap]
    refine hdistinct.imp fun {r r'} h user hr user' hr' => ?_
    rw [huser hr, huser hr'] at h
    exact h
  have hall : (rows.filterMap AuthRow.credentials?).Pairwise fun credentials credentials' =>
      userCredentialsSchema.distinct credentials credentials' = true := by
    rw [List.pairwise_filterMap]
    refine hdistinct.imp fun {r r'} h credentials hr credentials' hr' => ?_
    rw [hcredentials hr, hcredentials hr'] at h
    exact h
  refine ⟨⟨⟨rows.filterMap AuthRow.user?, ?_, husers⟩, ⟨rows.filterMap AuthRow.credentials?, ?_, hall⟩, sessions⟩,
    rfl, rfl, rfl⟩
  · intro user hmem
    obtain ⟨r, hr, hr'⟩ := List.mem_filterMap.mp hmem
    have h := hcheck r hr
    rw [huser hr'] at h
    exact h
  · intro credentials _
    rfl

end LimitOrderBook
