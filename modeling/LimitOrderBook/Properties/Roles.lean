import LimitOrderBook.Properties.Bootstrap
import LimitOrderBook.Properties.Trust

/-!
# `Properties.Roles` — where users and administrators come from

Where users and administrators come from. Three requests insert a user: a signup, the bootstrap and POST /admin/users.
Each writes the role that it is there for, and none changes a role that is stored.

`UserOrigin` lists where a user of the table after a step can come from, and `users_step` reads it off `Moves`.
`MakesAdminAt` says at which moments a user is made an administrator: from outside, by the bootstrap while there is
none, or by POST /admin/users on a request that was let through as an administrator's. `admins_have_authors` says that
every administrator was one at the start or had such a moment, by induction on the run and with `Properties.Trust` for
the last case.

`no_admin_arises` is about a database without an administrator. `NoAdmin` is its invariant: there is none, and no
request waits for a handler of /admin, because none is let through (`NoAdmin.not_pass`).
-/

namespace LimitOrderBook
namespace App

variable {κ : Type} [DecidableEq κ]

/-! ## The users table -/

/-- Where a row of the users table was before the step, or what made it. -/
inductive UserOrigin (platform : Platform) (s : App κ) (user : User) : AppEvent κ → Prop
  | kept (e : AppEvent κ) (hmem : user ∈ s.db.users.rows) : UserOrigin platform s user e
  | setStatus {old : User} {status : String} (hmem : old ∈ s.db.users.rows)
      (huser : user = { old with status := status }) : UserOrigin platform s user (.setStatus old.id status)
  | setRole {old : User} {role : String} (hmem : old ∈ s.db.users.rows)
      (huser : user = { old with role := role }) : UserOrigin platform s user (.setRole old.id role)
  | signup {call : κ} {turn : Turn} {body accepted : SignupRequest} {request : Request}
      {identity : Option AuthenticatedUser}
      (hcall : s.calls call = some (.handler (.signup (some body)) request identity))
      (haccepted : validateSignup platform.unicode body = .ok accepted)
      (huser : user = (turn.signup s.now body).user accepted) : UserOrigin platform s user (.proceed call turn)
  | createUser {call : κ} {turn : Turn} {body : CreateUserRequest} {request : Request}
      {identity : Option AuthenticatedUser}
      (hcall : s.calls call = some (.handler (.createUser (some body)) request identity))
      (huser : user = body.user platform.unicode s.now (turn.newId 0)) : UserOrigin platform s user (.proceed call turn)
  | bootstrapAdmin {b : BootstrapAdmin} {delivery : Delivery} {admin : NewAdmin}
      (hnone : s.db.adminExists = false) (huser : user = b.user platform.unicode admin) :
      UserOrigin platform s user (.bootstrapAdmin b delivery)

/-- The row of a user that is updated, or not. -/
theorem mem_map_updatedUser {users : List User} {id : Uuid} {set : User → User} {user : User}
    (h : user ∈ users.map (updatedUser id set)) : user ∈ users ∨ ∃ old ∈ users, old.id = id ∧ user = set old := by
  obtain ⟨old, hold, rfl⟩ := List.mem_map.mp h
  unfold updatedUser
  split
  · rename_i hid
    exact Or.inr ⟨old, hold, by simpa using hid, rfl⟩
  · exact Or.inl hold

/-- **Every user after a step** was there before or has an origin in it. -/
theorem users_step (platform : Platform) {s : App κ} {e : AppEvent κ} {user : User}
    (hmem : user ∈ (s.step platform e).1.db.users.rows) : UserOrigin platform s user e := by
  have hmoves := step_moves platform s e
  generalize (s.step platform e).1.db = db, (s.step platform e).2 = answer at hmoves hmem
  cases hmoves with
  | signup hcall haccepted hhash hinsert htold =>
      obtain ⟨users, userCredentials, husers, -, rfl⟩ := Database.insertUser_ok hinsert
      have hmem' : user ∈ users.rows := hmem
      rw [(Table.insert_ok husers).1] at hmem'
      rcases List.mem_append.mp hmem' with hold | hnew
      · exact .kept _ hold
      · exact .signup hcall haccepted (List.mem_singleton.mp hnew)
  | createUser hcall hname hinsert htold =>
      rename_i call turn body request identity users answer
      have hmem' : user ∈ users.rows := hmem
      rw [(Table.insert_ok hinsert).1] at hmem'
      rcases List.mem_append.mp hmem' with hold | hnew
      · exact .kept _ hold
      · exact .createUser hcall (List.mem_singleton.mp hnew)
  | bootstrapAdmin hadmin hnone hinsert =>
      obtain ⟨users, userCredentials, husers, -, rfl⟩ := Database.insertUser_ok hinsert
      have hmem' : user ∈ users.rows := hmem
      rw [(Table.insert_ok husers).1] at hmem'
      rcases List.mem_append.mp hmem' with hold | hnew
      · exact .kept _ hold
      · exact .bootstrapAdmin hnone (List.mem_singleton.mp hnew)
  | setStatus hrows =>
      rename_i id status users
      have hmem' : user ∈ users.rows := hmem
      rw [hrows] at hmem'
      rcases mem_map_updatedUser hmem' with hold | ⟨old, hold, rfl, rfl⟩
      · exact .kept _ hold
      · exact .setStatus hold rfl
  | setRole hrows =>
      rename_i id role users
      have hmem' : user ∈ users.rows := hmem
      rw [hrows] at hmem'
      rcases mem_map_updatedUser hmem' with hold | ⟨old, hold, rfl, rfl⟩
      · exact .kept _ hold
      · exact .setRole hold rfl
  | _ => exact .kept _ hmem

/-! ## Administrators -/

/-- The user `id` is made an administrator at this moment: from outside, by the bootstrap while there is none, or
    by a request to POST /admin/users that was let through as one of an administrator. -/
def MakesAdminAt (platform : Platform) (s₀ : App κ) (id : Uuid) (before : List (AppEvent κ)) (e : AppEvent κ) :
    Prop :=
  e = .setRole id "admin"
    ∨ (∃ b delivery, e = .bootstrapAdmin b delivery ∧ b.userId = id
        ∧ (s₀.after platform before).db.adminExists = false)
    ∨ ∃ call turn body request identity, e = .proceed call turn ∧ turn.newId 0 = id ∧ body.role = .admin
        ∧ (s₀.after platform before).calls call
          = some (.handler (.createUser (some body)) request (some identity))
        ∧ identity.role = .admin
        ∧ Past.Since (AdmitsAt platform s₀ call (.createUser (some body)) request identity) (KeepsCall call) before

/-- Who was let through to an endpoint of /admin is an administrator. -/
theorem role_of_admitsAt {platform : Platform} {s₀ : App κ} {call : κ} {endpoint : Endpoint} {request : Request}
    {identity : AuthenticatedUser} {Q : AppEvent κ → Prop} {events : List (AppEvent κ)}
    (h : Past.Since (AdmitsAt platform s₀ call endpoint request identity) Q events)
    (hlayers : .requireAdmin ∈ endpoint.layers) : identity.role = .admin := by
  obtain ⟨before, e, after, -, ⟨arrival, session, -, -, -, hadmission, -⟩, -⟩ := h
  exact hadmission.admin hlayers

theorem asStr_eq_admin_iff {role : UserRole} : role.asStr = "admin" ↔ role = .admin := by
  cases role <;> simp [UserRole.asStr]

/-- **Administrators come from administrators.** In every run from a database without sessions, whoever is an
    administrator was one in the database at the start, or was made one from outside, by the bootstrap at a moment
    without any administrator, or by POST /admin/users on a request that was let through as an administrator's. -/
theorem admins_have_authors (platform : Platform) (db : ApiDatabase) (hsessions : db.sessions.rows = [])
    (config : RateLimitConfig) (now : Timestamp) (events : List (AppEvent κ)) :
    ∀ user ∈ ((start db config now).after platform events).db.users.rows, user.role = "admin" →
      (∃ user₀ ∈ db.users.rows, user₀.id = user.id ∧ user₀.role = "admin")
        ∨ Past.Once (MakesAdminAt platform (start db config now) user.id) events := by
  induction events using List.reverseRecOn with
  | nil => exact fun user hmem hrole => Or.inl ⟨user, hmem, rfl, hrole⟩
  | append_singleton events e ih =>
      intro user hmem hrole
      have htrust := trustInv_run platform (start db config now) (fun _ => rfl) hsessions events
      have hold : ∀ old ∈ ((start db config now).after platform events).db.users.rows, old.id = user.id →
          old.role = "admin" → (∃ user₀ ∈ db.users.rows, user₀.id = user.id ∧ user₀.role = "admin")
            ∨ Past.Once (MakesAdminAt platform (start db config now) user.id) (events ++ [e]) := by
        intro old hmem hid hrole
        rcases ih old hmem hrole with hstart | honce
        · exact Or.inl (hid ▸ hstart)
        · exact Or.inr (hid ▸ honce.later e)
      rw [after_snoc] at hmem
      cases users_step platform hmem with
      | kept _ hkept => exact hold user hkept rfl hrole
      | setStatus hkept huser =>
          subst huser
          exact hold _ hkept rfl hrole
      | setRole hkept huser =>
          subst huser
          obtain rfl : _ = "admin" := hrole
          exact Or.inr (Past.Once.now (Or.inl rfl))
      | signup hcall haccepted huser =>
          subst huser
          simp [Signup.user] at hrole
      | createUser hcall huser =>
          subst huser
          have hadmin := asStr_eq_admin_iff.mp hrole
          obtain ⟨identity, rfl, hsince⟩ := htrust.admitted _ _ _ _ hcall (by simp [Endpoint.layers])
          exact Or.inr (Past.Once.now (Or.inr (Or.inr ⟨_, _, _, _, identity, rfl, rfl, hadmin, hcall,
            role_of_admitsAt hsince (by simp [Endpoint.layers]), hsince⟩)))
      | bootstrapAdmin hnone huser =>
          subst huser
          exact Or.inr (Past.Once.now (Or.inr (Or.inl ⟨_, _, rfl, rfl, hnone⟩)))

theorem admins_have_authors_bootstrap :
    Past.Once (MakesAdminAt samplePlatform (start sampleDatabase .default 0) 9)
      (sampleLogin ++ [.bootstrapAdmin (sampleBootstrap "admin@example.com" 9) .answered]) := by
  have hmem : (⟨9, "Administrator", some "admin@example.com", "active", "admin", 0⟩ : User)
      ∈ ((start sampleDatabase .default 0).after samplePlatform
        (sampleLogin ++ [.bootstrapAdmin (sampleBootstrap "admin@example.com" 9) .answered])).db.users.rows := by
    decide +kernel
  rcases admins_have_authors samplePlatform sampleDatabase rfl .default 0 _ _ hmem rfl with hstart | honce
  · exact absurd hstart (by decide)
  · exact honce

/-! ## Without an administrator -/

/-- Nobody makes an administrator from outside at this event. -/
def LeavesAdmins : AppEvent κ → Prop
  | .setRole _ role => role ≠ "admin"
  | .bootstrapAdmin _ _ => False
  | _ => True

/-- The user `id` signs up at this moment. -/
def SignsUpAt (platform : Platform) (s₀ : App κ) (id : Uuid) (before : List (AppEvent κ)) (e : AppEvent κ) : Prop :=
  ∃ call turn body request identity accepted, e = .proceed call turn ∧ turn.newId 0 = id
    ∧ (s₀.after platform before).calls call = some (.handler (.signup (some body)) request identity)
    ∧ validateSignup platform.unicode body = .ok accepted

omit [DecidableEq κ] in
/-- Without an administrator nobody has that role. -/
theorem not_admin_of_adminExists {db : Database} (h : db.adminExists = false) {user : User}
    (hmem : user ∈ db.users.rows) : user.role ≠ "admin" := by
  unfold Database.adminExists at h
  simpa using List.any_eq_false.mp h user hmem

/-- There is no administrator, and no request waits for a handler of /admin. -/
structure NoAdmin (s : App κ) : Prop where
  users : ∀ user ∈ s.db.users.rows, user.role ≠ "admin"
  calls : ∀ call endpoint request user, s.calls call = some (.handler endpoint request user) →
    .requireAdmin ∉ endpoint.layers

/-- The routes of /admin are protected. -/
theorem authenticated_of_admin {endpoint : Endpoint} (h : .requireAdmin ∈ endpoint.layers) :
    .requireAuthenticated ∈ endpoint.layers := by
  cases endpoint <;> simp_all [Endpoint.layers]

omit [DecidableEq κ] in
/-- Without an administrator the middleware of /admin lets nothing through. -/
theorem NoAdmin.not_pass {platform : Platform} {s : App κ} (h : NoAdmin s) {arrival : Arrival} {limiter : RateLimiter}
    {user : Option AuthenticatedUser} (hlayers : .requireAdmin ∈ arrival.endpoint.layers) :
    arrival.pass platform.crypto s.db.toDatabase s.now s.limiter ≠ (limiter, .ok user) := by
  intro hpass
  obtain ⟨identity, session, -, hadmission⟩ := admission_of_pass hpass (authenticated_of_admin hlayers)
  obtain ⟨user, hmem, -, -, -, hrole⟩ := hadmission.owner
  rw [hadmission.admin hlayers] at hrole
  exact h.users user hmem hrole

/-- A step makes no administrator, and lets nobody through to /admin. -/
theorem NoAdmin.step {platform : Platform} {s : App κ} (h : NoAdmin s) {e : AppEvent κ} (he : LeavesAdmins e) :
    NoAdmin (s.step platform e).1 := by
  constructor
  · intro user hmem
    cases users_step platform hmem with
    | kept _ hkept => exact h.users user hkept
    | setStatus hkept huser =>
        subst huser
        exact fun hrole => h.users _ hkept hrole
    | setRole hkept huser =>
        subst huser
        exact he
    | signup hcall haccepted huser =>
        subst huser
        simp [Signup.user]
    | createUser hcall huser => exact absurd (by simp [Endpoint.layers]) (h.calls _ _ _ _ hcall)
    | bootstrapAdmin hnone huser => exact he.elim
  · intro call endpoint request user hcall hlayers
    have hpark := step_parks platform s e call
    generalize (s.step platform e).1.calls call = pending at hpark hcall
    cases hpark with
    | same hkeeps => exact h.calls call endpoint request user hcall hlayers
    | done => cases hcall
    | received hpass =>
        cases hcall
        exact h.not_pass hlayers hpass
    | verified hhandler hverify => cases hcall
    | issued hlogin hissue => cases hcall

/-- A step without an administrator leaves the instruments alone. -/
theorem NoAdmin.instruments {platform : Platform} {s : App κ} (h : NoAdmin s) (e : AppEvent κ) :
    (s.step platform e).1.db.instruments = s.db.instruments := by
  have hmoves := step_moves platform s e
  generalize (s.step platform e).1.db = db, (s.step platform e).2 = answer at hmoves
  cases hmoves with
  | createInstruments hcall haccepted hinsert htold =>
      exact absurd (by simp [Endpoint.layers]) (h.calls _ _ _ _ hcall)
  | updateInstrumentStatus hcall hfound hid hvalid hrows htold =>
      exact absurd (by simp [Endpoint.layers]) (h.calls _ _ _ _ hcall)
  | _ => rfl

/-- **Nobody becomes an administrator by asking.** From a database without an administrator, and as long as nobody
    makes one from outside, no sequence of requests leads to one: every request to /admin is answered with an error,
    the instruments stay as they are, and the users that are added are the ones that signed up. -/
theorem no_admin_arises (platform : Platform) (db : ApiDatabase) (hnone : db.adminExists = false)
    (config : RateLimitConfig) (now : Timestamp) (events : List (AppEvent κ))
    (houtside : ∀ e ∈ events, LeavesAdmins e) :
    let s := (start db config now).after platform events
    s.db.adminExists = false ∧ s.db.instruments = db.instruments
      ∧ (∀ call arrival, .requireAdmin ∈ arrival.endpoint.layers →
          ∃ e, (s.step platform (.receive call arrival)).2 = some (.error e))
      ∧ ∀ user ∈ s.db.users.rows, (∃ user₀ ∈ db.users.rows, user₀.id = user.id)
        ∨ Past.Once (SignsUpAt platform (start db config now) user.id) events := by
  have hstart : NoAdmin (start db config now : App κ) :=
    ⟨fun user hmem => not_admin_of_adminExists hnone hmem, fun call endpoint request user h => by cases h⟩
  have hrun : NoAdmin ((start db config now).after platform events)
      ∧ ((start db config now).after platform events).db.instruments = db.instruments
      ∧ ∀ user ∈ ((start db config now).after platform events).db.users.rows,
        (∃ user₀ ∈ db.users.rows, user₀.id = user.id)
          ∨ Past.Once (SignsUpAt platform (start db config now) user.id) events := by
    induction events using List.reverseRecOn with
    | nil => exact ⟨hstart, rfl, fun user hmem => Or.inl ⟨user, hmem, rfl⟩⟩
    | append_singleton events e ih =>
        obtain ⟨hinv, hinstruments, husers⟩ := ih fun e' he' => houtside e' (List.mem_append_left _ he')
        have he : LeavesAdmins e := houtside e (by simp)
        rw [after_snoc]
        refine ⟨hinv.step he, (hinv.instruments e).trans hinstruments, ?_⟩
        intro user hmem
        have hold : ∀ old ∈ ((start db config now).after platform events).db.users.rows, old.id = user.id →
            (∃ user₀ ∈ db.users.rows, user₀.id = user.id)
              ∨ Past.Once (SignsUpAt platform (start db config now) user.id) (events ++ [e]) := by
          intro old hold hid
          rcases husers old hold with hfirst | honce
          · exact Or.inl (hid ▸ hfirst)
          · exact Or.inr (hid ▸ honce.later e)
        cases users_step platform hmem with
        | kept _ hkept => exact hold user hkept rfl
        | setStatus hkept huser =>
            subst huser
            exact hold _ hkept rfl
        | setRole hkept huser =>
            subst huser
            exact hold _ hkept rfl
        | signup hcall haccepted huser =>
            subst huser
            exact Or.inr (Past.Once.now ⟨_, _, _, _, _, _, rfl, rfl, hcall, haccepted⟩)
        | createUser hcall huser => exact absurd (by simp [Endpoint.layers]) (hinv.calls _ _ _ _ hcall)
        | bootstrapAdmin hnone huser => exact he.elim
  obtain ⟨hinv, hinstruments, husers⟩ := hrun
  refine ⟨?_, hinstruments, ?_, husers⟩
  · unfold Database.adminExists
    exact List.any_eq_false.mpr fun user hmem => by simpa using hinv.users user hmem
  · intro call arrival hlayers
    show ∃ e, (receive platform _ call arrival).2 = some (.error e)
    unfold receive
    split
    · rename_i limiter e hpass
      exact ⟨e, rfl⟩
    · rename_i limiter user hpass
      exact absurd hpass (hinv.not_pass hlayers)

theorem no_admin_arises_trader :
    ∃ e, (((start sampleDatabase .default 0).after samplePlatform sampleLogin).step samplePlatform
      (.receive () (sampleArrival (.createInstruments none)))).2 = some (.error e) :=
  (no_admin_arises samplePlatform sampleDatabase (by decide) .default 0 sampleLogin
    (by simp [sampleLogin, LeavesAdmins])).2.2.1 () _ (by decide)

end App
end LimitOrderBook
