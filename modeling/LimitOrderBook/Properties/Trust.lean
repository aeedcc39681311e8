import LimitOrderBook.Lib.Past
import LimitOrderBook.Properties.App

/-!
# `Properties.Trust` — what a protected handler may rely on

What a protected handler may rely on. The middleware checks a request once, and its handler runs later, when the
session may be revoked and the user suspended. What holds at the handler is a fact about the past: the request was let
through with a session that was open then, and that session goes back to a password.

* **The middleware.** An arrival that passes the layers of a protected route has been authenticated, as an
  administrator on the routes of /admin (`Arrival.pass_authenticated`). `admission_of_pass` says what is so in the
  database then.
* **The past.** `VerifiesAt`, `IssuesAt`, `StoresAt` and `AdmitsAt` say that something happens at one moment of a run,
  each with what must have happened before, in the terms of `Lib.Past`.
* **The invariant.** `TrustInv` gives every login that is under way, every open session and every protected request
  its past. `sessions_step` is the part about sessions, `TrustInv.step` the step, and `chain_of_trust` reads it for a
  request that waits before its handler.
-/

namespace LimitOrderBook

/-! ## The middleware -/

section Layers

variable {crypto : Crypto} {db : Database} {now : Timestamp} {arrival : Arrival} {limiter limiter' : RateLimiter}
  {user : Option AuthenticatedUser}

/-- Authenticating an arrival is the check of its request. -/
theorem Arrival.authenticate_ok {identity : AuthenticatedUser}
    (h : arrival.authenticate crypto db now = .ok identity) :
    requireAuthenticated crypto db now arrival.request = .ok identity := by
  unfold Arrival.authenticate at h
  split at h
  · cases h
  · obtain ⟨answer, hanswer, h⟩ := Machine.bind_eq_ok.mp h
    rw [Delivery.query_eq_ok hanswer]
    exact h

/-- A request that passes the layers passes the first, and then the others. -/
theorem passLayers_cons_ok {layer : Layer} {layers : List Layer} {user₀ : Option AuthenticatedUser}
    (h : passLayers crypto db now arrival limiter user₀ (layer :: layers) = (limiter', .ok user)) :
    ∃ limiter₁ user₁, layer.pass crypto db now arrival limiter user₀ = (limiter₁, .ok user₁)
      ∧ passLayers crypto db now arrival limiter₁ user₁ layers = (limiter', .ok user) := by
  unfold passLayers at h
  split at h
  · cases h
  · rename_i limiter₁ user₁ hpass
    exact ⟨limiter₁, user₁, hpass, h⟩

/-- Behind the layer the handler has the identity that was checked. -/
theorem authenticate_pass_ok {user₀ : Option AuthenticatedUser}
    (h : Layer.pass crypto db now arrival limiter user₀ .requireAuthenticated = (limiter', .ok user)) :
    ∃ identity, user = some identity ∧ requireAuthenticated crypto db now arrival.request = .ok identity := by
  unfold Layer.pass at h
  cases hidentity : arrival.authenticate crypto db now with
  | error e => simp [hidentity, Except.map] at h
  | ok identity =>
      rw [hidentity] at h
      exact ⟨identity, (Except.ok.inj (congrArg Prod.snd h)).symm, Arrival.authenticate_ok hidentity⟩

/-- An administrator passes, with the same identity. -/
theorem admin_pass_ok {identity : AuthenticatedUser}
    (h : Layer.pass crypto db now arrival limiter (some identity) .requireAdmin = (limiter', .ok user)) :
    user = some identity ∧ identity.role = .admin := by
  unfold Layer.pass requireAdmin at h
  dsimp only at h
  split at h
  · cases h
  · rename_i hrole
    exact ⟨(Except.ok.inj (congrArg Prod.snd h)).symm, by simpa using hrole⟩

/-- Layers that begin with the check of the session hand on the identity of the session. -/
theorem passLayers_authenticated {layers : List Layer}
    (hlayers : layers = [.requireAuthenticated] ∨ layers = [.requireAuthenticated, .requireAdmin])
    (h : passLayers crypto db now arrival limiter none layers = (limiter', .ok user)) :
    ∃ identity, user = some identity ∧ requireAuthenticated crypto db now arrival.request = .ok identity
      ∧ (.requireAdmin ∈ layers → identity.role = .admin) := by
  rcases hlayers with rfl | rfl
  · obtain ⟨limiter₁, user₁, hpass, hrest⟩ := passLayers_cons_ok h
    obtain ⟨identity, rfl, hidentity⟩ := authenticate_pass_ok hpass
    cases hrest
    exact ⟨identity, rfl, hidentity, by simp⟩
  · obtain ⟨limiter₁, user₁, hpass, hrest⟩ := passLayers_cons_ok h
    obtain ⟨identity, rfl, hidentity⟩ := authenticate_pass_ok hpass
    obtain ⟨limiter₂, user₂, hadmin, hrest⟩ := passLayers_cons_ok hrest
    obtain ⟨rfl, hrole⟩ := admin_pass_ok hadmin
    cases hrest
    exact ⟨identity, rfl, hidentity, fun _ => hrole⟩

/-- **What the middleware lets through** to a protected handler has the identity of its session. -/
theorem Arrival.pass_authenticated (hlayers : .requireAuthenticated ∈ arrival.endpoint.layers)
    (h : arrival.pass crypto db now limiter = (limiter', .ok user)) :
    ∃ identity, user = some identity ∧ requireAuthenticated crypto db now arrival.request = .ok identity
      ∧ (.requireAdmin ∈ arrival.endpoint.layers → identity.role = .admin) := by
  refine passLayers_authenticated ?_ h
  cases hendpoint : arrival.endpoint <;> simp_all [Endpoint.layers]

/-- The other routes hand on no identity. -/
theorem Arrival.pass_public (hlayers : .requireAuthenticated ∉ arrival.endpoint.layers)
    (h : arrival.pass crypto db now limiter = (limiter', .ok user)) : user = none := by
  have hpublic : arrival.endpoint.layers = [] ∨ arrival.endpoint.layers = [.limitAuthRequests] := by
    cases hendpoint : arrival.endpoint <;> simp_all [Endpoint.layers]
  unfold Arrival.pass at h
  rcases hpublic with heq | heq
  · rw [heq] at h
    cases h
    rfl
  · rw [heq] at h
    obtain ⟨limiter₁, user₁, hpass, hrest⟩ := passLayers_cons_ok h
    cases hrest
    have hdecision : (limitAuthRequests limiter arrival.peer arrival.instant).2.map (fun _ => none) = .ok user :=
      congrArg Prod.snd hpass
    cases hlimit : (limitAuthRequests limiter arrival.peer arrival.instant).2 with
    | error e => simp [hlimit, Except.map] at hdecision
    | ok _ =>
        rw [hlimit] at hdecision
        exact (Except.ok.inj hdecision).symm

end Layers

/-! ## Where a session comes from -/

namespace App

variable {κ : Type} [DecidableEq κ] (platform : Platform) (s₀ : App κ)

/-- The credentials of `row` are verified at this moment, for a login of the call. -/
def VerifiesAt (call : κ) (row : LoginUserRow) (before : List (AppEvent κ)) (e : AppEvent κ) : Prop :=
  ∃ turn body request user, e = .proceed call turn
    ∧ (s₀.after platform before).calls call = some (.handler (.login (some body)) request user)
    ∧ verifyLogin platform.unicode platform.crypto (s₀.after platform before).db.toDatabase body = .ok row

/-- The token is drawn at this moment, for a login of the call that was verified before. -/
def IssuesAt (call : κ) (issued : IssuedToken) (before : List (AppEvent κ)) (e : AppEvent κ) : Prop :=
  ∃ turn, e = .proceed call turn
    ∧ issueToken platform.crypto (s₀.after platform before).now turn.random (turn.newId 0) issued.user = .ok issued
    ∧ Past.Once (VerifiesAt platform s₀ call issued.user) before

/-- The session is stored at this moment, with a token that was drawn before. -/
def StoresAt (session : Session) (before : List (AppEvent κ)) (e : AppEvent κ) : Prop :=
  ∃ call turn issued, e = .proceed call turn ∧ session = issued.session (s₀.after platform before).now
    ∧ Past.Once (IssuesAt platform s₀ call issued) before

/-- What is so when a request is let through to a protected endpoint as `identity`. -/
structure Admission (s : App κ) (endpoint : Endpoint) (request : Request) (identity : AuthenticatedUser)
    (session : Session) : Prop where
  stored : session ∈ s.db.sessions.rows
  bearer : ∃ token, bearerToken request = .ok token ∧ session.tokenHash = hashToken platform.crypto token
  unrevoked : session.revokedAt = none
  unexpired : s.now < session.expiresAt
  owner : ∃ user ∈ s.db.users.rows, user.id = session.userId ∧ user.id = identity.userId
    ∧ user.status = UserStatus.active.asStr ∧ user.role = identity.role.asStr
  admin : .requireAdmin ∈ endpoint.layers → identity.role = .admin

/-- The request of the call is let through at this moment, with a session that was stored before. -/
def AdmitsAt (call : κ) (endpoint : Endpoint) (request : Request) (identity : AuthenticatedUser)
    (before : List (AppEvent κ)) (e : AppEvent κ) : Prop :=
  ∃ arrival session, e = .receive call arrival ∧ arrival.endpoint = endpoint ∧ arrival.request = request
    ∧ Admission platform (s₀.after platform before) endpoint request identity session
    ∧ Past.Once (StoresAt platform s₀ session) before

/-- Every login that is under way, every session and every protected request has its past. -/
structure TrustInv (events : List (AppEvent κ)) (s : App κ) : Prop where
  verified : ∀ call row, s.calls call = some (.login (.verified row)) →
    Past.Once (VerifiesAt platform s₀ call row) events
  issued : ∀ call issued, s.calls call = some (.login (.issued issued)) →
    Past.Once (IssuesAt platform s₀ call issued) events
  stored : ∀ session ∈ s.db.sessions.rows, session.revokedAt = none → Past.Once (StoresAt platform s₀ session) events
  admitted : ∀ call endpoint request user, s.calls call = some (.handler endpoint request user) →
    .requireAuthenticated ∈ endpoint.layers → ∃ identity, user = some identity
      ∧ Past.Since (AdmitsAt platform s₀ call endpoint request identity) (KeepsCall call) events

variable {platform s₀} {events : List (AppEvent κ)}

omit [DecidableEq κ] in
/-- The middleware lets a request through with an open session. -/
theorem admission_of_pass {s : App κ} {arrival : Arrival} {limiter : RateLimiter} {user : Option AuthenticatedUser}
    (hpass : arrival.pass platform.crypto s.db.toDatabase s.now s.limiter = (limiter, .ok user))
    (hlayers : .requireAuthenticated ∈ arrival.endpoint.layers) :
    ∃ identity session, user = some identity
      ∧ Admission platform s arrival.endpoint arrival.request identity session := by
  obtain ⟨identity, rfl, hidentity, hadmin⟩ := Arrival.pass_authenticated hlayers hpass
  obtain ⟨token, expiresAt, htoken, ⟨session, hmem, hhash, hrevoked, hid, rfl⟩, hexpires, user, huser, huserid,
    hstatus, hrole⟩ := requireAuthenticated_eq_ok_iff.mp hidentity
  refine ⟨identity, session, rfl, ?_⟩
  exact {
    stored := hmem
    bearer := ⟨token, htoken, hhash⟩
    unrevoked := hrevoked
    unexpired := hexpires
    owner := ⟨user, huser, huserid.trans hid.symm, huserid, hstatus, hrole⟩
    admin := hadmin }

/-- A session was there before a step, if perhaps open, or a login stored it at this moment. -/
theorem sessions_step {s : App κ} {e : AppEvent κ} {session : Session}
    (hmem : session ∈ (s.step platform e).1.db.sessions.rows) :
    (∃ old ∈ s.db.sessions.rows, old.userId = session.userId ∧ (session.revokedAt = none → session = old))
      ∨ ∃ call turn issued, e = .proceed call turn ∧ s.calls call = some (.login (.issued issued))
        ∧ session = issued.session s.now := by
  have hmoves := step_moves platform s e
  generalize (s.step platform e).1.db = db, (s.step platform e).2 = answer at hmoves hmem
  cases hmoves with
  | login hcall hrows huser htold =>
      rename_i call turn issued sessions answer
      have hmem' : session ∈ sessions.rows := hmem
      rw [hrows] at hmem'
      rcases List.mem_append.mp hmem' with hold | hnew
      · exact Or.inl ⟨session, hold, rfl, fun _ => rfl⟩
      · exact Or.inr ⟨call, turn, issued, rfl, hcall, List.mem_singleton.mp hnew⟩
  | logout hcall htoken hrows htold =>
      rename_i call turn request user token sessions answer
      have hmem' : session ∈ sessions.rows := hmem
      rw [hrows] at hmem'
      obtain ⟨old, hold, rfl⟩ := List.mem_map.mp hmem'
      refine Or.inl ⟨old, hold, ?_, ?_⟩
      · unfold revoke
        split <;> rfl
      · -- a session that the logout has not closed is one that it has not touched
        intro hopen
        exact revoke_of_ne s.now fun heq => revokedAt_revoke _ heq hopen
  | signup hcall haccepted hhash hinsert htold =>
      obtain ⟨users, userCredentials, -, -, rfl⟩ := Database.insertUser_ok hinsert
      exact Or.inl ⟨session, hmem, rfl, fun _ => rfl⟩
  | bootstrapAdmin hadmin hnone hinsert =>
      obtain ⟨users, userCredentials, -, -, rfl⟩ := Database.insertUser_ok hinsert
      exact Or.inl ⟨session, hmem, rfl, fun _ => rfl⟩
  | _ => exact Or.inl ⟨session, hmem, rfl, fun _ => rfl⟩

omit [DecidableEq κ] in
/-- A token is for the user that was verified. -/
theorem of_issueToken_user {crypto : Crypto} {now : Timestamp} {random : Option (Vector UInt8 32)} {sessionId : Uuid}
    {user : LoginUserRow} {issued : IssuedToken} (h : issueToken crypto now random sessionId user = .ok issued) :
    issued.user = user := by
  obtain ⟨token, -, h⟩ := Machine.bind_eq_ok.mp h
  cases h
  rfl

/-- **Every step** keeps the past of what is there, and gives one to what is new. -/
theorem TrustInv.step (h : TrustInv platform s₀ events (s₀.after platform events)) (e : AppEvent κ) :
    TrustInv platform s₀ (events ++ [e]) (s₀.after platform (events ++ [e])) := by
  rw [after_snoc]
  generalize hs : s₀.after platform events = s at h ⊢
  have hnow : ∀ {P : List (AppEvent κ) → AppEvent κ → Prop}, Past.Once P events → Past.Once P (events ++ [e]) :=
    fun h => h.later e
  constructor
  · intro call row hcall
    have hpark := step_parks platform s e call
    generalize (s.step platform e).1.calls call = pending at hpark hcall
    cases hpark with
    | same hkeeps => exact hnow (h.verified call row hcall)
    | done => cases hcall
    | received hpass => cases hcall
    | verified hhandler hverify =>
        cases hcall
        exact Past.Once.now ⟨_, _, _, _, rfl, hs ▸ hhandler, hs ▸ hverify⟩
    | issued hlogin hissue => cases hcall
  · intro call issued hcall
    have hpark := step_parks platform s e call
    generalize (s.step platform e).1.calls call = pending at hpark hcall
    cases hpark with
    | same hkeeps => exact hnow (h.issued call issued hcall)
    | done => cases hcall
    | received hpass => cases hcall
    | verified hhandler hverify => cases hcall
    | issued hlogin hissue =>
        cases hcall
        obtain rfl := of_issueToken_user hissue
        exact Past.Once.now ⟨_, rfl, hs ▸ hissue, h.verified call _ hlogin⟩
  · intro session hmem hopen
    rcases sessions_step hmem with ⟨old, hold, -, hsame⟩ | ⟨call, turn, issued, rfl, hlogin, rfl⟩
    · obtain rfl := hsame hopen
      exact hnow (h.stored session hold hopen)
    · exact Past.Once.now ⟨call, turn, issued, rfl, by rw [hs], h.issued call issued hlogin⟩
  · intro call endpoint request user hcall hlayers
    have hpark := step_parks platform s e call
    generalize (s.step platform e).1.calls call = pending at hpark hcall
    cases hpark with
    | same hkeeps =>
        obtain ⟨identity, rfl, hsince⟩ := h.admitted call endpoint request user hcall hlayers
        exact ⟨identity, rfl, hsince.later hkeeps⟩
    | done => cases hcall
    | received hpass =>
        cases hcall
        obtain ⟨identity, session, rfl, hadmission⟩ := admission_of_pass hpass hlayers
        exact ⟨identity, rfl, Past.Since.now ⟨_, session, rfl, rfl, rfl, hs ▸ hadmission,
          h.stored session hadmission.stored hadmission.unrevoked⟩ _⟩
    | verified hhandler hverify => cases hcall
    | issued hlogin hissue => cases hcall

/-- At first there is nothing that needs a past. -/
theorem trustInv_start (platform : Platform) (s₀ : App κ) (hcalls : ∀ call, s₀.calls call = none)
    (hsessions : s₀.db.sessions.rows = []) : TrustInv platform s₀ [] s₀ := by
  constructor
  · intro call row h
    rw [hcalls] at h
    cases h
  · intro call issued h
    rw [hcalls] at h
    cases h
  · intro session h
    rw [hsessions] at h
    cases h
  · intro call endpoint request user h
    rw [hcalls] at h
    cases h

theorem trustInv_run (platform : Platform) (s₀ : App κ) (hcalls : ∀ call, s₀.calls call = none)
    (hsessions : s₀.db.sessions.rows = []) (events : List (AppEvent κ)) :
    TrustInv platform s₀ events (s₀.after platform events) := by
  induction events using List.reverseRecOn with
  | nil => exact trustInv_start platform s₀ hcalls hsessions
  | append_singleton events e ih => exact ih.step e

/-- **The chain of trust.** In every run from a database without sessions, a request that waits before the handler
    of a protected route was let through by the middleware since its arrival, as an active user with the identity
    that the handler gets, an administrator if the route is one of /admin. It was let through with a session that
    was open then; a login had stored that session before, under the hash of a token that was drawn before that, for
    a user whose password had been verified before that. -/
theorem chain_of_trust (platform : Platform) (db : ApiDatabase) (hsessions : db.sessions.rows = [])
    (config : RateLimitConfig) (now : Timestamp) (events : List (AppEvent κ)) {call : κ} {endpoint : Endpoint}
    {request : Request} {user : Option AuthenticatedUser}
    (hcall : ((start db config now).after platform events).calls call = some (.handler endpoint request user))
    (hlayers : .requireAuthenticated ∈ endpoint.layers) :
    ∃ identity, user = some identity
      ∧ Past.Since (AdmitsAt platform (start db config now) call endpoint request identity) (KeepsCall call) events :=
  (trustInv_run platform (start db config now) (fun _ => rfl) hsessions events).admitted call endpoint request user
    hcall hlayers

/-! ### A trader who logs in and asks who they are -/

def samplePlatform : Platform where
  unicode := ⟨Char.isWhitespace, String.toLower⟩
  crypto := sampleCrypto
  collation := {
    le := fun s s' => decide (s ≤ s')
    total := by
      intro s s'
      simpa using String.le_total s s'
    trans := by
      intro s s' s'' h h'
      simpa using String.le_trans (by simpa using h) (by simpa using h') }

def sampleDatabase : ApiDatabase where
  users := sampleUsers
  userCredentials := sampleCredentials
  sessions := .empty
  accounts := .empty
  instruments := .empty

/-- A turn that goes well. -/
def sampleTurn (id : Uuid) : Turn where
  delivery := .answered
  random := some (Vector.replicate 32 0)
  passwordHash := some samplePasswordHash
  newId := fun i => id + BitVec.ofNat 128 i
  connection := ⟨true, fun _ => true, true⟩

def sampleArrival (endpoint : Endpoint) : Arrival := ⟨endpoint, sampleRequest, none, 0, .answered⟩

/-- The login of the trader of the sample. -/
def sampleLogin : List (AppEvent Unit) :=
  [.receive () (sampleArrival (.login (some ⟨" Trader@Example.com ", "password"⟩))), .proceed () (sampleTurn 7),
    .proceed () (sampleTurn 7), .proceed () (sampleTurn 7)]

theorem chain_of_trust_me :
    ∃ identity, some (⟨1, .trader⟩ : AuthenticatedUser) = some identity
      ∧ Past.Since (AdmitsAt samplePlatform (start sampleDatabase .default 0) () .currentUser sampleRequest identity)
        (KeepsCall ()) (sampleLogin ++ [.receive () (sampleArrival .currentUser)]) :=
  chain_of_trust samplePlatform sampleDatabase rfl .default 0
    (sampleLogin ++ [.receive () (sampleArrival .currentUser)]) (by decide +kernel) (by decide)

end App
end LimitOrderBook
