import LimitOrderBook.Api.Accounts
import LimitOrderBook.Api.AdminUsers
import LimitOrderBook.Api.Auth.Login
import LimitOrderBook.Api.RateLimit
import LimitOrderBook.Api.ReadInstruments

/-!
# `Api.Router` — routes and the middleware in front of them (`src/api/{mod,auth/mod,admin/mod}.rs`)

A route is an `Endpoint`, with what its extractors make of the path and the body; `none` is what they refuse.
`Endpoint.layers` is the middleware of the route, in the order in which a request passes it.
-/

namespace LimitOrderBook

inductive Endpoint where
  | health
  | signup (body : Option SignupRequest)
  | login (body : Option LoginRequest)
  | logout
  | currentUser
  | createAccount (body : Option CreateAccountRequest)
  | listAccounts
  | listInstruments
  | getInstrument (instrumentId : Option Uuid)
  | createUser (body : Option CreateUserRequest)
  | createInstruments (body : Option (List CreateInstrumentRequest))
  | updateInstrumentStatus (instrumentId : Option Uuid) (body : Option UpdateInstrumentStatusRequest)
deriving DecidableEq, Repr

inductive Layer where
  | limitAuthRequests
  | requireAuthenticated
  | requireAdmin
deriving DecidableEq, Repr

/-- The `route_layer`s of the router: the last-added layer runs first. -/
def Endpoint.layers : Endpoint → List Layer
  | .health => []
  | .signup _ => [.limitAuthRequests]
  | .login _ => [.limitAuthRequests]
  | .logout => []
  | .currentUser => [.requireAuthenticated]
  | .createAccount _ => [.requireAuthenticated]
  | .listAccounts => [.requireAuthenticated]
  | .listInstruments => [.requireAuthenticated]
  | .getInstrument _ => [.requireAuthenticated]
  | .createUser _ => [.requireAuthenticated, .requireAdmin]
  | .createInstruments _ => [.requireAuthenticated, .requireAdmin]
  | .updateInstrumentStatus _ _ => [.requireAuthenticated, .requireAdmin]

/-- A request as it reaches the router: its header, the peer address and the instant that the limiter sees, and
    what becomes of the query of `require_authenticated`. -/
structure Arrival where
  endpoint : Endpoint
  request : Request
  peer : Option IpAddr
  instant : Instant
  delivery : Delivery
deriving DecidableEq, Repr

section Layers

variable (crypto : Crypto) (db : Database) (now : Timestamp)

/-- `require_authenticated`, with a query that may fail. -/
def Arrival.authenticate (arrival : Arrival) : Except ApiError AuthenticatedUser :=
  match bearerToken arrival.request with
  | .error e => .error e
  | .ok _ => do
      let answer ← arrival.delivery.query failedToValidateSession
        (requireAuthenticated crypto db now arrival.request)
      answer

/-- What a layer hands on: the limiter, and the identity in the extensions of the request. -/
def Layer.pass (arrival : Arrival) (limiter : RateLimiter) (user : Option AuthenticatedUser) :
    Layer → RateLimiter × Except ApiError (Option AuthenticatedUser)
  | .limitAuthRequests =>
      let (limiter, decision) := LimitOrderBook.limitAuthRequests limiter arrival.peer arrival.instant
      (limiter, decision.map fun _ => user)
  | .requireAuthenticated => (limiter, (arrival.authenticate crypto db now).map some)
  | .requireAdmin => (limiter, (LimitOrderBook.requireAdmin user).map fun _ => user)

/-- The layers in turn; the first that answers ends it. -/
def passLayers (arrival : Arrival) (limiter : RateLimiter) (user : Option AuthenticatedUser) :
    List Layer → RateLimiter × Except ApiError (Option AuthenticatedUser)
  | [] => (limiter, .ok user)
  | layer :: layers =>
      match layer.pass crypto db now arrival limiter user with
      | (limiter, .error e) => (limiter, .error e)
      | (limiter, .ok user) => passLayers arrival limiter user layers

/-- The middleware of the route: the request has no identity before it. -/
def Arrival.pass (arrival : Arrival) (limiter : RateLimiter) :
    RateLimiter × Except ApiError (Option AuthenticatedUser) :=
  passLayers crypto db now arrival limiter none arrival.endpoint.layers

end Layers
end LimitOrderBook
