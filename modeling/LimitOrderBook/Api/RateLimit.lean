import Mathlib.Data.Rat.Defs
import Mathlib.Algebra.Order.Ring.Rat
import Std.Data.ExtTreeMap
import LimitOrderBook.Api.Types
import LimitOrderBook.Lib.Machine

/-!
# `Api.RateLimit` — per-client request limiting (`src/api/rate_limit.rs`)

One token bucket per client address, refilled when it is read. The `f64` arithmetic of the source is exact
rational arithmetic here. An instant counts nanoseconds, so the truncated subtraction of natural numbers
is `saturating_duration_since`. The mutex makes every call of `tryAcquire` one step; the calls can enter it
in an order different from that of their instants.
-/

namespace LimitOrderBook

/-- Above this many tracked clients, idle buckets are dropped. -/
def maxTrackedClients : Nat := 10000

structure RateLimitConfig where
  /-- Requests allowed in one burst. -/
  burst : UInt32
  /-- Tokens added back per second. -/
  refillPerSecond : Rat
deriving DecidableEq, Repr

/-- Ten quick attempts, then one more every five seconds. -/
def RateLimitConfig.default : RateLimitConfig := { burst := 10, refillPerSecond := 1 / 5 }

/-- `f64::from(burst)` -/
def RateLimitConfig.burstF64 (config : RateLimitConfig) : Rat := config.burst.toNat

inductive IpAddr where
  | v4 (octets : BitVec 32)
  | v6 (segments : BitVec 128)
deriving DecidableEq, Repr

namespace IpAddr

/-- `Ipv4Addr::UNSPECIFIED`. -/
def unspecified : IpAddr := .v4 0

/-- The v4 addresses, and after them the v6 addresses, each by its bits. -/
def toNat : IpAddr → Nat
  | .v4 octets => octets.toNat
  | .v6 segments => 2 ^ 32 + segments.toNat

theorem toNat_inj {a b : IpAddr} : a.toNat = b.toNat ↔ a = b := by
  refine ⟨?_, fun h => h ▸ rfl⟩
  cases a with
  | v4 x =>
      cases b with
      | v4 y => exact fun h => congrArg v4 (BitVec.eq_of_toNat_eq h)
      | v6 y =>
          intro h
          have hx : x.toNat < 2 ^ 32 := x.isLt
          have h' : x.toNat = 2 ^ 32 + y.toNat := h
          omega
  | v6 x =>
      cases b with
      | v4 y =>
          intro h
          have hy : y.toNat < 2 ^ 32 := y.isLt
          have h' : 2 ^ 32 + x.toNat = y.toNat := h
          omega
      | v6 y =>
          intro h
          exact congrArg v6 (BitVec.eq_of_toNat_eq (Nat.add_left_cancel h))

instance : Ord IpAddr := ⟨compareOn toNat⟩

instance : Std.TransOrd IpAddr := inferInstanceAs <| Std.TransCmp (compareOn toNat)

instance : Std.LawfulEqOrd IpAddr where
  eq_of_compare := by
    intro a b h
    have hcompare : compare a.toNat b.toNat = .eq := h
    exact toNat_inj.mp (Nat.compare_eq_eq.mp hcompare)

end IpAddr

/-- Nanoseconds since the clock started. -/
abbrev Instant := Nat

/-- `Duration::as_secs_f64` -/
def asSecs (nanos : Nat) : Rat := nanos / 1000000000

/-- One client's remaining allowance. -/
structure Bucket where
  tokens : Rat
  lastRefill : Instant
deriving DecidableEq, Repr

/-- Token-bucket limiter keyed by client IP address. -/
structure RateLimiter where
  config : RateLimitConfig
  buckets : Std.ExtTreeMap IpAddr Bucket := ∅

/-- The arguments of one call. -/
structure Attempt where
  client : IpAddr
  now : Instant
deriving DecidableEq, Repr

namespace RateLimiter

def new (config : RateLimitConfig) : RateLimiter := { config := config }

def burst (l : RateLimiter) : Rat := l.config.burstF64

/-- The tokens that are back at `now`, before the cap. -/
def refilled (l : RateLimiter) (bucket : Bucket) (now : Instant) : Rat :=
  bucket.tokens + asSecs (now - bucket.lastRefill) * l.config.refillPerSecond

/-- The buckets after the `retain` pass. A bucket that has refilled completely carries no information. -/
def retained (l : RateLimiter) (now : Instant) : Std.ExtTreeMap IpAddr Bucket :=
  if l.buckets.size ≥ maxTrackedClients then
    l.buckets.filter fun _ bucket => l.refilled bucket now < l.burst
  else l.buckets

/-- Takes one token for `client`. Returns false when none are left. -/
def tryAcquire (l : RateLimiter) (client : IpAddr) (now : Instant) : RateLimiter × Bool :=
  let buckets := l.retained now
  -- `entry(client).or_insert(..)`: a client without a bucket gets a full one
  let bucket := buckets[client]?.getD ⟨l.burst, now⟩
  let tokens := min (l.refilled bucket now) l.burst
  if 1 ≤ tokens then ({ l with buckets := buckets.insert client ⟨tokens - 1, now⟩ }, true)
  else ({ l with buckets := buckets.insert client ⟨tokens, now⟩ }, false)

def exec (l : RateLimiter) (a : Attempt) : RateLimiter × Bool := l.tryAcquire a.client a.now

/-- A sequence of calls on one limiter: the limiter at the end and the answers. -/
def run (config : RateLimitConfig) (attempts : List Attempt) : RateLimiter × List Bool :=
  Machine.run exec (new config) attempts

end RateLimiter

/-- Rejects a client that has used up its allowance on the auth routes; `peer` is the connection's peer
    address, when there is one. The limiter is returned with the decision. -/
def limitAuthRequests (l : RateLimiter) (peer : Option IpAddr) (now : Instant) :
    RateLimiter × Except ApiError Unit :=
  let client := peer.getD .unspecified
  let (l, acquired) := l.tryAcquire client now
  if acquired then (l, .ok ())
  else (l, .error ⟨.tooManyRequests, "too many requests, try again later"⟩)

end LimitOrderBook
