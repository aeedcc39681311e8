/-!
# `Api.Types` — what the API handlers share (`src/api/error.rs`, ids and times)

A handler that fails returns a status and a fixed message; the message is the whole body of the response.
-/

namespace LimitOrderBook

/-- The HTTP statuses that the handlers answer with. -/
inductive StatusCode where
  | ok
  | created
  | noContent
  | badRequest
  | unauthorized
  | forbidden
  | notFound
  | conflict
  | tooManyRequests
  | internalServerError
deriving DecidableEq, Repr

structure ApiError where
  status : StatusCode
  message : String
deriving DecidableEq, Repr

abbrev Uuid := BitVec 128

/-- `TIMESTAMPTZ`: microseconds since the epoch. -/
abbrev Timestamp := Nat

end LimitOrderBook
