import MontyServer.Monty

/-!
# Protocol-level errors

`error.rs`: problems with the *request*, each with a stable code, an HTTP status and a message.
-/

namespace MontyServer

/-- An error returned to the client as a structured JSON body with an HTTP status. -/
inductive ApiError
  | BadRequest (message : String)
  | Unauthorized
  | RateLimited (retryAfter : Nat)
  | SessionNotFound
  | SessionBusy
  | Unavailable (message : String)
  | Internal
  deriving DecidableEq, Repr

namespace ApiError

/-- Stable machine-readable error code. -/
def code : ApiError → String
  | .BadRequest _ => "bad_request"
  | .Unauthorized => "unauthorized"
  | .RateLimited _ => "rate_limited"
  | .SessionNotFound => "session_not_found"
  | .SessionBusy => "session_busy"
  | .Unavailable _ => "unavailable"
  | .Internal => "internal"

def status : ApiError → Nat
  | .BadRequest _ => 400
  | .Unauthorized => 401
  | .RateLimited _ => 429
  | .SessionNotFound => 404
  | .SessionBusy => 409
  | .Unavailable _ => 503
  | .Internal => 500

/-- `ApiError::to_string`. -/
def message : ApiError → String
  | .BadRequest message => message
  | .Unauthorized => "missing or invalid API token"
  | .RateLimited _ => "rate limit exceeded"
  | .SessionNotFound => "session not found"
  | .SessionBusy => "session is busy with another resume request"
  | .Unavailable message => message
  | .Internal => "internal server error"

end ApiError

/-- `ApiResult<T>`. -/
abbrev ApiResult (α : Type) := Except ApiError α

end MontyServer
