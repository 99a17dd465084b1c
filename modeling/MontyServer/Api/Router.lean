import MontyServer.Auth
import MontyServer.RateLimit
import MontyServer.Server
import MontyServer.Startup

/-!
# The router

`build_router` of `api/mod.rs`, and the second middleware of `auth.rs`. A request for a route of
`/v1` goes through `authenticate` and then `rate_limit` before it gets to the route's handler; a
path that matches no route, `/` and `/health` go through neither, and read no state either. So the
whole service is the machine of `MontyServer.Server` with the middleware in front: a call arrives
there only as a request that both layers have let through.

What the extractors of a handler make of the rest of a request (its path parameter and its body) is
left to axum and serde: a request carries the call it comes to, or none if they reject it.
-/

namespace MontyServer

/-! ## Responses to errors -/

/-- An HTTP response, with the headers the server sets itself. -/
structure Response where
  status : Nat
  headers : List (String × String)
  body : Value

/-- `impl IntoResponse for ApiError`. -/
def ApiError.intoResponse (err : ApiError) : Response where
  status := err.status
  -- `Retry-After` lets well-behaved clients back off without guessing
  headers := match err with
    | .RateLimited retryAfter => [("retry-after", toString retryAfter)]
    | _ => []
  body := .object [("error", .object [("code", .string err.code),
    ("message", .string err.message)])]

/-! ## The middleware -/

/-- Middleware: charge the caller's rate-limit bucket. The caller is the request's extension; its
absence is a wiring bug. -/
def rateLimit (rateLimiter : RateLimiter) (caller : Option Caller) (created now : Instant) :
    RateLimiter × ApiResult Caller :=
  match caller with
  | none => (rateLimiter, .error .Internal)
  | some caller =>
    match rateLimiter.check caller.id caller.rate created now with
    | (rateLimiter, .ok ()) => (rateLimiter, .ok caller)
    | (rateLimiter, .error retryAfter) => (rateLimiter, .error (.RateLimited retryAfter.toNat))

/-- Both layers of `/v1`. The one added later is the outer one. -/
def layers (config : ResolvedConfig) (rateLimiter : RateLimiter) (http : HttpRequest)
    (created now : Instant) : RateLimiter × ApiResult Caller :=
  match authenticate config.auth config.defaultRate http with
  | .error err => (rateLimiter, .error err)
  | .ok caller => rateLimit rateLimiter (some caller) created now

/-! ## The service -/

/-- A request for a route of `/v1`: what the middleware reads of it, and the call it comes to.
`GET /v1/info` comes to none, and neither does a request that an extractor rejects. -/
structure Incoming where
  http : HttpRequest
  call : Option Call

/-- The server behind its middleware: the rate limiter is the rest of `AppState`. -/
structure Service where
  server : Server
  rateLimiter : RateLimiter

namespace Service

def new (config : ResolvedConfig) : Service where
  server := .new config.toConfig
  rateLimiter := .new

def now (s : Service) : Instant := s.server.app.now

/-- One atomic step of the service. -/
inductive Event
  /-- A request goes through the middleware; `created` is the clock read for a bucket that is not
  there yet. -/
  | request (incoming : Incoming) (created : Instant)
  /-- The reaper's `prune_idle`; `read` is the clock read before it goes through the map. -/
  | prune (read : Instant)
  /-- Any step behind the middleware. -/
  | inside (a : Action)

/-- What the middleware answers a request: the caller it lets through, or an error. -/
def letIn (config : ResolvedConfig) (s : Service) (incoming : Incoming) (created : Instant) :
    ApiResult Caller :=
  (layers config s.rateLimiter incoming.http created s.now).2

/-- The service once the limiter has been asked. -/
def charged (config : ResolvedConfig) (s : Service) (incoming : Incoming) (created : Instant) :
    Service :=
  { s with rateLimiter := (layers config s.rateLimiter incoming.http created s.now).1 }

variable [Crates]

def step (config : ResolvedConfig) (s : Service) : Event → Option Service
  | .request incoming created =>
    if created ≤ s.now then
      let after := s.charged config incoming created
      match s.letIn config incoming created, incoming.call with
      | .ok caller, some call => do
        let server ← after.server.step (.arrive caller.id call)
        some { after with server }
      | _, _ => some after
    else none
  | .prune read =>
    if read ≤ s.now then some { s with rateLimiter := s.rateLimiter.pruneIdle read } else none
  -- requests arrive through the middleware only
  | .inside (.arrive _ _) => none
  | .inside a => do
    let server ← s.server.step a
    some { s with server }

/-- Every state of the service. -/
def Reachable (config : ResolvedConfig) (s : Service) : Prop :=
  Run.Reachable (step config) (.new config) s

end Service

end MontyServer
