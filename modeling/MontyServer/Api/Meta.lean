import MontyServer.Startup

/-!
# The metadata endpoints

`api/meta.rs`: the banner, the health check and the summary of the configuration. The members of an
object stand in the order of their keys, as in the map `json!` builds.
-/

namespace MontyServer

/-- `env!("CARGO_PKG_VERSION")`. -/
def CARGO_PKG_VERSION : String := "0.1.0"

/-- `Duration::as_millis`. -/
def Duration.asMillis (d : Duration) : Nat := d / 1000000

/-- A `u64` or `usize` as `json!` writes it. A cast to `u64` wraps. -/
def Value.ofNat (n : Nat) : Value := .number (.posInt (.ofNat n))

/-- `GET /`. -/
def root : Value := .object [
  ("description", .string "HTTP API for the monty sandboxed Python interpreter"),
  ("endpoints", .object [
    ("compile", .string "POST /v1/compile"),
    ("create_session", .string "POST /v1/sessions"),
    ("health", .string "GET /health"),
    ("info", .string "GET /v1/info"),
    ("run", .string "POST /v1/run"),
    ("session_delete", .string "DELETE /v1/sessions/{id}"),
    ("session_resume", .string "POST /v1/sessions/{id}/resume"),
    ("session_status", .string "GET /v1/sessions/{id}")]),
  ("service", .string "monty-server"),
  ("version", .string CARGO_PKG_VERSION)]

/-- `GET /health`. -/
def health : Value := .object [("status", .string "ok")]

/-- `Auth::describe`, and the `auth_mode` of `info`. -/
def Auth.describe : Auth → String
  | .Disabled => "disabled"
  | .Tokens _ => "token"

/-- The default of a limit and its ceiling. -/
def limitRange (default max : Nat) : Value :=
  .object [("default", .ofNat default), ("max", .ofNat max)]

/-- `GET /v1/info`. -/
def info (config : ResolvedConfig) (app : AppState) (startedAt : Instant) : Value := .object [
  ("auth", .string config.auth.describe),
  ("limits", .object [
    ("allocations", limitRange config.limits.defaultMaxAllocations.toNat
      config.limits.maxAllocations.toNat),
    ("duration_ms", limitRange (Duration.asMillis config.limits.defaultDuration)
      (Duration.asMillis config.limits.maxDuration)),
    ("memory_bytes", limitRange config.limits.defaultMemoryBytes.toNat
      config.limits.maxMemoryBytes.toNat),
    ("recursion_depth", limitRange config.limits.defaultRecursionDepth.toNat
      config.limits.maxRecursionDepth.toNat)]),
  ("max_body_bytes", .ofNat config.maxBodyBytes.toNat),
  ("max_concurrency", .ofNat config.maxConcurrency),
  ("sessions", .object [
    ("default_ttl_seconds", .ofNat (Duration.asSecs config.sessions.defaultTtl)),
    ("live", .ofNat app.sessions.sessions.length),
    ("max", .ofNat config.sessions.maxSessions),
    ("max_ttl_seconds", .ofNat (Duration.asSecs config.sessions.maxTtl))]),
  ("uptime_seconds", .ofNat (Duration.asSecs (app.now - startedAt))),
  ("version", .string CARGO_PKG_VERSION)]

/-! ## What a client reads of it -/

/-- The member of an object. -/
def Value.get (key : String) : Value → Option Value
  | .object map => (map.find? fun member => member.1 = key).map Prod.snd
  | _ => none

/-- What a path of keys leads to. -/
def Value.follow : List String → Value → Option Value
  | [], v => some v
  | key :: path, v => (v.get key).bind (follow path)

/-- The number a client reads there. -/
def Value.numberAt (v : Value) (path : List String) : Option UInt64 :=
  (v.follow path).bind Value.asU64

/-- The default of a limit and its ceiling, as they have been read. -/
structure Range where
  default : UInt64
  max : UInt64

/-- What a client that asks for `requested` will get. -/
def Range.clamp (range : Range) (requested : Option UInt64) : UInt64 :=
  min (requested.getD range.default) range.max

/-- What `info` says of the limits. -/
structure Advertised where
  durationMs : Range
  memoryBytes : Range
  allocations : Range
  recursionDepth : Range
  ttlSeconds : Range

def Advertised.read (v : Value) : Option Advertised := do
  let range (name : String) : Option Range := do
    return ⟨← v.numberAt ["limits", name, "default"], ← v.numberAt ["limits", name, "max"]⟩
  return {
    durationMs := ← range "duration_ms"
    memoryBytes := ← range "memory_bytes"
    allocations := ← range "allocations"
    recursionDepth := ← range "recursion_depth"
    ttlSeconds := ⟨← v.numberAt ["sessions", "default_ttl_seconds"],
      ← v.numberAt ["sessions", "max_ttl_seconds"]⟩ }

/-- The limits a client works out for what it requests. -/
def Advertised.limits (advertised : Advertised) (request : Option LimitsRequest) :
    ResolvedLimits :=
  let request := clonedOrDefault request
  { maxDuration := .fromMillis (advertised.durationMs.clamp request.maxDurationMs)
    maxMemoryBytes := advertised.memoryBytes.clamp request.maxMemoryBytes
    maxAllocations := advertised.allocations.clamp request.maxAllocations
    maxRecursionDepth := advertised.recursionDepth.clamp request.maxRecursionDepth
    gcInterval := none }

/-- The time-to-live a client works out. -/
def Advertised.ttl (advertised : Advertised) (requested : Option UInt64) : Duration :=
  .fromSecs (advertised.ttlSeconds.clamp requested)

/-- What stands in an `info`. -/
def ResolvedConfig.advertised (config : ResolvedConfig) : Advertised where
  durationMs := ⟨.ofNat (Duration.asMillis config.limits.defaultDuration),
    .ofNat (Duration.asMillis config.limits.maxDuration)⟩
  memoryBytes := ⟨config.limits.defaultMemoryBytes, config.limits.maxMemoryBytes⟩
  allocations := ⟨config.limits.defaultMaxAllocations, config.limits.maxAllocations⟩
  recursionDepth := ⟨config.limits.defaultRecursionDepth, config.limits.maxRecursionDepth⟩
  ttlSeconds := ⟨.ofNat (Duration.asSecs config.sessions.defaultTtl),
    .ofNat (Duration.asSecs config.sessions.maxTtl)⟩

/-- **A client reads in an `info`** what has been written there, whatever the state. -/
theorem Advertised.read_info (config : ResolvedConfig) (app : AppState) (startedAt : Instant) :
    read (info config app startedAt) = some config.advertised := by
  simp [read, info, Value.numberAt, Value.follow, Value.get, Value.asU64,
    Number.asU64, limitRange, Value.ofNat, ResolvedConfig.advertised]

end MontyServer
