import MontyServer.Cells
import MontyServer.Config
import MontyServer.Permits
import MontyServer.Lib.Net

/-!
# Starting the server

`Config::from_env` takes any integer that its type holds. Two of them are used unguarded by what
runs afterwards: the semaphore panics on too many permits and gives out none if there are none, and
the time-to-live is added to the clock. `RateRule::new` puts a bound on the rate it is given, and
nothing does on these. So a configuration that is accepted serves requests exactly if they happen
to be in range (`serves_iff`). With no variable set they are (`serves_unset`).
-/

namespace MontyServer

open Rounds

/-! ## `Config::from_env` -/

/-- What the process finds: its environment variables, and the number of CPUs. -/
structure Environment where
  var : String → Option String
  availableParallelism : Option { n : Usize // n ≠ 0 }

/-- Fully resolved server configuration. -/
structure ResolvedConfig extends Config where
  bind : Net.SocketAddr
  auth : Auth
  defaultRate : RateRule
  maxBodyBytes : Usize
  requestTimeout : Duration
  corsOrigins : List String

/-- Reads an environment variable, treating empty values as unset. -/
def Environment.str (env : Environment) (var : String) : Option String := envStr (env.var var)

/-- Reads and parses an integer environment variable. -/
def envInt {T : Type} (parse : String → Except Text.ParseIntError T) (env : Environment)
    (var : String) : Except ConfigError (Option T) :=
  match env.str var with
  | some value => ((parse value).map some).mapError (.Int var)
  | none => .ok none

/-- Default execution concurrency: one in-flight execution per CPU. -/
def defaultConcurrency (env : Environment) : Usize :=
  (env.availableParallelism.map Subtype.val).getD 4

theorem one_le_defaultConcurrency (env : Environment) : 1 ≤ (defaultConcurrency env).toNat := by
  unfold defaultConcurrency
  cases env.availableParallelism with
  | none => decide
  | some n =>
    show 1 ≤ n.val.toNat
    rw [Nat.one_le_iff_ne_zero]
    intro hzero
    exact n.property (UInt64.toNat_inj.mp hzero)

/-- The `limits` of `from_env`. -/
def LimitBounds.fromEnv (env : Environment) (maxDuration : Duration) :
    Except ConfigError LimitBounds := do
  let int := envInt Text.readU64 env
  return {
    defaultDuration := .fromMillis ((← int "MONTY_DEFAULT_TIMEOUT_MS").getD 5000)
    maxDuration
    defaultMemoryBytes := (← int "MONTY_DEFAULT_MEMORY_BYTES").getD ((64 : Usize) <<< 20)
    maxMemoryBytes := (← int "MONTY_MAX_MEMORY_BYTES").getD ((256 : Usize) <<< 20)
    defaultMaxAllocations := (← int "MONTY_DEFAULT_MAX_ALLOCATIONS").getD 5000000
    maxAllocations := (← int "MONTY_MAX_ALLOCATIONS").getD 50000000
    defaultRecursionDepth := (← int "MONTY_DEFAULT_RECURSION_DEPTH").getD 1000
    maxRecursionDepth := (← int "MONTY_MAX_RECURSION_DEPTH").getD 4000 }

/-- The `sessions` of `from_env`. -/
def SessionConfig.fromEnv (env : Environment) : Except ConfigError SessionConfig := do
  let int := envInt Text.readU64 env
  return {
    defaultTtl := .fromSecs ((← int "MONTY_SESSION_TTL_SECONDS").getD 300)
    maxTtl := .fromSecs ((← int "MONTY_SESSION_MAX_TTL_SECONDS").getD 3600)
    maxSessions := ((← int "MONTY_MAX_SESSIONS").getD 1000).toNat }

/-- Loads configuration from the process environment. -/
def ResolvedConfig.fromEnv (env : Environment) : Except ConfigError ResolvedConfig := do
  let some host := Net.IpAddr.fromStr ((env.str "MONTY_HOST").getD "0.0.0.0")
    | .error (.Addr "MONTY_HOST")
  let port := (← envInt Text.parseU16 env "PORT").getD 8080
  let defaultRate := RateRule.new ((← envInt Text.parseU32 env "MONTY_RATE_LIMIT_RPM").getD 120)
  let auth ← loadAuth (env.var "MONTY_API_TOKENS") defaultRate
  let maxDuration :=
    Duration.fromMillis ((← envInt Text.readU64 env "MONTY_MAX_TIMEOUT_MS").getD 30000)
  let maxConcurrency :=
    (← envInt Text.readU64 env "MONTY_MAX_CONCURRENCY").getD (defaultConcurrency env)
  let maxBodyBytes := (← envInt Text.readU64 env "MONTY_MAX_BODY_BYTES").getD ((1 : Usize) <<< 20)
  let limits ← LimitBounds.fromEnv env maxDuration
  let sessions ← SessionConfig.fromEnv env
  return {
    limits, sessions, maxConcurrency := maxConcurrency.toNat
    bind := ⟨host, port⟩
    auth, defaultRate, maxBodyBytes
    requestTimeout := maxDuration + .fromSecs 5
    corsOrigins :=
      ((env.str "MONTY_CORS_ORIGINS").map fun s => (Text.split ',' s).map Text.trim).getD [] }

/-! ### What it makes of a variable -/

namespace Environment

/-- The number a `u64` or `usize` variable is set to. -/
def u64 (env : Environment) (var : String) : Option UInt64 := (env.str var).bind Text.parseU64

/-- The permits the server is configured with. -/
def permits (env : Environment) : Usize :=
  (env.u64 "MONTY_MAX_CONCURRENCY").getD (defaultConcurrency env)

/-- The longest time-to-live a client may get. -/
def maxTtl (env : Environment) : Duration :=
  .fromSecs ((env.u64 "MONTY_SESSION_MAX_TTL_SECONDS").getD 3600)

end Environment

section EnvInt

variable {T : Type} {parse : String → Except Text.ParseIntError T} {env : Environment}
  {var text : String}

theorem envInt_of_unset (h : env.str var = none) : envInt parse env var = .ok none := by
  rw [envInt, h]

theorem envInt_of_set (h : env.str var = some text) :
    envInt parse env var = ((parse text).map some).mapError (.Int var) := by
  rw [envInt, h]

/-- **What an integer variable gives once it is accepted.** -/
theorem envInt_ok {value : Option T} (h : envInt parse env var = .ok value) :
    value = (env.str var).bind fun text => (parse text).toOption := by
  cases hstr : env.str var with
  | none =>
    rw [envInt_of_unset hstr] at h
    cases h
    rfl
  | some text =>
    rw [envInt_of_set hstr] at h
    show value = (parse text).toOption
    cases hparse : parse text with
    | error source =>
      rw [hparse] at h
      cases h
    | ok n =>
      rw [hparse] at h
      cases h
      rfl

end EnvInt

theorem envInt_u64_ok {env : Environment} {var : String} {value : Option UInt64}
    (h : envInt Text.readU64 env var = .ok value) : value = env.u64 var := by
  simpa only [Environment.u64, Text.readU64_toOption] using envInt_ok h

theorem SessionConfig.fromEnv_ok {env : Environment} {sessions : SessionConfig}
    (h : SessionConfig.fromEnv env = .ok sessions) : sessions.maxTtl = env.maxTtl := by
  obtain ⟨defaultTtl, -, h⟩ := bind_eq_ok.mp h
  obtain ⟨maxTtl, hmax, h⟩ := bind_eq_ok.mp h
  obtain ⟨maxSessions, -, h⟩ := bind_eq_ok.mp h
  cases h
  rw [envInt_u64_ok hmax]
  rfl

/-- **What the accepted environment says of the permits and of the time-to-live.** -/
theorem ResolvedConfig.fromEnv_ok {env : Environment} {config : ResolvedConfig}
    (h : ResolvedConfig.fromEnv env = .ok config) :
    config.maxConcurrency = env.permits.toNat ∧ config.sessions.maxTtl = env.maxTtl := by
  unfold fromEnv at h
  split at h
  · obtain ⟨port, -, h⟩ := bind_eq_ok.mp h
    obtain ⟨rpm, -, h⟩ := bind_eq_ok.mp h
    obtain ⟨auth, -, h⟩ := bind_eq_ok.mp h
    obtain ⟨timeout, -, h⟩ := bind_eq_ok.mp h
    obtain ⟨concurrency, hconcurrency, h⟩ := bind_eq_ok.mp h
    obtain ⟨bytes, -, h⟩ := bind_eq_ok.mp h
    obtain ⟨limits, -, h⟩ := bind_eq_ok.mp h
    obtain ⟨sessions, hsessions, h⟩ := bind_eq_ok.mp h
    cases h
    refine ⟨?_, SessionConfig.fromEnv_ok hsessions⟩
    rw [envInt_u64_ok hconcurrency]
    rfl
  · cases h

/-! ### What it fails with -/

/-- The variable an error is about. -/
def ConfigError.var : ConfigError → String
  | .Int var _ => var
  | .Addr what => what
  | .Token _ => "MONTY_API_TOKENS"

/-- The error is about a variable that is set. -/
def ConfigError.Blames (e : ConfigError) (env : Environment) : Prop := (env.str e.var).isSome

section Errors

variable {env : Environment}

theorem envInt_error {T : Type} (parse : String → Except Text.ParseIntError T) (var : String) :
    FailsWith (·.Blames env) (envInt parse env var) := by
  intro e h
  cases hstr : env.str var with
  | none =>
    rw [envInt_of_unset hstr] at h
    cases h
  | some text =>
    rw [envInt_of_set hstr] at h
    cases hparse : parse text with
    | ok n =>
      rw [hparse] at h
      cases h
    | error source =>
      rw [hparse] at h
      cases h
      exact Option.isSome_of_eq_some hstr

theorem tokenEntry_error (rate : RateRule) (entry : String) :
    FailsWith (·.var = "MONTY_API_TOKENS") (tokenEntry rate entry) := by
  intro e h
  unfold tokenEntry at h
  split at h
  · cases h
  · cases h
  · split at h <;> cases h
    rfl
  · cases h
    rfl

theorem insertEntries_error (rate : RateRule) (tokens : TokenMap) (entries : List String) :
    FailsWith (·.var = "MONTY_API_TOKENS") (insertEntries rate tokens entries) := by
  induction entries generalizing tokens with
  | nil => exact .ok tokens
  | cons entry entries ih => exact (tokenEntry_error rate entry).bind fun parsed => ih _

theorem loadAuth_error (rate : RateRule) :
    FailsWith (·.Blames env) (loadAuth (env.var "MONTY_API_TOKENS") rate) := by
  unfold loadAuth
  split
  · exact .ok _
  · next raw hraw =>
    apply FailsWith.bind
    · intro e h
      rw [ConfigError.Blames, insertEntries_error rate [] _ e h]
      exact Option.isSome_of_eq_some hraw
    · intro tokens
      split
      · exact .ok _
      · exact .ok _

theorem LimitBounds.fromEnv_error (maxDuration : Duration) :
    FailsWith (·.Blames env) (LimitBounds.fromEnv env maxDuration) := by
  unfold LimitBounds.fromEnv
  have int : ∀ var, FailsWith (·.Blames env) (envInt Text.readU64 env var) := envInt_error _
  exact (int _).bind fun _ => (int _).bind fun _ => (int _).bind fun _ => (int _).bind fun _ =>
    (int _).bind fun _ => (int _).bind fun _ => (int _).bind fun _ => .ok _

theorem SessionConfig.fromEnv_error : FailsWith (·.Blames env) (SessionConfig.fromEnv env) := by
  unfold SessionConfig.fromEnv
  have int : ∀ var, FailsWith (·.Blames env) (envInt Text.readU64 env var) := envInt_error _
  exact (int _).bind fun _ => (int _).bind fun _ => (int _).bind fun _ => .ok _

/-- **An environment is only rejected for a variable that is set.** -/
theorem ResolvedConfig.fromEnv_error : FailsWith (·.Blames env) (ResolvedConfig.fromEnv env) := by
  unfold ResolvedConfig.fromEnv
  split
  · have int : ∀ var, FailsWith (·.Blames env) (envInt Text.readU64 env var) := envInt_error _
    exact (envInt_error _ _).bind fun _ => (envInt_error _ _).bind fun _ =>
      (loadAuth_error _).bind fun _ => (int _).bind fun _ => (int _).bind fun _ =>
      (int _).bind fun _ => (LimitBounds.fromEnv_error _).bind fun _ =>
      SessionConfig.fromEnv_error.bind fun _ => .ok _
  · next hhost =>
    intro e h
    cases h
    show (env.str "MONTY_HOST").isSome
    cases hstr : env.str "MONTY_HOST" with
    | some host => rfl
    | none =>
      -- the default is an address
      rw [hstr] at hhost
      exact (hhost _ rfl).elim

end Errors

/-! ## `AppState::new` -/

/-- `Semaphore::MAX_PERMITS`. -/
def MAX_PERMITS : Nat := (UInt64.size - 1) >>> 3

/-- `Semaphore::new`, which panics on more than `MAX_PERMITS` permits. -/
def semaphoreNew (permits : Nat) : Option Nat :=
  if permits ≤ MAX_PERMITS then some permits else none

/-- `AppState::new`, where it can panic. -/
def AppState.new? (config : Config) : Option AppState := do
  let concurrency ← semaphoreNew config.maxConcurrency
  return { AppState.new config with concurrency }

theorem AppState.new?_isSome_iff (config : Config) :
    (AppState.new? config).isSome ↔ config.maxConcurrency ≤ MAX_PERMITS := by
  unfold AppState.new? semaphoreNew
  split <;> simp [*]

/-! ## Requests for a permit -/

/-- The request waits for a permit. -/
def Handler.Queued : Handler → Prop
  | .create _ (.executing _ _ (.queued _)) | .resume _ _ (.executing _ (.queued _)) => True
  | .run _ (.executing (.queued _)) | .compile _ (.executing (.queued _)) => True
  | _ => False

section Permits

variable [Crates]

/-- **A request that waits gets a permit exactly if there is one.** -/
theorem Handler.acquire_iff {handler : Handler} (h : handler.Queued) (app : AppState)
    (i : RequestId) (caller : String) :
    (handler.step app i caller .acquire).isSome ↔ 0 < app.concurrency := by
  unfold Queued at h
  split at h
  · by_cases hfree : 0 < app.concurrency <;> simp [step, Create.step, Spawn.move, hfree]
  · by_cases hfree : 0 < app.concurrency <;> simp [step, Resume.step, Spawn.move, hfree]
  · by_cases hfree : 0 < app.concurrency <;>
      simp [step, RunCode.step, Stateless.step, Spawn.move, hfree]
  · by_cases hfree : 0 < app.concurrency <;>
      simp [step, CompileCode.step, Stateless.step, Spawn.move, hfree]
  · exact h.elim

namespace Server

theorem acquire_iff {s : Server} {i : RequestId} {r : Request} (hr : s.requests[i]? = some r)
    (h : r.handler.Queued) : (s.step (.move i .acquire)).isSome ↔ 0 < s.app.concurrency := by
  rw [← Handler.acquire_iff h s.app i r.caller, step, hr, Option.bind_eq_bind, Option.bind_some]
  cases r.handler.step s.app i r.caller .acquire <;> rfl

/-- While nothing runs, a request that waits for a permit can have it. -/
def Admits (s : Server) : Prop :=
  s.held = 0 → ∀ i r, s.requests[i]? = some r → r.handler.Queued →
    (s.step (.move i .acquire)).isSome

/-- **No request is blocked with nothing running exactly if there is a permit at all.** -/
theorem admits_iff (config : Config) :
    (∀ s, Reachable config s → s.Admits) ↔ 0 < config.maxConcurrency := by
  constructor
  · intro hadmits
    -- a server that has nothing to do but to compile
    let request : CompileRequest := { code := "" }
    let waiting : Request := ⟨"", .compile request (.executing (.queued request))⟩
    have hreachable : Reachable config ⟨.new config, [waiting], []⟩ :=
      ⟨[.arrive "" (.compile request), .move 0 .advance], rfl⟩
    have hacquire := hadmits _ hreachable rfl 0 waiting rfl trivial
    exact (acquire_iff (r := waiting) rfl trivial).mp hacquire
  · intro hpermit s hs hheld i r hr hqueued
    have hall : s.app.concurrency + s.held = config.maxConcurrency := hs.conserved
    apply (acquire_iff hr hqueued).mpr
    omega

end Server

end Permits

/-! ## Times to live -/

theorem resolveTtl_le (requested : Option UInt64) (config : SessionConfig) :
    resolveTtl requested config ≤ config.maxTtl := Nat.min_le_right ..

/-- A client that asks for the longest time-to-live gets it. -/
theorem resolveTtl_max {config : SessionConfig} {secs : UInt64}
    (h : config.maxTtl = .fromSecs secs) : resolveTtl (some secs) config = config.maxTtl := by
  rw [h]
  simp [resolveTtl, h]

/-- The time-to-live a create has resolved. -/
def Create.ttl : Create → Option Duration
  | .executing ttl _ _ | .checked ttl _ _ => some ttl
  | _ => none

section Ttl

variable [Crates]

/-- **Step lemma**: a create resolves its time-to-live once. -/
theorem Create.ttl_step {app app' : AppState} {i : RequestId} {caller : String}
    {request : CreateSessionRequest} {m : Move} {phase phase' : Create} {ttl : Duration}
    (h : phase.step app i caller request m = some (app', phase')) (httl : phase'.ttl = some ttl) :
    phase.ttl = some ttl ∨ ttl = resolveTtl request.ttlSeconds app.config.sessions := by
  unfold step at h
  split at h
  · unfold advance at h
    split at h
    · cases h
      split at httl <;> cases httl
      exact .inr rfl
    · cases h; cases httl
    · cases h; cases httl
    · cases h
      split at httl
      · exact .inl httl
      · cases httl
    · cases h
      split at httl <;> cases httl
    · obtain ⟨e, -, h⟩ := Option.bind_eq_some_iff.mp h
      cases h
      cases httl
    · cases h
  · unfold insert at h
    split at h
    · split at h <;> cases h
      cases httl
    · cases h
  · cases h; cases httl
  · obtain ⟨⟨free, spawn'⟩, -, h⟩ := Option.bind_eq_some_iff.mp h
    cases h
    exact .inl httl
  · obtain ⟨⟨free, spawn'⟩, -, h⟩ := Option.bind_eq_some_iff.mp h
    cases h
    exact .inl httl
  · cases h

namespace Server

variable {s s' : Server} {a : Action} {config : Config}

/-- The configuration is fixed. -/
theorem Trans.config_eq (h : s.Trans a s') : s'.app.config = s.app.config := by
  cases h with
  | create _ h => cases h <;> rfl
  | resume _ h =>
    cases h with
    | @ran input e p since entered lag awaited result w _ _ =>
      show (AppState.apply ..).config = _
      unfold AppState.apply
      split <;> rfl
    | _ => rfl
  | delete _ h => cases h <;> rfl
  | _ => rfl

/-- A new entry has the time-to-live of the create that has inserted it. -/
theorem Trans.ttl_new (h : s.Trans a s') {id : Uuid} {e' : SessionEntry}
    (he' : s'.app.sessions.entries id = some e') (hnone : s.app.sessions.entries id = none) :
    ∃ (i : RequestId) (caller : String) (request : CreateSessionRequest) (phase : Create),
      s.requests[i]? = some ⟨caller, .create request phase⟩ ∧ phase.ttl = some e'.ttl := by
  cases h with
  | @create i m caller request phase phase' app hr h =>
    cases h with
    | @insert ttl tracker step j _ =>
      by_cases hid : id = j
      · subst hid
        have heq : SessionEntry.new caller ttl tracker step s.app.now = e' := by simpa using he'
        subst heq
        exact ⟨i, caller, request, _, hr, rfl⟩
      · have he : s.app.sessions.entries id = some e' := by simpa [hid] using he'
        cases hnone.symm.trans he
    | _ => cases hnone.symm.trans he'
  | @resume i m caller j body phase phase' app hr h =>
    by_cases hid : id = j
    · subst hid
      cases h with
      | take he _ _ => cases hnone.symm.trans he
      | ran he _ => cases hnone.symm.trans he
      | store he => cases hnone.symm.trans he
      | restore he => cases hnone.symm.trans he
      | _ => cases hnone.symm.trans he'
    · cases hnone.symm.trans ((h.other hid).1.symm.trans he')
  | delete _ h => cases h <;> cases hnone.symm.trans he'
  | _ => cases hnone.symm.trans he'

/-- Every time-to-live in the server is one that `resolve_ttl` has returned. -/
structure Resolved (config : Config) (s : Server) : Prop where
  fixed : s.app.config = config
  creating : ∀ (i : RequestId) (caller : String) (request : CreateSessionRequest)
    (phase : Create) (ttl : Duration), s.requests[i]? = some ⟨caller, .create request phase⟩ →
    phase.ttl = some ttl → ttl = resolveTtl request.ttlSeconds config.sessions
  stored : ∀ id e, s.app.sessions.entries id = some e →
    ∃ requested, e.ttl = resolveTtl requested config.sessions

omit [Crates] in
theorem Resolved.new (config : Config) : (Server.new config).Resolved config where
  fixed := rfl
  creating i caller request phase ttl hr := by simp [Server.new] at hr
  stored id e he := by cases he

theorem Resolved.step (resolved : s.Resolved config) (h : s.step a = some s') :
    s'.Resolved config where
  fixed := (step_cases h).config_eq.trans resolved.fixed
  creating i caller request phase ttl hr' httl := by
    rcases create_before h hr' with hr | rfl | ⟨m, before, -, hr, hstep⟩
    · exact resolved.creating i caller request phase ttl hr httl
    · cases httl
    · rcases Create.ttl_step hstep httl with hbefore | hresolved
      · exact resolved.creating i caller request before ttl hr hbefore
      · rw [hresolved, resolved.fixed]
  stored id e' he' := by
    have htrans := step_cases h
    cases he : s.app.sessions.entries id with
    | none =>
      obtain ⟨i, caller, request, phase, hr, httl⟩ := htrans.ttl_new he' he
      exact ⟨_, resolved.creating i caller request phase _ hr httl⟩
    | some e =>
      obtain ⟨e₂, he₂, -, httl⟩ := htrans.grows.entry id e he
      cases he'.symm.trans he₂
      rw [httl]
      exact resolved.stored id e he

/-- **Run lemma**: every session has a time-to-live that a client can ask for. -/
theorem Reachable.resolved (h : Reachable config s) : s.Resolved config :=
  Run.Reachable.invariant (fun _ _ _ hs hstep => hs.step hstep) (Resolved.new config) h

end Server

end Ttl

/-! ## Serving requests -/

/-- `Instant + Duration`, which panics past the `latest` instant there is. -/
def Instant.checkedAdd (latest now : Instant) (d : Duration) : Option Instant :=
  if now + d ≤ latest then some (now + d) else none

theorem Instant.checkedAdd_isSome_iff {latest now : Instant} {d : Duration} :
    (Instant.checkedAdd latest now d).isSome ↔ now + d ≤ latest := by
  unfold Instant.checkedAdd
  split <;> simp [*]

section Serving

variable [Crates]

/-- The configured server can serve requests, as long as it is not up longer than `uptime`. -/
structure ResolvedConfig.Serves (config : ResolvedConfig) (latest uptime : Instant) : Prop where
  /-- `AppState::new` does not panic. -/
  starts : (AppState.new? config.toConfig).isSome
  /-- No request is blocked with nothing running. -/
  admits : ∀ s, Server.Reachable config.toConfig s → s.Admits
  /-- `SessionStore::create` can compute an expiry, whatever the client requests. -/
  creates : ∀ requested now, now ≤ uptime →
    (Instant.checkedAdd latest now (resolveTtl requested config.sessions)).isSome
  /-- And so can `SessionEntry::store_step`, of every session there is. -/
  stores : ∀ s, Server.Reachable config.toConfig s → s.app.now ≤ uptime →
    ∀ id e, s.app.sessions.entries id = some e →
      (Instant.checkedAdd latest s.app.now e.ttl).isSome

/-- A configuration whose times-to-live are in whole seconds serves exactly within these bounds. -/
theorem ResolvedConfig.serves_iff_bounds {config : ResolvedConfig} {secs : UInt64}
    (hsecs : config.sessions.maxTtl = .fromSecs secs) (latest uptime : Instant) :
    config.Serves latest uptime ↔
      1 ≤ config.maxConcurrency ∧ config.maxConcurrency ≤ MAX_PERMITS ∧
        uptime + config.sessions.maxTtl ≤ latest := by
  constructor
  · intro serves
    refine ⟨(Server.admits_iff _).mp serves.admits, (AppState.new?_isSome_iff _).mp serves.starts,
      ?_⟩
    have hlongest := serves.creates (some secs) uptime (Nat.le_refl uptime)
    rw [resolveTtl_max hsecs] at hlongest
    exact Instant.checkedAdd_isSome_iff.mp hlongest
  · rintro ⟨hleast, hmost, hlatest⟩
    have hcreates : ∀ requested now, now ≤ uptime →
        (Instant.checkedAdd latest now (resolveTtl requested config.sessions)).isSome := by
      intro requested now hnow
      have hle := resolveTtl_le requested config.sessions
      apply Instant.checkedAdd_isSome_iff.mpr
      exact Nat.le_trans (Nat.add_le_add hnow hle) hlatest
    refine ⟨(AppState.new?_isSome_iff _).mpr hmost, (Server.admits_iff _).mpr hleast, hcreates, ?_⟩
    intro s hs hnow id e he
    obtain ⟨requested, httl⟩ := hs.resolved.stored id e he
    rw [httl]
    exact hcreates requested s.app.now hnow

/-- **An accepted configuration serves requests exactly if its permits are at least one and not
more than the semaphore takes, and its longest time-to-live can be added to the clock.** -/
theorem serves_iff (env : Environment) (config : ResolvedConfig) (latest uptime : Instant)
    (h : ResolvedConfig.fromEnv env = .ok config) :
    config.Serves latest uptime ↔
      1 ≤ env.permits.toNat ∧ env.permits.toNat ≤ MAX_PERMITS ∧
        uptime + env.maxTtl ≤ latest := by
  obtain ⟨hpermits, hmax⟩ := ResolvedConfig.fromEnv_ok h
  rw [← hpermits, ← hmax]
  exact ResolvedConfig.serves_iff_bounds hmax latest uptime

/-- **Every knob has a safe default**: with no variable set, the server starts and serves on any
machine, if only its CPUs are no more than the semaphore takes and its clock has an hour left. -/
theorem serves_unset (env : Environment) (hunset : ∀ var, env.str var = none)
    (hcpus : (defaultConcurrency env).toNat ≤ MAX_PERMITS) {latest uptime : Instant}
    (hlatest : uptime + Duration.fromSecs 3600 ≤ latest) :
    ∃ config, ResolvedConfig.fromEnv env = .ok config ∧ config.Serves latest uptime := by
  have haccepted : ∃ config, ResolvedConfig.fromEnv env = .ok config := by
    cases h : ResolvedConfig.fromEnv env with
    | ok config => exact ⟨config, rfl⟩
    | error e =>
      have hset : (env.str e.var).isSome := ResolvedConfig.fromEnv_error e h
      rw [hunset] at hset
      cases hset
  have hu64 : ∀ var, env.u64 var = none := by
    intro var
    rw [Environment.u64, hunset, Option.bind_none]
  obtain ⟨config, hconfig⟩ := haccepted
  obtain ⟨hpermits, hmax⟩ := ResolvedConfig.fromEnv_ok hconfig
  rw [Environment.permits, hu64, Option.getD_none] at hpermits
  rw [Environment.maxTtl, hu64, Option.getD_none] at hmax
  refine ⟨config, hconfig, (ResolvedConfig.serves_iff_bounds hmax latest uptime).mpr ?_⟩
  rw [hpermits, hmax]
  exact ⟨one_le_defaultConcurrency env, hcpus, hlatest⟩

end Serving

/-! ## Sample environments -/

namespace Sample

/-- The variables that are set, on a machine that cannot tell how many CPUs it has. -/
def environment (vars : List (String × String)) : Environment where
  var name := vars.lookup name
  availableParallelism := none

/-- The last instant of a clock with 64-bit signed seconds. -/
def latest : Instant := 9223372036854775808 * 1000000000 - 1

end Sample

/-- Nothing is set. -/
theorem serves_iff_for_defaults :
    ∃ (_ : Crates) (config : ResolvedConfig),
      ResolvedConfig.fromEnv (Sample.environment []) = .ok config ∧
      config.maxConcurrency = 4 ∧ config.Serves Sample.latest 1000000000000000000 := by
  obtain ⟨config, hconfig⟩ :
    ∃ config, ResolvedConfig.fromEnv (Sample.environment []) = .ok config := ⟨_, rfl⟩
  let _ := Sample.crates
  have hiff := serves_iff (Sample.environment []) config Sample.latest 1000000000000000000 hconfig
  refine ⟨Sample.crates, config, hconfig, ?_, hiff.mpr ⟨by decide, by decide, by decide⟩⟩
  exact (ResolvedConfig.fromEnv_ok hconfig).1

/-- **Environments that are accepted and do not serve**: no permits, on which the first request
waits forever; more than the semaphore takes; and a time-to-live that a client can ask for and no
clock can add. -/
theorem accepted_without_serving :
    ∃ (_ : Crates) (blocked crashed overflowing : ResolvedConfig),
      ResolvedConfig.fromEnv (Sample.environment [("MONTY_MAX_CONCURRENCY", "0")]) =
        .ok blocked ∧
      (∃ s, Server.Reachable blocked.toConfig s ∧ ¬ s.Admits) ∧
      ResolvedConfig.fromEnv
        (Sample.environment [("MONTY_MAX_CONCURRENCY", "18446744073709551615")]) = .ok crashed ∧
      AppState.new? crashed.toConfig = none ∧
      ResolvedConfig.fromEnv
        (Sample.environment [("MONTY_SESSION_MAX_TTL_SECONDS", "18446744073709551615")]) =
        .ok overflowing ∧
      Instant.checkedAdd Sample.latest 0
        (resolveTtl (some 18446744073709551615) overflowing.sessions) = none ∧
      ¬ blocked.Serves Sample.latest 0 ∧ ¬ crashed.Serves Sample.latest 0 ∧
      ¬ overflowing.Serves Sample.latest 0 := by
  obtain ⟨blocked, hblocked⟩ : ∃ config, ResolvedConfig.fromEnv
    (Sample.environment [("MONTY_MAX_CONCURRENCY", "0")]) = .ok config := ⟨_, rfl⟩
  obtain ⟨crashed, hcrashed⟩ : ∃ config, ResolvedConfig.fromEnv
    (Sample.environment [("MONTY_MAX_CONCURRENCY", "18446744073709551615")]) = .ok config :=
    ⟨_, rfl⟩
  obtain ⟨overflowing, hoverflowing⟩ : ∃ config, ResolvedConfig.fromEnv
    (Sample.environment [("MONTY_SESSION_MAX_TTL_SECONDS", "18446744073709551615")]) =
      .ok config := ⟨_, rfl⟩
  let _ := Sample.crates
  have hwaits : ¬ ∀ s, Server.Reachable blocked.toConfig s → s.Admits := by
    intro hadmits
    have hpermit := (Server.admits_iff _).mp hadmits
    rw [(ResolvedConfig.fromEnv_ok hblocked).1] at hpermit
    exact absurd hpermit (by decide)
  have hpanics : AppState.new? crashed.toConfig = none := by
    rw [← Option.not_isSome_iff_eq_none, AppState.new?_isSome_iff,
      (ResolvedConfig.fromEnv_ok hcrashed).1]
    decide
  have hlate : Instant.checkedAdd Sample.latest 0
      (resolveTtl (some 18446744073709551615) overflowing.sessions) = none := by
    have hmax : overflowing.sessions.maxTtl = .fromSecs 18446744073709551615 :=
      (ResolvedConfig.fromEnv_ok hoverflowing).2
    rw [resolveTtl_max hmax, hmax]
    decide
  refine ⟨Sample.crates, blocked, crashed, overflowing, hblocked, ?_, hcrashed, hpanics,
    hoverflowing, hlate, fun h => hwaits h.admits, ?_, ?_⟩
  · simpa only [not_forall, exists_prop] using hwaits
  · intro h
    have hstarts := h.starts
    rw [hpanics] at hstarts
    cases hstarts
  · intro h
    have hcreates := h.creates (some 18446744073709551615) 0 (Nat.le_refl 0)
    rw [hlate] at hcreates
    cases hcreates

end MontyServer
