import MontyServer.Alone
import MontyServer.Api.Meta

/-!
# What `info` is good for

`GET /v1/info` is there for clients to discover the ceilings they will be clamped to. It writes
durations in whole units and casts them, so a configuration made by hand could say one thing there
and do another. One that comes from the environment does not: what a client works out from the
response is what every execution runs under and how long every session lives
(`info_foretells`).
-/

namespace MontyServer

open Rounds

/-! ## Durations that can be written -/

/-- The durations are in the units `info` writes them in. -/
structure ResolvedConfig.Whole (config : ResolvedConfig) : Prop where
  defaultDuration : ∃ millis, config.limits.defaultDuration = .fromMillis millis
  maxDuration : ∃ millis, config.limits.maxDuration = .fromMillis millis
  defaultTtl : ∃ secs, config.sessions.defaultTtl = .fromSecs secs
  maxTtl : ∃ secs, config.sessions.maxTtl = .fromSecs secs

theorem LimitBounds.fromEnv_durations {env : Environment} {maxDuration : Duration}
    {limits : LimitBounds} (h : LimitBounds.fromEnv env maxDuration = .ok limits) :
    limits.maxDuration = maxDuration ∧
      ∃ millis, limits.defaultDuration = .fromMillis millis := by
  unfold fromEnv at h
  obtain ⟨defaultDuration, -, h⟩ := bind_eq_ok.mp h
  obtain ⟨defaultMemory, -, h⟩ := bind_eq_ok.mp h
  obtain ⟨maxMemory, -, h⟩ := bind_eq_ok.mp h
  obtain ⟨defaultAllocations, -, h⟩ := bind_eq_ok.mp h
  obtain ⟨maxAllocations, -, h⟩ := bind_eq_ok.mp h
  obtain ⟨defaultDepth, -, h⟩ := bind_eq_ok.mp h
  obtain ⟨maxDepth, -, h⟩ := bind_eq_ok.mp h
  cases h
  exact ⟨rfl, _, rfl⟩

theorem SessionConfig.fromEnv_durations {env : Environment} {sessions : SessionConfig}
    (h : SessionConfig.fromEnv env = .ok sessions) :
    (∃ secs, sessions.defaultTtl = .fromSecs secs) ∧
      ∃ secs, sessions.maxTtl = .fromSecs secs := by
  obtain ⟨defaultTtl, -, h⟩ := bind_eq_ok.mp h
  obtain ⟨maxTtl, -, h⟩ := bind_eq_ok.mp h
  obtain ⟨maxSessions, -, h⟩ := bind_eq_ok.mp h
  cases h
  exact ⟨⟨_, rfl⟩, _, rfl⟩

theorem ResolvedConfig.fromEnv_whole {env : Environment} {config : ResolvedConfig}
    (h : ResolvedConfig.fromEnv env = .ok config) : config.Whole := by
  unfold fromEnv at h
  split at h
  · obtain ⟨port, -, h⟩ := bind_eq_ok.mp h
    obtain ⟨rpm, -, h⟩ := bind_eq_ok.mp h
    obtain ⟨auth, -, h⟩ := bind_eq_ok.mp h
    obtain ⟨timeout, -, h⟩ := bind_eq_ok.mp h
    obtain ⟨concurrency, -, h⟩ := bind_eq_ok.mp h
    obtain ⟨bytes, -, h⟩ := bind_eq_ok.mp h
    obtain ⟨limits, hlimits, h⟩ := bind_eq_ok.mp h
    obtain ⟨sessions, hsessions, h⟩ := bind_eq_ok.mp h
    cases h
    obtain ⟨hmax, hdefault⟩ := LimitBounds.fromEnv_durations hlimits
    obtain ⟨hdefaultTtl, hmaxTtl⟩ := SessionConfig.fromEnv_durations hsessions
    exact ⟨hdefault, ⟨_, hmax⟩, hdefaultTtl, hmaxTtl⟩
  · cases h

theorem Duration.asMillis_fromMillis (millis : UInt64) :
    UInt64.ofNat (asMillis (fromMillis millis)) = millis := by
  unfold asMillis fromMillis
  rw [Nat.mul_div_cancel _ (by decide), UInt64.ofNat_toNat]

theorem Duration.asSecs_fromSecs (secs : UInt64) :
    UInt64.ofNat (asSecs (fromSecs secs)) = secs := by
  unfold asSecs fromSecs
  rw [Nat.mul_div_cancel _ (by decide), UInt64.ofNat_toNat]

/-- Clamping and then reading the unit is reading the unit and then clamping. -/
theorem Range.clamp_toNat_mul (range : Range) (requested : Option UInt64) (unit : Nat) :
    (range.clamp requested).toNat * unit =
      min ((requested.map fun n => n.toNat * unit).getD (range.default.toNat * unit))
        (range.max.toNat * unit) := by
  have hmin : (range.clamp requested).toNat =
      min (requested.getD range.default).toNat range.max.toNat := by
    show (if requested.getD range.default ≤ range.max then _ else _ : UInt64).toNat = _
    rw [apply_ite UInt64.toNat, Nat.min_def]
    simp only [UInt64.le_iff_toNat_le]
  rw [hmin, ← Nat.mul_min_mul_right]
  cases requested <;> rfl

namespace ResolvedConfig

variable {config : ResolvedConfig}

/-- **The limits a client works out** are those the server resolves. -/
theorem Whole.limits (whole : config.Whole) (request : Option LimitsRequest) :
    config.advertised.limits request = resolveLimits request config.limits := by
  obtain ⟨default, hdefault⟩ := whole.defaultDuration
  obtain ⟨max, hmax⟩ := whole.maxDuration
  have hduration : config.advertised.durationMs = ⟨default, max⟩ := by
    show (⟨_, _⟩ : Range) = _
    rw [hdefault, hmax, Duration.asMillis_fromMillis, Duration.asMillis_fromMillis]
  have hclamp := Range.clamp_toNat_mul ⟨default, max⟩ (clonedOrDefault request).maxDurationMs
    1000000
  unfold Advertised.limits resolveLimits ResolvedLimits.resolve
  rw [hduration, hdefault, hmax]
  exact congrArg (fun d => ResolvedLimits.mk d _ _ _ none) hclamp

/-- **The time-to-live a client works out** is the one the server resolves. -/
theorem Whole.ttl (whole : config.Whole) (requested : Option UInt64) :
    config.advertised.ttl requested = resolveTtl requested config.sessions := by
  obtain ⟨default, hdefault⟩ := whole.defaultTtl
  obtain ⟨max, hmax⟩ := whole.maxTtl
  have hseconds : config.advertised.ttlSeconds = ⟨default, max⟩ := by
    show (⟨_, _⟩ : Range) = _
    rw [hdefault, hmax, Duration.asSecs_fromSecs, Duration.asSecs_fromSecs]
  unfold Advertised.ttl resolveTtl
  rw [hseconds, hdefault, hmax]
  exact Range.clamp_toNat_mul ⟨default, max⟩ requested 1000000000

end ResolvedConfig

/-! ## What executions run under -/

/-- The limits a create has resolved. -/
def Create.limits : Create → Option ResolvedLimits
  | .executing _ limits _ => some limits
  | _ => none

section Limits

variable [Crates]

/-- **Step lemma**: a create resolves its limits once. -/
theorem Create.limits_step {app app' : AppState} {i : RequestId} {caller : String}
    {request : CreateSessionRequest} {m : Move} {phase phase' : Create} {limits : ResolvedLimits}
    (h : phase.step app i caller request m = some (app', phase'))
    (hlimits : phase'.limits = some limits) :
    phase.limits = some limits ∨
      limits = resolveLimits request.source.limits app.config.limits := by
  unfold step at h
  split at h
  · unfold advance at h
    split at h
    · cases h
      split at hlimits <;> cases hlimits
      exact .inr rfl
    · cases h; cases hlimits
    · cases h; cases hlimits
    · cases h
      split at hlimits <;> cases hlimits
    · cases h
      split at hlimits <;> cases hlimits
    · obtain ⟨e, -, h⟩ := Option.bind_eq_some_iff.mp h
      cases h
      cases hlimits
    · cases h
  · unfold insert at h
    split at h
    · split at h <;> cases h
      cases hlimits
    · cases h
  · cases h; cases hlimits
  · obtain ⟨⟨free, spawn'⟩, -, h⟩ := Option.bind_eq_some_iff.mp h
    cases h
    exact .inl hlimits
  · obtain ⟨⟨free, spawn'⟩, -, h⟩ := Option.bind_eq_some_iff.mp h
    cases h
    exact .inl hlimits
  · cases h

namespace Server

variable {s s' : Server} {a : Action} {config : Config}

/-- Every create has the limits its request resolves to. -/
structure Limited (config : Config) (s : Server) : Prop where
  fixed : s.app.config = config
  creating : ∀ (i : RequestId) (caller : String) (request : CreateSessionRequest)
    (phase : Create) (limits : ResolvedLimits),
    s.requests[i]? = some ⟨caller, .create request phase⟩ → phase.limits = some limits →
    limits = resolveLimits request.source.limits config.limits

theorem Limited.step (limited : s.Limited config) (h : s.step a = some s') :
    s'.Limited config where
  fixed := (step_cases h).config_eq.trans limited.fixed
  creating i caller request phase limits hr' hlimits := by
    rcases create_before h hr' with hr | rfl | ⟨m, before, -, hr, hstep⟩
    · exact limited.creating i caller request phase limits hr hlimits
    · cases hlimits
    · rcases Create.limits_step hstep hlimits with hbefore | hresolved
      · exact limited.creating i caller request before limits hr hbefore
      · rw [hresolved, limited.fixed]

/-- **Run lemma**: every create has the limits its request resolves to. -/
theorem Reachable.limited (h : Reachable config s) : s.Limited config := by
  refine Run.Reachable.invariant (fun _ _ _ hs hstep => hs.step hstep) ⟨rfl, ?_⟩ h
  intro i caller request phase limits hr
  simp [Server.new] at hr

end Server

end Limits

/-- **What `info` says is what clients get.** Let the server be configured by the environment, and
let a client read the response to `GET /v1/info`, at whatever time. What it works out from there
(the value it asks for, or else the default, clamped to the maximum) is, in every state of every
run, exactly what a create executes under and how long its session is to live, and exactly what a
`POST /v1/run` executes under; and every stored session has a time-to-live that can be worked out
so. -/
theorem info_foretells [Crates] {env : Environment} {config : ResolvedConfig}
    (h : ResolvedConfig.fromEnv env = .ok config) (asked : AppState) (startedAt : Instant)
    {as : List Action} {s : Server}
    (hrun : Run.exec Server.step (.new config.toConfig) as = some s) :
    ∃ advertised, Advertised.read (info config asked startedAt) = some advertised ∧
      (∀ (i : RequestId) caller request ttl limits spawn,
        s.requests[i]? = some ⟨caller, .create request (.executing ttl limits spawn)⟩ →
        limits = advertised.limits request.source.limits ∧
          ttl = advertised.ttl request.ttlSeconds) ∧
      (∀ (i : RequestId) caller fields spawn spec limits awaited,
        s.requests[i]? = some ⟨caller, .run fields (.executing spawn)⟩ →
        spawn.work = some ((spec, limits), awaited) →
        limits = advertised.limits fields.limits) ∧
      ∀ id e, s.entry id = some e → ∃ requested, e.ttl = advertised.ttl requested := by
  have whole := ResolvedConfig.fromEnv_whole h
  have hreachable : s.Reachable config.toConfig := ⟨as, hrun⟩
  refine ⟨config.advertised, Advertised.read_info config asked startedAt, ?_, ?_, ?_⟩
  · intro i caller request ttl limits spawn hr
    rw [whole.limits, whole.ttl]
    exact ⟨hreachable.limited.creating i caller request _ limits hr rfl,
      hreachable.resolved.creating i caller request _ ttl hr rfl⟩
  · intro i caller fields spawn spec limits awaited hr hwork
    have hown := Server.own_of_exec True hrun (fun _ _ _ => trivial) hr
    obtain ⟨w, hw, hsame, -⟩ := hown
    cases hsame _ awaited hwork
    rw [whole.limits]
    cases hspec : fields.intoSpec with
    | error err =>
      rw [hspec] at hw
      cases hw
    | ok spec' =>
      rw [hspec] at hw
      cases hw
      rfl
  · intro id e he
    obtain ⟨requested, hrequested⟩ := hreachable.resolved.stored id e he
    exact ⟨requested, by rw [whole.ttl, hrequested]⟩

/-- The default is five seconds and the most is one. -/
def Sample.hasty : Environment := environment [("MONTY_MAX_TIMEOUT_MS", "1000")]

/-- A create that asks for no limits gets the second, not the five. -/
theorem info_foretells_hasty :
    ∃ (_ : Crates) (config : ResolvedConfig) (s : Server) (caller : String)
      (request : CreateSessionRequest) (ttl : Duration) (limits : ResolvedLimits)
      (spawn : Spawn SourceSpec StartOutcome) (advertised : Advertised),
      ResolvedConfig.fromEnv Sample.hasty = .ok config ∧
      Run.exec Server.step (.new config.toConfig) (Sample.opening.take 2) = some s ∧
      s.requests[0]? = some ⟨caller, .create request (.executing ttl limits spawn)⟩ ∧
      Advertised.read (info config s.app 0) = some advertised ∧
      advertised.durationMs.default = 5000 ∧
      limits = advertised.limits request.source.limits ∧ limits.maxDuration = 1000000000 := by
  let _ := Sample.crates
  obtain ⟨config, hconfig, hdefault⟩ : ∃ config, ResolvedConfig.fromEnv Sample.hasty = .ok config ∧
      config.advertised.durationMs.default = 5000 := ⟨_, rfl, rfl⟩
  obtain ⟨s, caller, request, ttl, limits, spawn, hs, hr, hlimit⟩ :
      ∃ s caller request ttl limits spawn,
        Run.exec Server.step (.new config.toConfig) (Sample.opening.take 2) = some s ∧
        s.requests[0]? = some ⟨caller, .create request (.executing ttl limits spawn)⟩ ∧
        limits.maxDuration = 1000000000 := by
    cases hconfig
    exact ⟨_, _, _, _, _, _, rfl, rfl, rfl⟩
  obtain ⟨advertised, hread, hcreates, -, -⟩ := info_foretells hconfig s.app 0 hs
  refine ⟨Sample.crates, config, s, caller, request, ttl, limits, spawn, advertised, hconfig, hs,
    hr, hread, ?_, (hcreates 0 caller request ttl limits spawn hr).1, hlimit⟩
  rw [Advertised.read_info] at hread
  cases hread
  exact hdefault

end MontyServer
