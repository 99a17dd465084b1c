import MontyServer.Startup

/-!
# Loading the configuration

`Config::from_env` reads the variables one after the other and gives up at the first that is set but
cannot be parsed. So it accepts an environment exactly if every variable in it can be read, and
otherwise the error names the first one that cannot (`fromEnv_reads`).
-/

namespace MontyServer

open Rounds

/-! ## What each variable may say -/

/-- An entry of `MONTY_API_TOKENS`: a token, perhaps with its name, perhaps with its rate too. -/
def TokenText (entry : String) : Prop :=
  match Text.split ':' entry with
  | [_] | [_, _] => True
  | [_, _, rpm] => ∃ perMinute, Text.parseU32 rpm = .ok perMinute
  | _ => False

/-- The variables, in the order in which they are read. -/
def VARIABLES : List String :=
  ["MONTY_HOST", "PORT", "MONTY_RATE_LIMIT_RPM", "MONTY_API_TOKENS", "MONTY_MAX_TIMEOUT_MS",
    "MONTY_MAX_CONCURRENCY", "MONTY_MAX_BODY_BYTES", "MONTY_DEFAULT_TIMEOUT_MS",
    "MONTY_DEFAULT_MEMORY_BYTES", "MONTY_MAX_MEMORY_BYTES", "MONTY_DEFAULT_MAX_ALLOCATIONS",
    "MONTY_MAX_ALLOCATIONS", "MONTY_DEFAULT_RECURSION_DEPTH", "MONTY_MAX_RECURSION_DEPTH",
    "MONTY_SESSION_TTL_SECONDS", "MONTY_SESSION_MAX_TTL_SECONDS", "MONTY_MAX_SESSIONS"]

/-- The texts a variable may be set to: an address, a port, a rate, a list of tokens; all others are
`u64` or `usize`. -/
def Readable (var text : String) : Prop :=
  match var with
  | "MONTY_HOST" => (Net.IpAddr.fromStr text).isSome
  | "PORT" => ∃ port, Text.parseU16 text = .ok port
  | "MONTY_RATE_LIMIT_RPM" => ∃ rpm, Text.parseU32 text = .ok rpm
  | "MONTY_API_TOKENS" => ∀ entry ∈ tokenEntries text, TokenText entry
  | _ => ∃ n, Text.readU64 text = .ok n

/-- The variable is unset, or blank, or can be read. -/
def Environment.Reads (env : Environment) (var : String) : Prop :=
  ∀ text, env.str var = some text → Readable var text

section Steps

variable {env : Environment}

/-- An integer variable is one check. -/
theorem envInt_checks {T : Type} {parse : String → Except Text.ParseIntError T} {var : String}
    (hreadable : ∀ text, Readable var text ↔ ∃ n, parse text = .ok n) :
    Checks env.Reads ConfigError.var [var] (envInt parse env var) := by
  cases hstr : env.str var with
  | none =>
    rw [envInt_of_unset hstr]
    intro k hk text htext
    rw [List.mem_singleton.mp hk, hstr] at htext
    cases htext
  | some text =>
    rw [envInt_of_set hstr]
    cases hparse : parse text with
    | ok n =>
      intro k hk text' htext'
      rw [List.mem_singleton.mp hk, hstr] at htext'
      cases htext'
      rw [List.mem_singleton.mp hk]
      exact (hreadable text).mpr ⟨n, hparse⟩
    | error source =>
      refine ⟨[], [], rfl, nofun, ?_⟩
      intro hreads
      obtain ⟨n, hn⟩ := (hreadable text).mp (hreads text hstr)
      cases hparse.symm.trans hn

theorem tokenEntry_ok_iff {rate : RateRule} {entry : String} :
    (∃ parsed, tokenEntry rate entry = .ok parsed) ↔ TokenText entry := by
  unfold tokenEntry TokenText
  generalize Text.split ':' entry = parts
  rcases parts with _ | ⟨name, _ | ⟨token, _ | ⟨rpm, _ | ⟨more, parts⟩⟩⟩⟩
  · exact iff_of_false nofun not_false
  · exact iff_of_true ⟨_, rfl⟩ trivial
  · exact iff_of_true ⟨_, rfl⟩ trivial
  · dsimp only
    cases Text.parseU32 rpm with
    | ok perMinute => exact iff_of_true ⟨_, rfl⟩ ⟨perMinute, rfl⟩
    | error source => exact iff_of_false nofun nofun
  · exact iff_of_false nofun not_false

/-- A variable of tokens is accepted exactly if every entry of it is one. -/
theorem loadAuth_ok_iff {raw : String} (h : Text.trim raw ≠ "") {rate : RateRule} :
    (∃ auth, loadAuth (some raw) rate = .ok auth) ↔
      ∀ entry ∈ tokenEntries raw, TokenText entry := by
  have hentries : (∀ entry ∈ tokenEntries raw, TokenText entry) ↔
      ∃ entries, (tokenEntries raw).mapM (tokenEntry rate) = .ok entries := by
    rw [mapM_succeeds_iff]
    exact forall₂_congr fun _ _ => tokenEntry_ok_iff.symm
  rw [hentries, loadAuth_eq h]
  cases (tokenEntries raw).mapM (tokenEntry rate) with
  | ok entries => exact iff_of_true ⟨_, rfl⟩ ⟨entries, rfl⟩
  | error e => exact iff_of_false nofun nofun

theorem loadAuth_var {var : Option String} {rate : RateRule} :
    FailsWith (·.var = "MONTY_API_TOKENS") (loadAuth var rate) := by
  unfold loadAuth
  split
  · exact .ok _
  · apply (insertEntries_error rate [] _).bind
    intro tokens
    split
    · exact .ok _
    · exact .ok _

/-- The tokens are one check too. -/
theorem loadAuth_checks {rate : RateRule} :
    Checks env.Reads ConfigError.var ["MONTY_API_TOKENS"]
      (loadAuth (env.var "MONTY_API_TOKENS") rate) := by
  cases hstr : env.str "MONTY_API_TOKENS" with
  | none =>
    have hnone : envStr (env.var "MONTY_API_TOKENS") = none := hstr
    rw [loadAuth, hnone]
    intro k hk text htext
    rw [List.mem_singleton.mp hk, hstr] at htext
    cases htext
  | some raw =>
    obtain ⟨hvar, hblank⟩ := Option.filter_eq_some_iff.mp hstr
    have hiff := @loadAuth_ok_iff raw (of_decide_eq_true hblank) rate
    rw [hvar]
    cases hload : loadAuth (some raw) rate with
    | ok auth =>
      intro k hk text htext
      rw [List.mem_singleton.mp hk, hstr] at htext
      cases htext
      rw [List.mem_singleton.mp hk]
      exact hiff.mp ⟨auth, hload⟩
    | error e =>
      have hname : e.var = "MONTY_API_TOKENS" := loadAuth_var e hload
      refine ⟨[], [], by rw [hname]; rfl, List.forall_mem_nil _, ?_⟩
      rw [hname]
      intro hreads
      obtain ⟨auth, hauth⟩ := hiff.mpr (hreads raw hstr)
      cases hload.symm.trans hauth

end Steps

/-! ## The whole environment -/

section FromEnv

variable {env : Environment}

theorem LimitBounds.fromEnv_checks {maxDuration : Duration} :
    Checks env.Reads ConfigError.var
      ["MONTY_DEFAULT_TIMEOUT_MS", "MONTY_DEFAULT_MEMORY_BYTES", "MONTY_MAX_MEMORY_BYTES",
        "MONTY_DEFAULT_MAX_ALLOCATIONS", "MONTY_MAX_ALLOCATIONS", "MONTY_DEFAULT_RECURSION_DEPTH",
        "MONTY_MAX_RECURSION_DEPTH"] (LimitBounds.fromEnv env maxDuration) := by
  unfold fromEnv
  apply (envInt_checks fun _ => Iff.rfl).cons
  intro defaultDuration
  apply (envInt_checks fun _ => Iff.rfl).cons
  intro defaultMemoryBytes
  apply (envInt_checks fun _ => Iff.rfl).cons
  intro maxMemoryBytes
  apply (envInt_checks fun _ => Iff.rfl).cons
  intro defaultMaxAllocations
  apply (envInt_checks fun _ => Iff.rfl).cons
  intro maxAllocations
  apply (envInt_checks fun _ => Iff.rfl).cons
  intro defaultRecursionDepth
  apply (envInt_checks fun _ => Iff.rfl).cons
  intro maxRecursionDepth
  exact .ok _

theorem SessionConfig.fromEnv_checks :
    Checks env.Reads ConfigError.var
      ["MONTY_SESSION_TTL_SECONDS", "MONTY_SESSION_MAX_TTL_SECONDS", "MONTY_MAX_SESSIONS"]
      (SessionConfig.fromEnv env) := by
  unfold fromEnv
  apply (envInt_checks fun _ => Iff.rfl).cons
  intro defaultTtl
  apply (envInt_checks fun _ => Iff.rfl).cons
  intro maxTtl
  apply (envInt_checks fun _ => Iff.rfl).cons
  intro maxSessions
  exact .ok _

/-- **The configuration goes through the variables in turn.** -/
theorem ResolvedConfig.fromEnv_checks :
    Checks env.Reads ConfigError.var VARIABLES (ResolvedConfig.fromEnv env) := by
  unfold fromEnv VARIABLES
  split
  · next host hhost =>
    apply Checks.skip
    · intro text htext
      rw [htext] at hhost
      exact Option.isSome_of_eq_some hhost
    · apply (envInt_checks fun _ => Iff.rfl).cons
      intro port
      apply (envInt_checks fun _ => Iff.rfl).cons
      intro rpm
      apply loadAuth_checks.cons
      intro auth
      apply (envInt_checks fun _ => Iff.rfl).cons
      intro timeout
      apply (envInt_checks fun _ => Iff.rfl).cons
      intro maxConcurrency
      apply (envInt_checks fun _ => Iff.rfl).cons
      intro maxBodyBytes
      apply LimitBounds.fromEnv_checks.bind
      intro limits
      apply SessionConfig.fromEnv_checks.bind
      intro sessions
      exact .ok _
  · next hhost =>
    refine ⟨[], _, rfl, nofun, ?_⟩
    intro hreads
    cases hstr : env.str "MONTY_HOST" with
    | some text =>
      obtain ⟨host, htext⟩ := Option.isSome_iff_exists.mp (hreads text hstr)
      rw [hstr] at hhost
      exact hhost host htext
    | none =>
      -- the default is an address
      rw [hstr] at hhost
      exact hhost _ rfl

end FromEnv

/-- **Exactly what `from_env` accepts.** An environment is accepted if and only if every variable in
it that is set can be read: the address, the port, the rate, each entry of the tokens, and the
numbers. Otherwise the error names the first variable, in the order in which they are read, that
cannot. -/
theorem fromEnv_reads (env : Environment) :
    ((∃ config, ResolvedConfig.fromEnv env = .ok config) ↔ ∀ var ∈ VARIABLES, env.Reads var) ∧
      ∀ e, ResolvedConfig.fromEnv env = .error e → ∃ before after,
        VARIABLES = before ++ e.var :: after ∧ (∀ var ∈ before, env.Reads var) ∧
        ¬ env.Reads e.var := by
  have hchecks := @ResolvedConfig.fromEnv_checks env
  refine ⟨hchecks.ok_iff, ?_⟩
  intro e he
  rw [he] at hchecks
  exact hchecks

end MontyServer
