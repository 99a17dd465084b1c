import MontyServer.Api.Router
import MontyServer.Refills
import MontyServer.Tenancy
import MontyServer.WellFormed

/-!
# What the middleware lets in

Behind the middleware the service is the machine of `MontyServer.Server`, and whoever has a request
or a session there has authenticated (`nothing_unauthenticated`). The limiter is charged for a
request before the handler sees it, so what `MontyServer.RateLimit` says of checks holds of
requests: in any stretch of any run a caller gets no more of them in than its burst and its rate
allow (`requests_within_rate`). A request that is refused leaves no trace: what the others are
answered and what the server does is as if it had never been made (`refused_invisible`). As in
`MontyServer.RateLimit`, the limiter's arithmetic is exact.
-/

namespace MontyServer

namespace Service

variable {config : ResolvedConfig} {s s' : Service}

/-! ## One step -/

/-- The call of the limiter that an event makes. -/
def op (config : ResolvedConfig) (s : Service) : Event → Option RateLimiter.Op
  | .request incoming created =>
    match authenticate config.auth config.defaultRate incoming.http with
    | .error _ => none
    | .ok caller => some (.check caller.id caller.rate created s.now)
  | .prune read => some (.pruneIdle read s.now)
  | .inside _ => none

/-- The limiter after an event. -/
def limited (config : ResolvedConfig) (s : Service) (e : Event) : RateLimiter :=
  (s.op config e).elim s.rateLimiter s.rateLimiter.step

/-- **What both layers answer**, in one step. -/
theorem layers_eq (l : RateLimiter) (http : HttpRequest) (created now : Instant) :
    layers config l http created now =
      match authenticate config.auth config.defaultRate http with
      | .error err => (l, .error err)
      | .ok caller => ((l.check caller.id caller.rate created now).1,
          match (l.check caller.id caller.rate created now).2 with
          | .ok () => .ok caller
          | .error retryAfter => .error (.RateLimited retryAfter.toNat)) := by
  unfold layers rateLimit
  cases authenticate config.auth config.defaultRate http with
  | error err => rfl
  | ok caller =>
    dsimp only
    generalize l.check caller.id caller.rate created now = checked
    obtain ⟨l', result⟩ := checked
    cases result <;> rfl

theorem charged_rateLimiter (incoming : Incoming) (created : Instant) :
    (s.charged config incoming created).rateLimiter =
      s.limited config (.request incoming created) := by
  rw [charged, layers_eq, limited, op]
  cases authenticate config.auth config.defaultRate incoming.http <;> rfl

/-- The action is not an arrival. -/
def Inside : Action → Prop
  | .arrive _ _ => False
  | _ => True

variable [Crates]

/-- The ways an event can go. -/
inductive Trans (config : ResolvedConfig) (s : Service) : Event → Service → Prop
  /-- The middleware refuses, or what it lets through comes to no call. -/
  | answered {incoming : Incoming} {created : Instant} : created ≤ s.now →
    (∀ caller, s.letIn config incoming created = .ok caller → incoming.call = none) →
    Trans config s (.request incoming created)
      ⟨s.server, s.limited config (.request incoming created)⟩
  | arrived {incoming : Incoming} {created : Instant} {caller : Caller} {call : Call} :
    created ≤ s.now → s.letIn config incoming created = .ok caller →
    incoming.call = some call →
    Trans config s (.request incoming created)
      ⟨{ s.server with requests := s.server.requests ++ [⟨caller.id, call.handler⟩] },
        s.limited config (.request incoming created)⟩
  | prune {read : Instant} : read ≤ s.now →
    Trans config s (.prune read) ⟨s.server, s.limited config (.prune read)⟩
  | inside {a : Action} {server : Server} : Inside a → s.server.step a = some server →
    Trans config s (.inside a) ⟨server, s.rateLimiter⟩

theorem step_cases {e : Event} (h : s.step config e = some s') : s.Trans config e s' := by
  unfold step at h
  split at h
  · next incoming created =>
    split at h
    · next hcreated =>
      dsimp only at h
      rw [show s.charged config incoming created =
        ⟨s.server, s.limited config (.request incoming created)⟩ from
        congrArg (Service.mk s.server) (charged_rateLimiter incoming created)] at h
      split at h
      · next caller call hletIn hcall =>
        obtain ⟨server, hserver, h⟩ := Option.bind_eq_some_iff.mp h
        cases h
        cases hserver
        exact .arrived hcreated hletIn hcall
      · next hnot =>
        cases h
        refine .answered hcreated ?_
        intro caller hletIn
        cases hcall : incoming.call with
        | none => rfl
        | some call => exact (hnot caller call hletIn hcall).elim
    · cases h
  · split at h <;> cases h
    exact .prune ‹_›
  · cases h
  · next a hinside =>
    obtain ⟨server, hserver, h⟩ := Option.bind_eq_some_iff.mp h
    cases h
    refine .inside ?_ hserver
    cases a with
    | arrive caller call => exact (hinside caller call rfl).elim
    | _ => trivial

/-! ## Refinement -/

/-- Behind the middleware an event is at most one step of the server. -/
theorem Trans.server_run {e : Event} (h : s.Trans config e s') :
    ∃ as, Run.exec Server.step s.server as = some s'.server := by
  cases h with
  | answered _ _ => exact ⟨[], rfl⟩
  | @arrived incoming created caller call _ _ _ => exact ⟨[.arrive caller.id call], rfl⟩
  | prune _ => exact ⟨[], rfl⟩
  | inside _ hserver => exact ⟨[_], Run.exec_cons.mpr ⟨_, hserver, rfl⟩⟩

/-- **Run lemma**: behind the middleware every state is one of the server's. -/
theorem Reachable.server (h : Service.Reachable config s) :
    s.server.Reachable config.toConfig := by
  refine Run.Reachable.invariant (I := fun s : Service => s.server.Reachable config.toConfig)
    ?_ ⟨[], rfl⟩ h
  intro s e s' ⟨as, has⟩ hstep
  obtain ⟨bs, hbs⟩ := (step_cases hstep).server_run
  exact ⟨as ++ bs, Run.exec_append.mpr ⟨s.server, has, hbs⟩⟩

/-! ## Who is let in -/

omit [Crates] in
/-- A request that has been let through has authenticated, and its check was granted. -/
theorem letIn_ok {incoming : Incoming} {created : Instant} {caller : Caller}
    (h : s.letIn config incoming created = .ok caller) :
    authenticate config.auth config.defaultRate incoming.http = .ok caller ∧
      (s.rateLimiter.check caller.id caller.rate created s.now).2 = .ok () := by
  rw [letIn, layers_eq] at h
  cases hauth : authenticate config.auth config.defaultRate incoming.http with
  | error err =>
    rw [hauth] at h
    cases h
  | ok caller' =>
    rw [hauth] at h
    dsimp only at h
    split at h
    · next hgranted =>
      cases h
      exact ⟨rfl, hgranted⟩
    · cases h

/-- Somebody of that id can authenticate: the id is a configured name, or the address of a client if
there are no tokens. -/
def Knows (config : ResolvedConfig) (id : String) : Prop :=
  match config.auth with
  | .Disabled => ∃ http, id = "ip:" ++ clientIp http
  | .Tokens tokens => ∃ token principal, tokens.get token = some principal ∧ principal.name = id

omit [Crates] in
theorem knows_of_authenticate {http : HttpRequest} {caller : Caller}
    (h : authenticate config.auth config.defaultRate http = .ok caller) :
    Knows config caller.id := by
  unfold Knows
  split
  · next hauth =>
    rw [hauth] at h
    cases h
    exact ⟨http, rfl⟩
  · next tokens hauth =>
    rw [hauth] at h
    obtain ⟨token, principal, -, hprincipal, rfl⟩ := authenticate_ok_iff.mp h
    exact ⟨token, principal, hprincipal, rfl⟩

/-- The callers of all requests there have been behind the middleware. -/
def callers (s : Service) : List String := s.server.requests.map Request.caller

omit [Crates] in
theorem mem_callers {r : Request} (h : r ∈ s.server.requests) : r.caller ∈ s.callers :=
  List.mem_map_of_mem h

/-- Behind the middleware a request keeps its caller. -/
theorem callers_inside {server server' : Server} {a : Action} (ha : Inside a)
    (h : server.step a = some server') :
    server'.requests.map Request.caller = server.requests.map Request.caller := by
  cases a with
  | arrive caller call => exact ha.elim
  | move i m =>
    obtain ⟨r, hr, h⟩ := Option.bind_eq_some_iff.mp h
    obtain ⟨⟨app, handler⟩, hstep, h⟩ := Option.bind_eq_some_iff.mp h
    cases h
    obtain ⟨hi, rfl⟩ := List.getElem?_eq_some_iff.mp hr
    rw [List.map_set]
    apply List.ext_getElem
    · rw [List.length_set]
    · intro j _ hj
      grind
  | tick d =>
    cases h
    rfl
  | collect =>
    rw [Server.step] at h
    split at h <;> cases h
    rfl
  | evict =>
    rw [Server.step] at h
    split at h <;> cases h
    rfl

/-- Every request behind the middleware is somebody's. -/
def AllKnown (config : ResolvedConfig) (s : Service) : Prop :=
  ∀ id ∈ s.callers, Knows config id

theorem AllKnown.step (known : s.AllKnown config) {e : Event} (h : s.step config e = some s') :
    s'.AllKnown config := by
  cases step_cases h with
  | answered _ _ => exact known
  | @arrived incoming created caller call _ hletIn _ =>
    intro id hid
    rw [callers, List.map_append, List.mem_append] at hid
    rcases hid with hid | hid
    · exact known id hid
    · rw [List.mem_singleton.mp hid]
      exact knows_of_authenticate (letIn_ok hletIn).1
  | prune _ => exact known
  | inside ha hserver =>
    rw [AllKnown, callers, callers_inside ha hserver]
    exact known

/-- **Run lemma**: nobody unknown ever gets behind the middleware. -/
theorem Reachable.allKnown (h : Service.Reachable config s) : s.AllKnown config :=
  Run.Reachable.invariant (fun _ _ _ hs hstep => hs.step hstep)
    (fun _ hid => by cases hid) h

/-! ## Rates -/

/-- Whoever authenticates as `id` is charged at a rate of `n` a minute. -/
def Rated (config : ResolvedConfig) (id : String) (n : UInt32) : Prop :=
  ∀ http caller, authenticate config.auth config.defaultRate http = .ok caller →
    caller.id = id → caller.rate = .new n

/-- No two callers of one name are charged at different rates. -/
def OneRate (config : ResolvedConfig) : Prop :=
  ∀ http http' caller caller',
    authenticate config.auth config.defaultRate http = .ok caller →
    authenticate config.auth config.defaultRate http' = .ok caller' →
    caller.id = caller'.id → caller.rate = caller'.rate

end Service

/-- The rate has come out of `RateRule::new`. -/
def RateRule.Proper (rule : RateRule) : Prop := ∃ n, rule = .new n

section Rates

variable {defaultRate : RateRule}

theorem tokenEntry_rate (h : defaultRate.Proper) {text : String} {entry : String × Principal}
    (hentry : tokenEntry defaultRate text = .ok entry) : entry.2.rate.Proper := by
  unfold tokenEntry at hentry
  split at hentry
  · cases hentry
    exact h
  · cases hentry
    exact h
  · split at hentry
    · cases hentry
      exact ⟨_, rfl⟩
    · cases hentry
  · cases hentry

theorem insertEntries_rates (h : defaultRate.Proper) {tokens tokens' : TokenMap}
    (htokens : ∀ e ∈ tokens, e.2.rate.Proper) {texts : List String}
    (hinsert : insertEntries defaultRate tokens texts = .ok tokens') :
    ∀ e ∈ tokens', e.2.rate.Proper := by
  induction texts generalizing tokens with
  | nil =>
    cases hinsert
    exact htokens
  | cons text texts ih =>
    obtain ⟨entry, hentry, hinsert⟩ := Rounds.bind_eq_ok.mp hinsert
    apply ih _ hinsert
    intro e he
    rcases List.mem_cons.mp he with rfl | he
    · exact tokenEntry_rate h hentry
    · exact htokens e (List.mem_of_mem_filter he)

theorem loadAuth_rates (h : defaultRate.Proper) {var : Option String} {auth : Auth}
    (hload : loadAuth var defaultRate = .ok auth) {http : HttpRequest} {caller : Caller}
    (hcaller : authenticate auth defaultRate http = .ok caller) : caller.rate.Proper := by
  unfold loadAuth at hload
  split at hload
  · cases hload
    cases hcaller
    exact h
  · obtain ⟨tokens, hinsert, hload⟩ := Rounds.bind_eq_ok.mp hload
    split at hload
    · cases hload
      cases hcaller
      exact h
    · cases hload
      obtain ⟨token, principal, -, hprincipal, rfl⟩ := authenticate_ok_iff.mp hcaller
      obtain ⟨e, he, rfl⟩ := Option.map_eq_some_iff.mp hprincipal
      have hproper := insertEntries_rates h (fun e he => by cases he) hinsert
      exact hproper e (List.mem_of_find?_eq_some he)

/-- **Whoever a configuration of the environment lets in, its rate has been through
`RateRule::new`**, so that it grants at least a request a minute. -/
theorem ResolvedConfig.fromEnv_rates {env : Environment} {config : ResolvedConfig}
    (h : ResolvedConfig.fromEnv env = .ok config) {http : HttpRequest} {caller : Caller}
    (hcaller : authenticate config.auth config.defaultRate http = .ok caller) :
    caller.rate.Proper := by
  unfold fromEnv at h
  split at h
  · obtain ⟨port, -, h⟩ := Rounds.bind_eq_ok.mp h
    obtain ⟨rpm, -, h⟩ := Rounds.bind_eq_ok.mp h
    obtain ⟨auth, hauth, h⟩ := Rounds.bind_eq_ok.mp h
    obtain ⟨timeout, -, h⟩ := Rounds.bind_eq_ok.mp h
    obtain ⟨concurrency, -, h⟩ := Rounds.bind_eq_ok.mp h
    obtain ⟨bytes, -, h⟩ := Rounds.bind_eq_ok.mp h
    obtain ⟨limits, -, h⟩ := Rounds.bind_eq_ok.mp h
    obtain ⟨sessions, -, h⟩ := Rounds.bind_eq_ok.mp h
    cases h
    exact loadAuth_rates ⟨_, rfl⟩ hauth hcaller
  · cases h

end Rates

namespace Service

variable {config : ResolvedConfig} {s s' t t' : Service}

theorem OneRate.rated (hone : OneRate config) {http : HttpRequest} {caller : Caller} {n : UInt32}
    (hcaller : authenticate config.auth config.defaultRate http = .ok caller)
    (hrate : caller.rate = .new n) : Rated config caller.id n := by
  intro http' caller' hcaller' hid
  rw [← hrate]
  exact hone http' http caller' caller hcaller' hcaller hid

variable [Crates]

/-- The clock of the service goes forward. -/
theorem Trans.now_le {e : Event} (h : s.Trans config e s') : s.now ≤ s'.now := by
  cases h with
  | inside _ hserver => exact (Server.step_cases hserver).grows.now
  | _ => exact Nat.le_refl _

omit [Crates] in
/-- Every call of the limiter is made at the time of its event. -/
theorem op_now {e : Event} {op : RateLimiter.Op} (h : s.op config e = some op) :
    op.now = s.now := by
  cases e with
  | request incoming created =>
    rw [Service.op] at h
    split at h <;> cases h
    rfl
  | prune read =>
    cases h
    rfl
  | inside a => cases h

/-- **What the limiter is called with** fits the law of every rated caller. -/
theorem Trans.fits {e : Event} (h : s.Trans config e s') {id : String} {n : UInt32}
    (hrated : Rated config id n) {op : RateLimiter.Op} (hop : s.op config e = some op) :
    RateLimiter.Fits id (.new n) op := by
  cases e with
  | request incoming created =>
    rw [Service.op] at hop
    split at hop
    · cases hop
    · next caller hcaller =>
      cases hop
      exact hrated incoming.http caller hcaller
  | prune read =>
    cases hop
    cases h with
    | prune hread => exact hread
  | inside a => cases hop

/-- What an event leaves of the limiter. -/
theorem Trans.rateLimiter {e : Event} (h : s.Trans config e s') :
    s'.rateLimiter = s.limited config e := by
  cases h <;> rfl

theorem Trans.bounded {e : Event} (h : s.Trans config e s') {id : String} {n : UInt32}
    (hrated : Rated config id n) (hbounded : s.rateLimiter.Bounded id (.new n)) :
    s'.rateLimiter.Bounded id (.new n) := by
  rw [h.rateLimiter, limited]
  cases hop : s.op config e with
  | none => exact hbounded
  | some op => exact hbounded.step (h.fits hrated hop)

/-! ## A caller's fund -/

/-- The event is a request that the limiter grants to `id`. -/
def grants (config : ResolvedConfig) (id : String) (s : Service) (e : Event) : Bool :=
  (s.op config e).any (RateLimiter.grants id s.rateLimiter)

/-- Whoever gets behind the middleware has been granted a token. -/
theorem Trans.count_le {e : Event} (h : s.Trans config e s') (id : String) :
    s'.callers.count id ≤ s.callers.count id + (if s.grants config id e then 1 else 0) := by
  cases h with
  | answered _ _ => exact Nat.le_add_right _ _
  | @arrived incoming created caller call _ hletIn _ =>
    obtain ⟨hauth, hgranted⟩ := letIn_ok hletIn
    have hop : s.op config (.request incoming created) =
        some (.check caller.id caller.rate created s.now) := by rw [op, hauth]
    rw [callers, List.map_append, List.map_singleton, List.count_append, List.count_singleton]
    apply Nat.add_le_add_left
    by_cases hid : caller.id = id
    · subst hid
      have hgrants : s.grants config caller.id (.request incoming created) = true := by
        rw [grants, hop]
        simp [RateLimiter.grants, hgranted, Except.isOk, Except.toBool]
      rw [hgrants]
      simp
    · simp [hid]
  | prune _ => exact Nat.le_add_right _ _
  | inside ha hserver =>
    apply Nat.le_add_right_of_le
    rw [callers, callers, callers_inside ha hserver]

/-- A granted request is paid out of the bucket of its caller. -/
theorem Trans.level_le {e : Event} (h : s.Trans config e s') {id : String} {n : UInt32}
    (hrated : Rated config id n) (hbounded : s.rateLimiter.Bounded id (.new n)) :
    RateLimiter.level id (.new n) s'.rateLimiter s.now +
        (if s.grants config id e then 1 else 0) ≤
      RateLimiter.level id (.new n) s.rateLimiter s.now := by
  rw [h.rateLimiter, limited, grants]
  cases hop : s.op config e with
  | none => simp
  | some op =>
    have hpay := (RateLimiter.law id n).pay s.rateLimiter op hbounded (h.fits hrated hop)
    rw [op_now hop] at hpay
    exact hpay

/-- What a caller has had let in, and what its bucket still holds. -/
def fund (id : String) (n : UInt32) (s : Service) : Rat :=
  s.callers.count id + RateLimiter.level id (.new n) s.rateLimiter s.now

/-- **Step lemma**: the fund of a caller grows by what its rate adds and no more. -/
theorem Trans.fund_le {e : Event} (h : s.Trans config e s') {id : String} {n : UInt32}
    (hrated : Rated config id n) (hbounded : s.rateLimiter.Bounded id (.new n)) :
    s'.fund id n ≤ s.fund id n + (Duration.asSecsF64 s'.now - Duration.asSecsF64 s.now) *
      (RateRule.new n).refillPerSec := by
  have hgrow := RateLimiter.level_grow id (.new n) s'.rateLimiter h.now_le
  have hlevel := h.level_le hrated hbounded
  have hcount : (s'.callers.count id : Rat) ≤
      s.callers.count id + (if s.grants config id e then 1 else 0) := by
    exact_mod_cast h.count_le id
  rw [fund, fund]
  linarith

/-- **Run lemma**: so does it over a run. -/
theorem fund_run {id : String} {n : UInt32} (hrated : Rated config id n)
    (hbounded : s.rateLimiter.Bounded id (.new n)) {events : List Event}
    (hrun : Run.exec (step config) s events = some s') :
    s.now ≤ s'.now ∧ s'.rateLimiter.Bounded id (.new n) ∧
      s'.fund id n ≤ s.fund id n + (Duration.asSecsF64 s'.now - Duration.asSecsF64 s.now) *
        (RateRule.new n).refillPerSec := by
  refine Run.exec_invariant (I := fun r : Service => s.now ≤ r.now ∧
    r.rateLimiter.Bounded id (.new n) ∧ r.fund id n ≤ s.fund id n +
      (Duration.asSecsF64 r.now - Duration.asSecsF64 s.now) * (RateRule.new n).refillPerSec)
    ?_ ⟨Nat.le_refl _, hbounded, by linarith⟩ hrun
  intro r e r' ⟨hnow, hbounded, hfund⟩ hstep
  have htrans := step_cases hstep
  refine ⟨Nat.le_trans hnow htrans.now_le, htrans.bounded hrated hbounded, ?_⟩
  have hone := htrans.fund_le hrated hbounded
  linarith

/-- Buckets are within their bounds in every state of the service. -/
theorem Reachable.bounded (h : Service.Reachable config s) {id : String} {n : UInt32}
    (hrated : Rated config id n) : s.rateLimiter.Bounded id (.new n) :=
  Run.Reachable.invariant (fun _ _ _ hs hstep => (step_cases hstep).bounded hrated hs)
    (RateLimiter.bounded_new id _) h

/-! ## Refused requests -/

/-- The event is a request that the middleware refuses. -/
def refuses (config : ResolvedConfig) (s : Service) : Event → Bool
  | .request incoming created => !(s.letIn config incoming created).isOk
  | _ => false

/-- The ways an event can go are steps. -/
theorem Trans.step_eq {e : Event} (h : s.Trans config e s') : s.step config e = some s' := by
  cases h with
  | @answered incoming created hcreated hnone =>
    rw [step, if_pos hcreated, ← charged_rateLimiter]
    dsimp only
    split
    · next caller call hletIn hcall =>
      cases (hnone caller hletIn).symm.trans hcall
    · rfl
  | @arrived incoming created caller call hcreated hletIn hcall =>
    rw [step, if_pos hcreated, ← charged_rateLimiter, hletIn, hcall]
    rfl
  | prune hread => exact if_pos hread
  | @inside a server ha hserver =>
    cases a with
    | arrive caller call => exact ha.elim
    | _ =>
      rw [step, hserver]
      · rfl
      · intro _ _ harrive
        cases harrive

/-- A service with the same server that answers alike takes the same step. -/
theorem Trans.transfer {e : Event} (h : s.Trans config e s') (hserver : s.server = t.server)
    (hletIn : ∀ incoming created,
      s.letIn config incoming created = t.letIn config incoming created) :
    t.Trans config e ⟨s'.server, t.limited config e⟩ := by
  have hnow : s.now = t.now := congrArg (·.app.now) hserver
  cases h with
  | answered hcreated hnone =>
    rw [hserver]
    exact .answered (hnow ▸ hcreated) fun caller hcaller =>
      hnone caller ((hletIn _ _).trans hcaller)
  | arrived hcreated hcaller hcall =>
    rw [hserver]
    exact .arrived (hnow ▸ hcreated) ((hletIn _ _).symm.trans hcaller) hcall
  | prune hread =>
    rw [hserver]
    exact .prune (hnow ▸ hread)
  | inside ha hstep => exact .inside ha (hserver ▸ hstep)

/-- **Abstraction**: the same server, and from now on nobody who authenticates can tell the limiters
apart. -/
structure Alike (config : ResolvedConfig) (s t : Service) : Prop where
  server : s.server = t.server
  left : s.rateLimiter.At s.now
  right : t.rateLimiter.At s.now
  level : ∀ id n, Rated config id n → ∀ u, s.now ≤ u →
    RateLimiter.level id (.new n) s.rateLimiter u = RateLimiter.level id (.new n) t.rateLimiter u

/-- Everybody who authenticates is charged at a rate of its own. -/
def AllRated (config : ResolvedConfig) : Prop :=
  ∀ http caller, authenticate config.auth config.defaultRate http = .ok caller →
    ∃ n, caller.rate = .new n ∧ Rated config caller.id n

omit [Crates] in
theorem Alike.letIn_eq (h : s.Alike config t) (hall : AllRated config) (incoming : Incoming)
    (created : Instant) :
    s.letIn config incoming created = t.letIn config incoming created := by
  have hnow : t.now = s.now := congrArg (·.app.now) h.server.symm
  rw [letIn, letIn, layers_eq, layers_eq, hnow]
  cases hauth : authenticate config.auth config.defaultRate incoming.http with
  | error err => rfl
  | ok caller =>
    obtain ⟨n, hrate, hrated⟩ := hall _ _ hauth
    have hlevel := h.level caller.id n hrated s.now (Nat.le_refl _)
    dsimp only
    rw [hrate, RateLimiter.check_snd, RateLimiter.check_snd, hlevel]

/-- Time and the calls of the limiter leave its buckets in order. -/
theorem Trans.at {e : Event} (h : s.Trans config e s') {l : RateLimiter} (hat : l.At s.now)
    {op : Option RateLimiter.Op} (hop : ∀ o, op = some o → o.now = s.now) :
    (op.elim l l.step).At s'.now := by
  have hafter : (op.elim l l.step).At s.now := by
    cases op with
    | none => exact hat
    | some o =>
      have hnow : s.now ≤ o.now := Nat.le_of_eq (hop o rfl).symm
      have hstep := hat.step hnow
      rw [hop o rfl] at hstep
      exact hstep
  intro key bucket hbucket
  obtain ⟨htokens, hlast⟩ := hafter key bucket hbucket
  exact ⟨htokens, hlast.trans h.now_le⟩

/-- **Step lemma**: a refused request changes nothing that anybody could see. -/
theorem Alike.stay (h : s.Alike config t) {e : Event} (hrefused : s.refuses config e = true)
    (hstep : s.step config e = some s') : s'.Alike config t := by
  have htrans := step_cases hstep
  have hleft : s'.rateLimiter.At s'.now := by
    rw [htrans.rateLimiter]
    exact htrans.at h.left fun o => op_now
  cases htrans with
  | @answered incoming created _ _ =>
    refine ⟨h.server, hleft, h.right, ?_⟩
    intro id n hrated u hu
    rw [← h.level id n hrated u hu]
    show RateLimiter.level id (.new n) (s.limited config (.request incoming created)) u = _
    rw [limited, op]
    cases hauth : authenticate config.auth config.defaultRate incoming.http with
    | error err => rfl
    | ok caller =>
      show RateLimiter.level id (.new n)
        (s.rateLimiter.check caller.id caller.rate created s.now).1 u = _
      by_cases hid : id = caller.id
      · subst hid
        have hrate := hrated _ _ hauth rfl
        have hlow : RateLimiter.level caller.id (.new n) s.rateLimiter s.now < 1 := by
          by_contra hone
          rw [refuses, letIn, layers_eq, hauth] at hrefused
          dsimp only at hrefused
          rw [RateLimiter.check_snd, hrate, if_pos (not_lt.mp hone)] at hrefused
          cases hrefused
        rw [hrate]
        exact h.left.level_refused (Nat.le_refl _) hu hlow
      · exact RateLimiter.level_congr (RateLimiter.check_of_ne hid _ _ _ _) _ _
  | arrived _ hletIn _ =>
    rw [refuses, hletIn] at hrefused
    cases hrefused
  | prune _ => cases hrefused
  | inside _ _ => cases hrefused

/-- The calls of an event do the same to both limiters. -/
theorem Alike.level_limited (h : s.Alike config t) {e : Event} (htrans : s.Trans config e s')
    {id : String} {n : UInt32} (hrated : Rated config id n) {u : Instant} (hu : s.now ≤ u) :
    RateLimiter.level id (.new n) (s.limited config e) u =
      RateLimiter.level id (.new n) (t.limited config e) u := by
  have hnow : t.now = s.now := congrArg (·.app.now) h.server.symm
  have hlevel := h.level id n hrated
  cases e with
  | request incoming created =>
    rw [limited, limited, op, op, hnow]
    cases hauth : authenticate config.auth config.defaultRate incoming.http with
    | error err => exact hlevel u hu
    | ok caller =>
      show RateLimiter.level id (.new n)
          (s.rateLimiter.check caller.id caller.rate created s.now).1 u =
        RateLimiter.level id (.new n)
          (t.rateLimiter.check caller.id caller.rate created s.now).1 u
      by_cases hid : id = caller.id
      · -- both write what they had, and they had the same
        subst hid
        rw [hrated _ _ hauth rfl, RateLimiter.level_written (RateLimiter.check_fst ..),
          RateLimiter.level_written (RateLimiter.check_fst ..), hlevel s.now (Nat.le_refl _)]
      · rw [RateLimiter.level_congr (RateLimiter.check_of_ne hid s.rateLimiter _ _ _),
          RateLimiter.level_congr (RateLimiter.check_of_ne hid t.rateLimiter _ _ _)]
        exact hlevel u hu
  | prune read =>
    cases htrans with
    | prune hread =>
      show RateLimiter.level id (.new n) (s.rateLimiter.pruneIdle read) u =
        RateLimiter.level id (.new n) (t.rateLimiter.pruneIdle read) u
      rw [h.left.level_pruneIdle id n (Nat.le_trans hread hu),
        h.right.level_pruneIdle id n (Nat.le_trans hread hu)]
      exact hlevel u hu
  | inside a => exact hlevel u hu

/-- **Step lemma**: every other event does the same to both. -/
theorem Alike.follow (h : s.Alike config t) (hall : AllRated config) {e : Event}
    (hstep : s.step config e = some s') :
    ∃ t', t.step config e = some t' ∧ s'.Alike config t' := by
  have htrans := step_cases hstep
  have hsame := htrans.transfer h.server (h.letIn_eq hall)
  have hnow : t.now = s.now := congrArg (·.app.now) h.server.symm
  refine ⟨_, hsame.step_eq, rfl, ?_, ?_, ?_⟩
  · rw [htrans.rateLimiter]
    exact htrans.at h.left fun o => op_now
  · exact htrans.at h.right fun o ho => (op_now ho).trans hnow
  · intro id n hrated u hu
    rw [htrans.rateLimiter]
    exact h.level_limited htrans hrated (Nat.le_trans htrans.now_le hu)

end Service

/-! ## Sample requests -/

namespace Sample

/-- A request to compile nothing, with a bearer token. -/
def compiling (token : String) : Service.Event :=
  .request ⟨bearing token, some (.compile { code := "" })⟩ 0

/-- One client has a token, and may make one request a minute. -/
def tokens : Environment := environment [("MONTY_API_TOKENS", "alice:secret:1")]

/-- Somebody guesses; the client calls, calls again too soon, and once more after a minute. -/
def knocking : List Service.Event :=
  [compiling "guess", compiling "secret", compiling "secret", .inside (.tick 60000000000),
    compiling "secret"]

theorem rate_of_token {token : String} {principal : Principal} {defaultRate : RateRule}
    {http : HttpRequest} {caller : Caller}
    (h : authenticate (.Tokens [(token, principal)]) defaultRate http = .ok caller) :
    caller.rate = principal.rate := by
  obtain ⟨_, _, -, hprincipal, rfl⟩ := authenticate_ok_iff.mp h
  obtain ⟨e, he, rfl⟩ := Option.map_eq_some_iff.mp hprincipal
  rw [List.mem_singleton.mp (List.mem_of_find?_eq_some he)]

/-- What comes of the calls. -/
theorem knocking_run :
    ∃ (_ : Crates) (config : ResolvedConfig) (s : Service),
      ResolvedConfig.fromEnv tokens = .ok config ∧ Service.OneRate config ∧
      authenticate config.auth config.defaultRate (bearing "secret") = .ok ⟨"alice", .new 1⟩ ∧
      Run.exec (Service.step config) (.new config) knocking = some s ∧
      s.server.requests.length = 2 ∧ s.now = 60000000000 ∧
      (Run.erase (Service.step config) (Service.refuses config) (.new config) knocking).length =
        3 := by
  let _ := crates
  obtain ⟨config, hconfig, hauth⟩ : ∃ config, ResolvedConfig.fromEnv tokens = .ok config ∧
      config.auth = .Tokens [("secret", ⟨"alice", .new 1⟩)] := ⟨_, rfl, rfl⟩
  have hgoes : (ResolvedConfig.fromEnv tokens).toOption.any (fun c =>
      (Run.exec (Service.step c) (.new c) knocking).any fun s =>
        s.server.requests.length = 2 ∧ s.now = 60000000000 ∧
          (Run.erase (Service.step c) (Service.refuses c) (.new c) knocking).length = 3) =
        true := by
    decide +kernel
  rw [hconfig] at hgoes
  obtain ⟨_, hc, hgoes⟩ := (Option.any_eq_true _ _).mp hgoes
  cases hc
  obtain ⟨s, hrun, hs⟩ := (Option.any_eq_true _ _).mp hgoes
  refine ⟨crates, config, s, hconfig, ?_, ?_, hrun, of_decide_eq_true hs⟩
  · intro http http' caller caller' hcaller hcaller' _
    rw [hauth] at hcaller hcaller'
    rw [rate_of_token hcaller, rate_of_token hcaller']
  · rw [hauth]
    rfl

end Sample

/-- **Nothing is done or stored for anybody who has not authenticated.** In every state of the
service, what is behind the middleware is a state of the server; every request there, and every
session there has ever been, is of a caller whose id is a configured name, or the address of a
client if no tokens are configured. -/
theorem nothing_unauthenticated [Crates] {config : ResolvedConfig} {s : Service}
    (h : Service.Reachable config s) :
    s.server.Reachable config.toConfig ∧
      (∀ r ∈ s.server.requests, Service.Knows config r.caller) ∧
      ∀ id e, s.server.entry id = some e → Service.Knows config e.principal := by
  have wf := h.server.wf
  refine ⟨h.server, fun r hr => h.allKnown _ (Service.mem_callers hr), ?_⟩
  · -- a session belongs to the caller of the request that stored its latest step
    intro id e he
    obtain ⟨link, rest, htrail, -⟩ := (wf.head id).2 e he
    have hlink : link ∈ s.server.app.trail id := by
      rw [htrail]
      exact List.mem_cons_self
    obtain ⟨r, hr, -, e', he', hprincipal⟩ := wf.credited.request id link hlink
    cases he.symm.trans he'
    rw [hprincipal]
    exact h.allKnown _ (Service.mem_callers (List.mem_of_getElem? hr))

/-- Of three requests with the token and one without, the service lets in two, and knows whose they
are. -/
theorem nothing_unauthenticated_guess :
    ∃ (_ : Crates) (config : ResolvedConfig) (s : Service),
      ResolvedConfig.fromEnv Sample.tokens = .ok config ∧
      Run.exec (Service.step config) (.new config) Sample.knocking = some s ∧
      s.server.requests.length = 2 ∧ s.server.Reachable config.toConfig ∧
      (∀ r ∈ s.server.requests, Service.Knows config r.caller) ∧
      ∀ id e, s.server.entry id = some e → Service.Knows config e.principal := by
  obtain ⟨crates, config, s, hconfig, -, -, hrun, hlength, -⟩ := Sample.knocking_run
  exact ⟨crates, config, s, hconfig, hrun, hlength, nothing_unauthenticated ⟨_, hrun⟩⟩

/-- **No caller gets more requests in than its rate allows.** In any stretch of any run of a service
that is configured by the environment, with one rate for each name, a caller gets no more requests
behind the middleware than its burst and what its rate adds meanwhile; whatever the others send,
whatever is pruned and whatever happens behind the middleware. The limiter's `f64`s are taken as
exact rationals. -/
theorem requests_within_rate [Crates] {env : Environment} {config : ResolvedConfig}
    (henv : ResolvedConfig.fromEnv env = .ok config) (hone : Service.OneRate config)
    {s s' : Service} (h : Service.Reachable config s) {events : List Service.Event}
    (hrun : Run.exec (Service.step config) s events = some s') {http : HttpRequest}
    {caller : Caller}
    (hcaller : authenticate config.auth config.defaultRate http = .ok caller) :
    (s'.callers.count caller.id : Rat) ≤ s.callers.count caller.id + caller.rate.burst.toNat +
      Duration.asSecsF64 (s'.now - s.now) * caller.rate.perMinute.toNat / 60 := by
  obtain ⟨n, hrate⟩ := ResolvedConfig.fromEnv_rates henv hcaller
  have hrated := hone.rated hcaller hrate
  obtain ⟨hnow, hbounded, hfund⟩ := Service.fund_run hrated (h.bounded hrated) hrun
  have hfull := RateLimiter.level_le_capacity caller.id (.new n) s.rateLimiter s.now
  have hleft := RateLimiter.level_nonneg hbounded s'.now
  rw [Service.fund, Service.fund, ← Duration.asSecsF64_sub hnow] at hfund
  calc (s'.callers.count caller.id : Rat)
      ≤ s.callers.count caller.id + (RateRule.new n).capacity +
        Duration.asSecsF64 (s'.now - s.now) * (RateRule.new n).refillPerSec := by linarith
    _ = s.callers.count caller.id + caller.rate.burst.toNat +
        Duration.asSecsF64 (s'.now - s.now) * caller.rate.perMinute.toNat / 60 := by
      rw [hrate, RateRule.capacity, RateRule.refillPerSec, mul_div_assoc]

/-- One of the two requests is the burst, and the other the minute's. -/
theorem requests_within_rate_minute :
    ∃ (_ : Crates) (config : ResolvedConfig) (s : Service),
      ResolvedConfig.fromEnv Sample.tokens = .ok config ∧
      Run.exec (Service.step config) (.new config) Sample.knocking = some s ∧
      s.server.requests.length = 2 ∧ s.now = 60000000000 ∧
      (s.callers.count "alice" : Rat) ≤ (Service.new config).callers.count "alice" +
        (RateRule.new 1).burst.toNat + Duration.asSecsF64 (s.now - (Service.new config).now) *
          (RateRule.new 1).perMinute.toNat / 60 := by
  obtain ⟨crates, config, s, hconfig, hone, hcaller, hrun, hlength, hnow, -⟩ := Sample.knocking_run
  have hnew : Service.Reachable config (.new config) := ⟨[], rfl⟩
  have hwithin := requests_within_rate hconfig hone hnew hrun hcaller
  exact ⟨crates, config, s, hconfig, hrun, hlength, hnow, hwithin⟩

/-- **A refused request leaves no trace.** Take any run of a service that is configured by the
environment, with one rate for each name, and leave out every request that is refused, for its
token or for its rate. What is left is a run too; it leads to the same server, with the same
sessions and the same answers, and to a limiter that answers every request alike. The limiter's
`f64`s are taken as exact rationals: a refused check refills its bucket, and a refill in two parts
may round differently from one. -/
theorem refused_invisible [Crates] {env : Environment} {config : ResolvedConfig}
    (henv : ResolvedConfig.fromEnv env = .ok config) (hone : Service.OneRate config)
    {events : List Service.Event} {s : Service}
    (hrun : Run.exec (Service.step config) (.new config) events = some s) :
    ∃ t, Run.exec (Service.step config) (.new config)
        (Run.erase (Service.step config) (Service.refuses config) (.new config) events) = some t ∧
      t.server = s.server ∧
      ∀ incoming created, t.letIn config incoming created = s.letIn config incoming created := by
  have hall : Service.AllRated config := by
    intro http caller hcaller
    obtain ⟨n, hrate⟩ := ResolvedConfig.fromEnv_rates henv hcaller
    exact ⟨n, hrate, hone.rated hcaller hrate⟩
  have hnew : (Service.new config).Alike config (.new config) :=
    ⟨rfl, RateLimiter.at_new _, RateLimiter.at_new _, fun _ _ _ _ _ => rfl⟩
  obtain ⟨t, ht, halike⟩ := Run.exec_erase
    (fun _ _ _ _ halike hrefused hstep => halike.stay hrefused hstep)
    (fun _ _ _ _ halike _ hstep => halike.follow hall hstep) hnew hrun
  exact ⟨t, ht, halike.server.symm,
    fun incoming created => (halike.letIn_eq hall incoming created).symm⟩

/-- The guess and the call that comes too soon are left out. -/
theorem refused_invisible_calls :
    ∃ (_ : Crates) (config : ResolvedConfig) (s t : Service) (heard : List Service.Event),
      ResolvedConfig.fromEnv Sample.tokens = .ok config ∧
      Run.exec (Service.step config) (.new config) Sample.knocking = some s ∧ heard.length = 3 ∧
      Run.exec (Service.step config) (.new config) heard = some t ∧ t.server = s.server ∧
      ∀ incoming created, t.letIn config incoming created = s.letIn config incoming created := by
  obtain ⟨crates, config, s, hconfig, hone, -, hrun, -, -, hlength⟩ := Sample.knocking_run
  obtain ⟨t, ht, hserver, hletIn⟩ := refused_invisible hconfig hone hrun
  exact ⟨crates, config, s, t, _, hconfig, hrun, hlength, ht, hserver, hletIn⟩

end MontyServer
