import MontyServer.Departures
import MontyServer.History
import MontyServer.Life
import MontyServer.Startup

/-!
# Where sessions come from

A session starts with the program that the request that created it asked for, under the limits that
request gets and with its time-to-live (`Server.Founded`), and every further step is a resume of
what the step before has left. So whatever else the server does, the steps a session has stored are,
one after the other, one `Life` of that program (`sessions_are_lives`): what is proved of a life, of
its limits and of its time, is true of every session of the server. In particular the counters shown
with one step are never below those shown with the step before, and the memory never above its limit
(`shown_stats_grow`).
-/

namespace MontyServer

variable [Crates]

/-! ## What a create carries -/

/-- The tracker and the step come from starting what the request asks for, under the limits it
gets. -/
def CreateSessionRequest.Starts (request : CreateSessionRequest) (config : Config)
    (tracker : StatsTracker) (step : SessionStep) : Prop :=
  ∃ (spec : SourceSpec) (entered : Instant) (lag : Lag) (ended : Instant),
    request.source.intoSpec = .ok spec ∧
      spec.start (resolveLimits request.source.limits config.limits) entered lag =
        (some (.Started tracker step), ended)

/-- What a create has in hand is its own: the time-to-live and the limits are those its request
gets, the work is what its request asks for, and what came of the work is a start of it. -/
def Create.Own (config : Config) (request : CreateSessionRequest) : Create → Prop
  | .executing ttl limits spawn =>
    ttl = resolveTtl request.ttlSeconds config.sessions ∧
      limits = resolveLimits request.source.limits config.limits ∧
      (∀ spec awaited, spawn.work = some (spec, awaited) → request.source.intoSpec = .ok spec) ∧
      ∀ tracker step, spawn = .finished (some (.Started tracker step)) →
        request.Starts config tracker step
  | .checked ttl tracker step =>
    ttl = resolveTtl request.ttlSeconds config.sessions ∧ request.Starts config tracker step
  | _ => True

/-- **Step lemma**: a create goes on with what is its own. -/
theorem Create.Own.step {config : Config} {app app' : AppState} {i : RequestId} {caller : String}
    {request : CreateSessionRequest} {m : Move} {phase phase' : Create}
    (hown : phase.Own config request) (hconfig : app.config = config)
    (h : phase.step app i caller request m = some (app', phase')) :
    phase'.Own config request := by
  unfold Create.step at h
  split at h
  · unfold advance at h
    split at h
    · cases h
      split
      · trivial
      · next spec hspec =>
        rw [hconfig]
        refine ⟨rfl, rfl, ?_, ?_⟩
        · intro spec' awaited hwork
          cases hwork
          exact hspec
        · intro tracker step hstarted
          cases hstarted
    · cases h; trivial
    · cases h; trivial
    · cases h
      split
      · obtain ⟨httl, -, -, hstarts⟩ := hown
        exact ⟨httl, hstarts _ _ rfl⟩
      · trivial
    · cases h
      split <;> trivial
    · obtain ⟨e, -, h⟩ := Option.bind_eq_some_iff.mp h
      cases h
      trivial
    · cases h
  · unfold insert at h
    split at h
    · split at h <;> cases h
      trivial
    · cases h
  · cases h; trivial
  · -- `finish`: the work returns
    obtain ⟨⟨free, spawn'⟩, hfinish, h⟩ := Option.bind_eq_some_iff.mp h
    cases h
    obtain ⟨httl, hlimits, hwork, -⟩ := hown
    obtain ⟨spec, since, awaited, result, ended, rfl, hrun, -, -, rfl⟩ :=
      Spawn.finish_cases hfinish
    refine ⟨httl, hlimits, ?_, ?_⟩
    · intro spec' awaited' hnone
      cases awaited <;> cases hnone
    · intro tracker step hstarted
      cases awaited with
      | false => cases hstarted
      | true =>
        cases hstarted
        exact ⟨spec, _, _, ended, hwork spec true rfl, hlimits ▸ hrun⟩
  · obtain ⟨⟨free, spawn'⟩, hmove, h⟩ := Option.bind_eq_some_iff.mp h
    cases h
    obtain ⟨httl, hlimits, hwork, -⟩ := hown
    refine ⟨httl, hlimits, ?_, ?_⟩
    · intro spec awaited hwork'
      cases Spawn.move_cases hmove with
      | wait _ hbefore hafter =>
        cases hwork'.symm.trans hafter
        exact hwork spec awaited hbefore
      | leave _ hbefore hafter =>
        cases hwork'.symm.trans hafter
        exact hwork spec true hbefore
      | gone _ _ hafter => rcases hafter with rfl | rfl <;> cases hwork'
    · intro tracker step hstarted
      subst hstarted
      cases Spawn.move_cases hmove with
      | wait _ _ hafter => cases hafter
      | leave _ _ hafter => cases hafter
      | gone _ _ hafter => rcases hafter with hafter | hafter <;> cases hafter
  · cases h

namespace Server

variable {s s' : Server} {a : Action} {config : Config}

/-- A create stays the create it is. -/
theorem create_after (h : s.step a = some s') {i : RequestId} {caller : String}
    {request : CreateSessionRequest} {phase : Create}
    (hr : s.requests[i]? = some ⟨caller, .create request phase⟩) :
    ∃ phase', s'.requests[i]? = some ⟨caller, .create request phase'⟩ := by
  cases a with
  | move j m =>
    obtain ⟨r, hr₀, h⟩ := Option.bind_eq_some_iff.mp h
    obtain ⟨⟨app, handler⟩, hstep, h⟩ := Option.bind_eq_some_iff.mp h
    cases h
    by_cases hj : i = j
    · subst hj
      cases hr.symm.trans hr₀
      obtain ⟨⟨app', phase'⟩, -, hstep⟩ := Option.bind_eq_some_iff.mp hstep
      cases hstep
      exact ⟨phase', (advanced_request hr).mpr (.inl ⟨rfl, rfl⟩)⟩
    · exact ⟨phase, (advanced_request hr₀).mpr (.inr ⟨hj, hr⟩)⟩
  | arrive caller' call =>
    cases h
    exact ⟨phase, arrived_request.mpr (.inl hr)⟩
  | tick d =>
    cases h
    exact ⟨phase, hr⟩
  | collect =>
    rw [step] at h
    split at h <;> cases h
    exact ⟨phase, hr⟩
  | evict =>
    rw [step] at h
    split at h <;> cases h
    exact ⟨phase, hr⟩

/-- **What an insertion is**: a create that has passed the length check stores what it has. -/
theorem step_insert {i : RequestId} {id : Uuid} (h : s.step (.move i (.insert id)) = some s') :
    ∃ caller request ttl tracker step,
      s.requests[i]? = some ⟨caller, .create request (.checked ttl tracker step)⟩ ∧
      s.entry id = none ∧
      s' = s.advanced ((s.app.insert id (.new caller ttl tracker step s.app.now)).extend id
        ⟨i, none, step, tracker⟩) i ⟨caller, .create request (.inserted id)⟩ := by
  obtain ⟨⟨caller, handler⟩, hr, h⟩ := Option.bind_eq_some_iff.mp h
  obtain ⟨⟨app, handler'⟩, hstep, h⟩ := Option.bind_eq_some_iff.mp h
  cases h
  cases handler with
  | create request phase =>
    obtain ⟨⟨app', phase'⟩, hphase, hstep⟩ := Option.bind_eq_some_iff.mp hstep
    cases hstep
    simp only [Create.step, Create.insert] at hphase
    split at hphase
    · split at hphase
      · cases hphase
      · next hnone =>
        cases hphase
        exact ⟨caller, request, _, _, _, hr, hnone, rfl⟩
    · cases hphase
  | resume id' body phase => cases phase <;> simp [Handler.step, Resume.step, Spawn.move] at hstep
  | status id' phase => cases phase <;> simp [Handler.step, Status.step] at hstep
  | delete id' phase => cases phase <;> simp [Handler.step, Delete.step] at hstep
  | run fields phase =>
    cases phase <;> simp [Handler.step, RunCode.step, Stateless.step, Spawn.move] at hstep
  | compile request phase =>
    cases phase <;> simp [Handler.step, CompileCode.step, Stateless.step, Spawn.move] at hstep

/-! ## Foundations -/

omit [Crates] in
/-- The oldest of what came first is the oldest of all. -/
theorem getLast?_of_suffix {α : Type} {l l' : List α} {x : α} (h : l <:+ l')
    (hx : l.getLast? = some x) : l'.getLast? = some x := by
  obtain ⟨rest, rfl⟩ := h
  rw [List.getLast?_append, hx, Option.some_or]

/-- The first step of session `id` was stored by a create of its owner: it is a start of what that
request asked for, and the session has the time-to-live the request gets. -/
def FoundedBy (config : Config) (s : Server) (id : Uuid) (e : SessionEntry)
    (request : CreateSessionRequest) : Prop :=
  ∃ link phase, (s.app.trail id).getLast? = some link ∧
    s.requests[link.request]? = some ⟨e.principal, .create request phase⟩ ∧
    e.ttl = resolveTtl request.ttlSeconds config.sessions ∧
    request.Starts config link.tracker link.step

/-- Every create goes on with its own, and every session is founded. -/
structure Founded (config : Config) (s : Server) : Prop where
  own : ∀ (i : RequestId) (caller : String) (request : CreateSessionRequest) (phase : Create),
    s.requests[i]? = some ⟨caller, .create request phase⟩ → phase.Own config request
  session : ∀ id e, s.entry id = some e → ∃ request, s.FoundedBy config id e request

theorem Founded.new (config : Config) : (Server.new config).Founded config where
  own i caller request phase hr := by simp [Server.new] at hr
  session id e he := by cases he

theorem Founded.step (founded : s.Founded config) (wf : s.Wf) (hconfig : s.app.config = config)
    (h : s.step a = some s') : s'.Founded config where
  own i caller request phase hr' := by
    rcases create_before h hr' with hr | rfl | ⟨m, before, -, hr, hstep⟩
    · exact founded.own i caller request phase hr
    · trivial
    · exact (founded.own i caller request before hr).step hconfig hstep
  session id e' he' := by
    cases he : s.entry id with
    | some e =>
      obtain ⟨request, link, phase, hlast, hr, httl, hstarts⟩ := founded.session id e he
      have hgrows := (step_cases h).grows
      obtain ⟨e₁, he₁, hprincipal, httl'⟩ := hgrows.entry id e he
      cases he'.symm.trans he₁
      obtain ⟨phase', hr'⟩ := create_after h hr
      refine ⟨request, link, phase', getLast?_of_suffix (hgrows.trail id) hlast, ?_, ?_, hstarts⟩
      · rw [hprincipal]
        exact hr'
      · rw [httl']
        exact httl
    | none =>
      rcases (step_cases h).entry_new he with hnone | ⟨i, rfl⟩
      · cases hnone.symm.trans he'
      · -- the first step is the one that the create has
        obtain ⟨caller, request, ttl, tracker, step, hr, -, rfl⟩ := step_insert h
        obtain ⟨httl, hstarts⟩ := founded.own i caller request _ hr
        have heq : SessionEntry.new caller ttl tracker step s.app.now = e' := by
          simpa [entry] using he'
        subst heq
        have htrail : s.app.trail id = [] := (wf.head id).1 he
        refine ⟨request, ⟨i, none, step, tracker⟩, .inserted id, ?_, ?_, httl, hstarts⟩
        · simp [htrail]
        · exact (advanced_request hr).mpr (.inl ⟨rfl, rfl⟩)

/-- **Run lemma**: every session there is has been founded by a create. -/
theorem Reachable.founded (h : s.Reachable config) : s.Founded config := by
  have hboth : s.Founded config ∧ s.Wf ∧ s.Resolved config :=
    Run.Reachable.invariant (I := fun s : Server => s.Founded config ∧ s.Wf ∧ s.Resolved config)
      (fun _ _ _ ⟨founded, wf, resolved⟩ hstep =>
        ⟨founded.step wf resolved.fixed hstep, wf.step hstep, resolved.step hstep⟩)
      ⟨.new config, .new config, .new config⟩ h
  exact hboth.1

end Server

/-! ## Lives -/

/-- The program a request to create a session asks for, with its inputs. -/
def CreateSessionRequest.Asks (request : CreateSessionRequest) (run : MontyRun)
    (inputs : List MontyObject) : Prop :=
  ∃ spec, request.source.intoSpec = .ok spec ∧ spec.program = .ok (run, inputs)

/-- What a create carries comes from starting the program it asks for. -/
theorem CreateSessionRequest.Starts.session {config : Config} {request : CreateSessionRequest}
    {tracker : StatsTracker} {step : SessionStep} (h : request.Starts config tracker step) :
    ∃ run inputs born lag w, request.Asks run inputs ∧
      startSession run inputs (resolveLimits request.source.limits config.limits) born lag =
        (some step, w) ∧
      tracker = w.tracker := by
  obtain ⟨spec, entered, lag, ended, hspec, hstart⟩ := h
  unfold SourceSpec.start at hstart
  split at hstart
  · cases hstart
  · next run inputs hprogram =>
    cases hsession : startSession run inputs
        (resolveLimits request.source.limits config.limits) entered lag with
    | mk result w =>
      rw [hsession] at hstart
      cases result with
      | none => cases hstart
      | some step' =>
        cases hstart
        exact ⟨run, inputs, entered, lag, w, ⟨spec, hspec, hprogram⟩, hsession, rfl⟩

/-- `Lived run inputs limits born events history`: the history, newest step first, is one life of
the program, and `events` are all its tracker events. Its oldest step is what starting the program
has given; every other is what resuming the step right before it has given, with the progress and
the tracker that step has left. -/
inductive Lived (run : MontyRun) (inputs : List MontyObject) (limits : ResolvedLimits)
    (born : Instant) : List TrackerEvent → List Link → Prop
  | start {request : RequestId} {step : SessionStep} {lag : Lag} {w : World} :
    startSession run inputs limits born lag = (some step, w) →
    Lived run inputs limits born w.events [⟨request, none, step, w.tracker⟩]
  | resume {events : List TrackerEvent} {before : Link} {history : List Link}
    {progress : RunProgress} {output : Output} {stats : ExecStats} {request : RequestId}
    {input : ResumeInput} {now : Instant} {lag : Lag} {step : SessionStep} {w : World} :
    Lived run inputs limits born events (before :: history) →
    before.step = .Paused progress output stats →
    resumeSession progress before.tracker input now lag = (some (.Stepped step), w) →
    Lived run inputs limits born (events ++ w.events)
      (⟨request, some input, step, w.tracker⟩ :: before :: history)

section Lived

variable {run : MontyRun} {inputs : List MontyObject} {limits : ResolvedLimits} {born : Instant}
  {events : List TrackerEvent} {link link' : Link} {history : List Link}

omit [Crates] in
/-- The newest step of a history is where its life stands. -/
theorem Lived.life (lived : Lived run inputs limits born events (link :: history)) :
    Life run inputs limits born events link.tracker (some link.step) := by
  generalize hall : link :: history = all at lived
  induction lived generalizing link history with
  | start hstart =>
    cases hall
    exact .start hstart
  | @resume events before older progress output stats request input now lag step w _ hpaused
      hresume ih =>
    cases hall
    have life := ih rfl
    rw [hpaused] at life
    exact life.resume hresume

omit [Crates] in
/-- What came first in a history that is one life is a life. -/
theorem Lived.of_suffix {older : List Link} (lived : Lived run inputs limits born events history)
    (hsuffix : link :: older <:+ history) :
    ∃ events', Lived run inputs limits born events' (link :: older) := by
  induction lived with
  | start hstart =>
    rcases List.suffix_cons_iff.mp hsuffix with heq | hnil
    · rw [heq]
      exact ⟨_, .start hstart⟩
    · cases List.suffix_nil.mp hnil
  | resume lived hpaused hresume ih =>
    rcases List.suffix_cons_iff.mp hsuffix with heq | hrest
    · rw [heq]
      exact ⟨_, .resume lived hpaused hresume⟩
    · exact ih hrest

/-- A step leaves the tracker it was made with. -/
theorem next_tracker {token : Token} (h : rules.next link = some token) :
    token.2 = link.tracker := by
  obtain ⟨request, input, step, tracker⟩ := link
  cases step with
  | Paused progress output stats => cases h; rfl
  | _ => cases h

/-- What follows from the progress a step has left goes on with its life. -/
theorem Lived.follow (lived : Lived run inputs limits born events (link' :: history))
    {token : Token} (hnext : rules.next link' = some token)
    (hfollows : rules.Follows token link) :
    ∃ events', Lived run inputs limits born events' (link :: link' :: history) := by
  obtain ⟨input, now, lag, w, hinput, hresume, htracker⟩ := hfollows
  obtain ⟨request, input', step, tracker⟩ := link
  cases hinput
  cases htracker
  cases hpaused : link'.step with
  | Paused progress output stats =>
    have htoken : some (progress, link'.tracker) = some token := by
      rw [← hnext]
      simp only [rules, hpaused]
    cases htoken
    exact ⟨_, lived.resume hpaused hresume⟩
  | _ => simp only [rules, hpaused, reduceCtorEq] at hnext

/-- **A linked history is one life**: its oldest step is a start, and each later one is a resume of
the step right before it. -/
theorem lived_of_linked {first : Link} (hlinked : rules.Linked history)
    (hfirst : history.getLast? = some first) {lag : Lag} {w : World}
    (hstart : startSession run inputs limits born lag = (some first.step, w))
    (htracker : first.tracker = w.tracker) :
    ∃ events, Lived run inputs limits born events history := by
  induction history with
  | nil => cases hfirst
  | cons link rest ih =>
    cases rest with
    | nil =>
      cases hfirst
      obtain ⟨hinput, -⟩ := hlinked
      obtain ⟨request, input, step, tracker⟩ := link
      cases hinput
      cases htracker
      exact ⟨w.events, .start hstart⟩
    | cons link' rest =>
      obtain ⟨⟨token, hnext, hfollows⟩, hlinked'⟩ := hlinked
      rw [List.getLast?_cons_cons] at hfirst
      obtain ⟨events, lived⟩ := ih hlinked' hfirst
      exact lived.follow hnext hfollows

end Lived

/-- The history of every session is one life of what the request that created it asks for. -/
theorem Server.Reachable.lives {config : Config} {s : Server} (h : s.Reachable config) {id : Uuid}
    {e : SessionEntry} (he : s.entry id = some e) :
    ∃ (request : CreateSessionRequest) (run : MontyRun) (inputs : List MontyObject)
      (born : Instant) (events : List TrackerEvent),
      s.FoundedBy config id e request ∧ request.Asks run inputs ∧
      Lived run inputs (resolveLimits request.source.limits config.limits) born events
        (s.app.trail id) := by
  obtain ⟨request, hfounded⟩ := h.founded.session id e he
  obtain ⟨first, phase, hfirst, hr, httl, hstarts⟩ := hfounded
  obtain ⟨run, inputs, born, lag, w, hasks, hstart, htracker⟩ := hstarts.session
  obtain ⟨events, lived⟩ :=
    lived_of_linked (h.wf.linearHistory id).linked hfirst hstart htracker
  exact ⟨request, run, inputs, born, events, ⟨first, phase, hfirst, hr, httl, hstarts⟩, hasks,
    lived⟩

namespace Sample

/-- An execution that allocates first. -/
def allocating (size : Usize) (rest : Execution RunProgress) : Execution RunProgress :=
  .call (.onAllocate size) fun _ => rest

/-- `try: x` and `except NameError: y` again, with what it allocates in each segment. -/
def allocatingRun : MontyRun where
  run := fun _ => .raise (.new ⟨"NameError"⟩ (some "name 'y' is not defined"))
  start := fun _ => allocating 64 <| .ret <| .NameLookup "x" fun _ =>
    allocating 32 <| .ret <| .NameLookup "y" fun _ =>
      allocating 16 <| .raise (.new ⟨"NameError"⟩ (some "name 'y' is not defined"))

@[reducible] def allocatingCrates : Crates where
  __ := crates
  compile := fun _ _ _ => .ok allocatingRun

/-- Session 7 is created, and resumed twice. -/
def resumedTwice : List Action := opening ++ resuming 1 ++ resuming 2

omit [Crates] in
/-- Its three steps show what has been allocated up to each. -/
theorem resumedTwice_run : ∃ (_ : Crates) (s : Server) (e : SessionEntry),
    Run.exec Server.step (.new config) resumedTwice = some s ∧ s.entry 7 = some e ∧
      (s.app.trail 7).map (fun link =>
        (link.step.stats.allocations, link.step.stats.peakMemoryBytes)) =
          [(3, 112), (2, 96), (1, 64)] := by
  let _ := allocatingCrates
  have hrun : (Run.exec Server.step (.new config) resumedTwice).any (fun s =>
      (s.entry 7).isSome && (s.app.trail 7).map (fun link =>
        (link.step.stats.allocations, link.step.stats.peakMemoryBytes)) =
          [(3, 112), (2, 96), (1, 64)]) = true := by
    decide
  obtain ⟨s, hs, hafter⟩ := (Option.any_eq_true _ _).mp hrun
  obtain ⟨hentry, hcounters⟩ := (Bool.and_eq_true _ _).mp hafter
  obtain ⟨e, he⟩ := Option.isSome_iff_exists.mp hentry
  exact ⟨allocatingCrates, s, e, hs, he, of_decide_eq_true hcounters⟩

end Sample

omit [Crates] in
/-- The counters have only grown from `t` to `t'`. -/
structure StatsTracker.Grown (t t' : StatsTracker) : Prop where
  allocations : t.allocations ≤ t'.allocations
  peakMemory : t.peakMemory ≤ t'.peakMemory

omit [Crates] in
/-- The counters that are shown are within their limits. -/
structure StatsTracker.Bounded (limits : ResolvedLimits) (t : StatsTracker) : Prop where
  capped : t.Capped limits
  allocations_le : t.allocations ≤ limits.maxAllocations
  peakMemory_le : t.peakMemory ≤ limits.maxMemoryBytes

namespace StatsTracker

omit [Crates]

variable {limits : ResolvedLimits} {t t' t'' : StatsTracker}

theorem Grown.refl (t : StatsTracker) : t.Grown t :=
  ⟨UInt64.le_refl _, UInt64.le_refl _⟩

theorem Grown.trans (h : t.Grown t') (h' : t'.Grown t'') : t.Grown t'' :=
  ⟨UInt64.le_trans h.allocations h'.allocations, UInt64.le_trans h.peakMemory h'.peakMemory⟩

theorem grown_storeMemory (t : StatsTracker) (newMemory : Usize) :
    t.peakMemory ≤ (t.storeMemory newMemory).peakMemory := by
  show t.peakMemory ≤ max t.peakMemory newMemory
  grind [UInt64.le_iff_toNat_le, toNat_max]

theorem storeMemory_le {newMemory max : Usize} (hpeak : t.peakMemory ≤ max)
    (hnew : newMemory ≤ max) : (t.storeMemory newMemory).peakMemory ≤ max := by
  show Max.max t.peakMemory newMemory ≤ max
  grind [UInt64.le_iff_toNat_le, toNat_max]

/-- **Step lemma**: an event leaves the counters within their limits and never lowers them. The
count cannot wrap, since it is only raised below its limit. -/
theorem Bounded.handle (h : t.Bounded limits) (e : TrackerEvent) :
    (t.handle e).1.Bounded limits ∧ t.Grown (t.handle e).1 := by
  have hcapped := h.capped.handle e
  have heff := t.handle_effect e
  generalize t.handle e = r at heff hcapped
  obtain ⟨hold, halloc, hpeak⟩ := h
  cases heff with
  | refused _ count err =>
    refine ⟨⟨hcapped, ?_, ?_⟩, ?_, ?_⟩
    · simpa [withCounter] using halloc
    · simpa [withCounter] using hpeak
    · simp [withCounter]
    · simp [withCounter]
  | allocated now size hcount hfits =>
    have hlt := UInt64.lt_iff_toNat_lt.mp (hcount _ hold.maxAllocations)
    have hsucc : (t.allocations + 1).toNat = t.allocations.toNat + 1 := by
      apply toNat_add_of_fits
      have := limits.maxAllocations.toNat_lt
      simp only [UInt64.size, UInt64.toNat_one]
      omega
    refine ⟨⟨hcapped, ?_, storeMemory_le hpeak (hfits _ hold.maxMemory)⟩, ?_,
      grown_storeMemory _ _⟩
    · show t.allocations + 1 ≤ limits.maxAllocations
      rw [UInt64.le_iff_toNat_le, hsucc]
      exact hlt
    · show t.allocations ≤ t.allocations + 1
      rw [UInt64.le_iff_toNat_le, hsucc]
      exact Nat.le_succ _
  | grown now additionalBytes hfits =>
    exact ⟨⟨hcapped, halloc, storeMemory_le hpeak (hfits _ hold.maxMemory)⟩, UInt64.le_refl _,
      grown_storeMemory _ _⟩
  | _ => exact ⟨⟨hcapped, halloc, hpeak⟩, UInt64.le_refl _, UInt64.le_refl _⟩

theorem bounded_new (limits : ResolvedLimits) (now : Instant) :
    (new limits now).Bounded limits :=
  ⟨capped_replay limits now [], UInt64.le_iff_toNat_le.mpr (Nat.zero_le _),
    UInt64.le_iff_toNat_le.mpr (Nat.zero_le _)⟩

/-- **Run lemma**: so does a whole history. -/
theorem Bounded.replay (h : t.Bounded limits) (events : List TrackerEvent) :
    (t.replay events).Bounded limits ∧ t.Grown (t.replay events) := by
  induction events generalizing t with
  | nil => exact ⟨h, .refl t⟩
  | cons e events ih =>
    obtain ⟨hbounded, hgrown⟩ := h.handle e
    obtain ⟨hbounded', hgrown'⟩ := ih hbounded
    exact ⟨hbounded', hgrown.trans hgrown'⟩

end StatsTracker

/-- The counters a step shows are the tracker's. -/
def SessionStep.Reads (step : SessionStep) (t : StatsTracker) : Prop :=
  step.stats.allocations = t.allocations ∧ step.stats.peakMemoryBytes = t.peakMemory

omit [Crates] in
theorem finishStep_reads (settled : Except MontyException RunProgress) (w : World) :
    (finishStep settled w).Reads w.tracker := by
  unfold SessionStep.Reads
  rw [finishStep_stats]
  exact ⟨rfl, rfl⟩

omit [Crates] in
theorem Life.reads {run : MontyRun} {inputs : List MontyObject} {limits : ResolvedLimits}
    {born : Instant} {events : List TrackerEvent} {tracker : StatsTracker} {step : SessionStep}
    (life : Life run inputs limits born events tracker (some step)) : step.Reads tracker := by
  have htrivial : World.Kept fun _ => True := ⟨fun _ _ => trivial, fun _ _ => trivial,
    fun _ _ _ => trivial⟩
  generalize hcurrent : some step = current at life
  induction life generalizing step with
  | start h =>
    subst hcurrent
    rcases startSession_kept htrivial trivial h with ⟨hnone, -⟩ | ⟨settled, w', hstep, -, -⟩
    · cases hnone
    · cases hstep
      exact finishStep_reads settled _
  | resume _ h ih =>
    rcases resumeSession_kept htrivial trivial h with
      ⟨error, rfl, rfl⟩ | ⟨rfl, -⟩ | ⟨settled, w', rfl, -, -⟩
    · exact ih hcurrent
    · cases hcurrent
    · cases hcurrent
      exact finishStep_reads settled _

/-- **What a client is shown only grows.** In every state of the server, of every session there is:
over all the steps it has stored, however the requests to it and to others interleave, a later step
never shows fewer allocations or a lower memory peak than an earlier one, and none shows more of
either than the limits which the request that created the session gets. -/
theorem shown_stats_grow {config : Config} {s : Server} (h : s.Reachable config) {id : Uuid}
    {e : SessionEntry} (he : s.entry id = some e) :
    ∃ request, s.FoundedBy config id e request ∧
      (∀ link ∈ s.app.trail id,
        link.step.stats.allocations ≤
          (resolveLimits request.source.limits config.limits).maxAllocations ∧
        link.step.stats.peakMemoryBytes ≤
          (resolveLimits request.source.limits config.limits).maxMemoryBytes) ∧
      (s.app.trail id).Pairwise fun later earlier =>
        earlier.step.stats.allocations ≤ later.step.stats.allocations ∧
        earlier.step.stats.peakMemoryBytes ≤ later.step.stats.peakMemoryBytes := by
  obtain ⟨request, run, inputs, born, events, hfounded, -, lived⟩ := h.lives he
  -- a life's tracker is within its limits and shown with its step
  have hbounded : ∀ link rest, link :: rest <:+ s.app.trail id →
      link.tracker.Bounded (resolveLimits request.source.limits config.limits) ∧
        link.step.Reads link.tracker := by
    intro link rest hsuffix
    obtain ⟨events', lived'⟩ := lived.of_suffix hsuffix
    have life := lived'.life
    rw [life.replay]
    exact ⟨((StatsTracker.bounded_new _ _).replay events').1, life.replay ▸ life.reads⟩
  refine ⟨request, hfounded, ?_, ?_⟩
  · intro link hlink
    obtain ⟨newer, rest, htrail⟩ := List.append_of_mem hlink
    obtain ⟨hbound, halloc, hpeak⟩ := hbounded link rest ⟨newer, htrail.symm⟩
    rw [halloc, hpeak]
    exact ⟨hbound.allocations_le, hbound.peakMemory_le⟩
  · refine rules.pairwise_of_linked ?_ (h.wf.linearHistory id).linked ?_
    · rintro a b c ⟨hab, hab'⟩ ⟨hbc, hbc'⟩
      exact ⟨UInt64.le_trans hbc hab, UInt64.le_trans hbc' hab'⟩
    · intro link link' rest token hsuffix hnext hfollows
      obtain ⟨-, halloc, hpeak⟩ := hbounded link _ hsuffix
      obtain ⟨hbound, halloc', hpeak'⟩ :=
        hbounded link' rest ((List.suffix_cons link _).trans hsuffix)
      obtain ⟨input, now, lag, w, -, hresume, htracker⟩ := hfollows
      have hgrown : link'.tracker.Grown link.tracker := by
        rw [htracker, ← next_tracker hnext, resumeSession_logged hresume, next_tracker hnext]
        exact (hbound.replay w.events).2
      rw [halloc, hpeak, halloc', hpeak']
      exact ⟨hgrown.allocations, hgrown.peakMemory⟩

omit [Crates] in
/-- The three steps of session 7, each of which allocates. -/
theorem shown_stats_grow_resumed :
    ∃ (_ : Crates) (s : Server) (e : SessionEntry),
      Run.exec Server.step (.new Sample.config) Sample.resumedTwice = some s ∧
      s.entry 7 = some e ∧
      (s.app.trail 7).map (fun link =>
        (link.step.stats.allocations, link.step.stats.peakMemoryBytes)) =
          [(3, 112), (2, 96), (1, 64)] ∧
      ∃ request, s.FoundedBy Sample.config 7 e request ∧
        (∀ link ∈ s.app.trail 7,
          link.step.stats.allocations ≤
            (resolveLimits request.source.limits Sample.config.limits).maxAllocations ∧
          link.step.stats.peakMemoryBytes ≤
            (resolveLimits request.source.limits Sample.config.limits).maxMemoryBytes) ∧
        (s.app.trail 7).Pairwise fun later earlier =>
          earlier.step.stats.allocations ≤ later.step.stats.allocations ∧
          earlier.step.stats.peakMemoryBytes ≤ later.step.stats.peakMemoryBytes := by
  obtain ⟨crates, s, e, hs, he, hcounters⟩ := Sample.resumedTwice_run
  have hreachable : s.Reachable Sample.config := ⟨_, hs⟩
  exact ⟨crates, s, e, hs, he, hcounters, shown_stats_grow hreachable he⟩

end MontyServer
