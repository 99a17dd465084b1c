import MontyServer.Accounts
import MontyServer.Api.Sessions

/-!
# The life of one execution

A session is one `startSession` and then any number of `resumeSession`s, each on the progress and
the tracker the step before it left; `/v1/run` is a life of a single segment. Every tracker event of
a life, over all its segments, is one history of one tracker (`Life.replay`), so what
`MontyServer.Accounts` reads off a history holds over the whole life: no resume resets anything.
-/

namespace MontyServer

/-! ## What survives an execution

The interpreter can do three things to a world. What all three keep survives whatever a program
does, and a segment of the engine is that between its two marks.
-/

/-- The interpreter keeps `I`, whatever it does in a world. -/
structure World.Kept (I : World → Prop) : Prop where
  call : ∀ {w} c, I w → I (w.call c).1
  elapse : ∀ {w} d, I w → I (w.elapse d)
  print : ∀ {w} stream text, I w → I (w.print stream text)

section Kept

variable {I : World → Prop}

theorem Execution.exec_kept {α : Type} (k : World.Kept I) (e : Execution α) {w : World}
    (h : I w) : I (e.exec w).2 := by
  induction e generalizing w with
  | ret a => exact h
  | raise exc => exact h
  | panic => exact h
  | elapse d rest ih => exact ih (k.elapse d h)
  | print stream text rest ih => exact ih (k.print stream text h)
  | call c answered ih => exact ih _ (k.call c h)

mutual
theorem RunProgress.settleLoop_kept (k : World.Kept I) : ∀ (p : RunProgress) {w : World},
    I w → I (p.settleLoop w).2
  | .OsCall resume, _, h => Execution.settleLoop_kept k (resume (.Error denied)) h
  | .FunctionCall .., _, h => h
  | .NameLookup .., _, h => h
  | .ResolveFutures .., _, h => h
  | .Complete .., _, h => h

theorem Execution.settleLoop_kept (k : World.Kept I) : ∀ (e : Execution RunProgress) {w : World},
    I w → I (e.settleLoop w).2
  | .ret p, _, h => p.settleLoop_kept k h
  | .raise _, _, h => h
  | .panic, _, h => h
  | .elapse d rest, _, h => Execution.settleLoop_kept k rest (k.elapse d h)
  | .print stream text rest, _, h => Execution.settleLoop_kept k rest (k.print stream text h)
  | .call c answered, w, h =>
    Execution.settleLoop_kept k (answered (w.call c).2) (k.call c h)
end

theorem settle_kept (k : World.Kept I) {started : Ending RunProgress × World}
    (h : I started.2) : I (settle started).2 := by
  match started with
  | (none, w') => exact h
  | (some (.error exc), w') => exact h
  | (some (.ok p), w') => exact p.settleLoop_kept k h

theorem applyResume_kept (k : World.Kept I) (progress : RunProgress) (input : ResumeInput)
    {w : World} (h : I w) : I (applyResume progress input w).2 := by
  rw [applyResume_eq]
  cases applyArm progress input with
  | none => exact h
  | some resumed => exact Execution.exec_kept k resumed h

/-- **The segment of a start**: it begins in a fresh world, the interpreter runs, and unless it
panics the segment is ended. -/
theorem startSession_kept {run : MontyRun} {inputs : List MontyObject} {limits : ResolvedLimits}
    {now : Instant} {lag : Lag} {step : Option SessionStep} {w : World} (k : World.Kept I)
    (hbegin : I (World.beginSegment { tracker := .new limits now, now }))
    (h : startSession run inputs limits now lag = (step, w)) :
    (step = none ∧ I w) ∨
    (∃ settled w', step = some (finishStep settled w) ∧ I w' ∧ w = w'.endSegment lag) := by
  have hsettled := settle_kept k ((run.start inputs).exec_kept k hbegin)
  unfold startSession at h
  dsimp only at h
  split at h
  · next w' hs =>
    cases h
    rw [hs] at hsettled
    exact .inl ⟨rfl, hsettled⟩
  · next settled w' hs =>
    cases h
    rw [hs] at hsettled
    exact .inr ⟨settled, w', rfl, hsettled, rfl⟩

/-- **The segment of a resume**: a mismatch runs nothing; anything else is a segment like that of a
start, on the tracker the session has. -/
theorem resumeSession_kept {progress : RunProgress} {tracker : StatsTracker} {input : ResumeInput}
    {now : Instant} {lag : Lag} {result : Option ResumeResult} {w : World} (k : World.Kept I)
    (hbegin : I (World.beginSegment { tracker, now }))
    (h : resumeSession progress tracker input now lag = (result, w)) :
    (∃ error, result = some (.Mismatch progress error) ∧ w = { tracker, now }) ∨
    (result = none ∧ I w) ∨
    (∃ settled w', result = some (.Stepped (finishStep settled w)) ∧ I w' ∧
      w = w'.endSegment lag) := by
  have hsettled := settle_kept k (applyResume_kept k progress input hbegin)
  unfold resumeSession at h
  dsimp only at h
  split at h
  · next error hc =>
    cases h
    exact .inl ⟨error, rfl, rfl⟩
  · split at h
    · next w' hs =>
      cases h
      rw [hs] at hsettled
      exact .inr (.inl ⟨rfl, hsettled⟩)
    · next settled w' hs =>
      cases h
      rw [hs] at hsettled
      exact .inr (.inr ⟨settled, w', rfl, hsettled, rfl⟩)

end Kept

/-! ## Executions are histories -/

/-- The world's tracker is where its recorded events lead from `t`. -/
def World.Logged (t : StatsTracker) (w : World) : Prop := w.tracker = t.replay w.events

section Logged

variable {t : StatsTracker} {w : World}

theorem World.logged_init (t : StatsTracker) (now : Instant) :
    World.Logged t { tracker := t, now } := rfl

theorem World.logged_kept (t : StatsTracker) : World.Kept (World.Logged t) where
  call {w} c h := by
    rw [World.Logged] at h ⊢
    simp only [World.call, StatsTracker.replay_append, ← h]
    rfl
  elapse _ h := h
  print _ _ h := h

theorem World.Logged.beginSegment (h : World.Logged t w) : World.Logged t w.beginSegment := by
  rw [World.Logged] at h ⊢
  simp only [World.beginSegment, StatsTracker.replay_append, ← h]
  rfl

theorem World.Logged.endSegment (h : World.Logged t w) (lag : Lag) :
    World.Logged t (w.endSegment lag) := by
  rw [World.Logged] at h ⊢
  simp only [World.endSegment, StatsTracker.replay_append, ← h]
  rfl

theorem startSession_logged {run : MontyRun} {inputs : List MontyObject} {limits : ResolvedLimits}
    {now : Instant} {lag : Lag} {step : Option SessionStep}
    (h : startSession run inputs limits now lag = (step, w)) :
    World.Logged (.new limits now) w := by
  rcases startSession_kept (World.logged_kept _)
    (World.logged_init (.new limits now) now).beginSegment h with
    ⟨-, hw⟩ | ⟨settled, w', -, hw, rfl⟩
  · exact hw
  · exact hw.endSegment lag

theorem resumeSession_logged {progress : RunProgress} {tracker : StatsTracker}
    {input : ResumeInput} {now : Instant} {lag : Lag} {result : Option ResumeResult}
    (h : resumeSession progress tracker input now lag = (result, w)) :
    World.Logged tracker w := by
  rcases resumeSession_kept (World.logged_kept _)
    (World.logged_init tracker now).beginSegment h with
    ⟨error, -, rfl⟩ | ⟨-, hw⟩ | ⟨settled, w', -, hw, rfl⟩
  · rfl
  · exact hw
  · exact hw.endSegment lag

theorem runToCompletion_logged {run : MontyRun} {inputs : List MontyObject}
    {limits : ResolvedLimits} {now : Instant} {lag : Lag} {result : Option ExecResult}
    (h : runToCompletion run inputs limits now lag = (result, w)) :
    World.Logged (.new limits now) w := by
  have hrun := (run.run inputs).exec_kept (World.logged_kept _)
    (World.logged_init (.new limits now) now).beginSegment
  unfold runToCompletion at h
  dsimp only at h
  split at h
  · next w' hs =>
    cases h
    rwa [hs] at hrun
  · next r w' hs =>
    rw [hs] at hrun
    split at h <;> cases h <;> exact hrun.endSegment lag

end Logged

/-! ## Lives -/

/-- Where a session stands after a resume attempt: a panic ends it, a mismatch leaves it where it
was. -/
def after (step : SessionStep) : Option ResumeResult → Option SessionStep
  | none => none
  | some (.Stepped next) => some next
  | some (.Mismatch ..) => some step

/-- A session's life, started at `born`: the tracker events so far, the tracker, and the latest
step (`none` once the interpreter has panicked). -/
inductive Life (run : MontyRun) (inputs : List MontyObject) (limits : ResolvedLimits)
    (born : Instant) : List TrackerEvent → StatsTracker → Option SessionStep → Prop
  | start {lag : Lag} {step : Option SessionStep} {w : World} :
    startSession run inputs limits born lag = (step, w) →
    Life run inputs limits born w.events w.tracker step
  | resume {events : List TrackerEvent} {tracker : StatsTracker} {progress : RunProgress}
    {output : Output} {stats : ExecStats} {input : ResumeInput} {now : Instant} {lag : Lag}
    {result : Option ResumeResult} {w : World} :
    Life run inputs limits born events tracker (some (.Paused progress output stats)) →
    resumeSession progress tracker input now lag = (result, w) →
    Life run inputs limits born (events ++ w.events) w.tracker
      (after (.Paused progress output stats) result)

section Life

variable {run : MontyRun} {inputs : List MontyObject} {limits : ResolvedLimits} {born : Instant}
  {events : List TrackerEvent} {tracker : StatsTracker} {step : Option SessionStep}

/-- **One history over all segments**: a resume goes on from the tracker the life has reached. -/
theorem Life.replay (life : Life run inputs limits born events tracker step) :
    tracker = (StatsTracker.new limits born).replay events := by
  induction life with
  | start h => exact startSession_logged h
  | resume _ h ih =>
    rw [StatsTracker.replay_append, ← ih]
    exact resumeSession_logged h

end Life

/-! ## The limits hold -/

/-- What holds of a life's tracker once `events` have happened. -/
structure WithinLimits (request : Option LimitsRequest) (bounds : LimitBounds) (born : Instant)
    (events : List TrackerEvent) (t : StatsTracker) (log : List (TrackerEvent × Answer)) :
    Prop where
  allocations_eq : t.allocations.toNat = log.countP allocated
  allocations_le : t.allocations ≤
    min ((clonedOrDefault request).maxAllocations.getD bounds.defaultMaxAllocations)
      bounds.maxAllocations
  live_eq : t.liveMemory.toNat + (log.map freed).sum = (log.map granted).sum
  live_le : t.liveMemory ≤ (ResolvedLimits.resolve request bounds).maxMemoryBytes
  peak : StatsTracker.IsPeak (.new (.resolve request bounds) born) events t.peakMemory
  breach_eq : t.breach = firstRefusal log
  refused : ∀ e err, (t.handle e).2 = .error err →
    (t.handle e).1.allocations = t.allocations ∧ (t.handle e).1.liveMemory = t.liveMemory ∧
      (t.handle e).1.peakMemory = t.peakMemory

/-- **Limits hold over the whole life.** At every moment of a life, over all its segments: the
allocations counter is the number of allocations granted since the start and within the resolved
limit, live memory is what was granted less what was freed and within its limit, the peak is the
largest live memory reached, a refusal changes none of them, and the recorded breach is the first
refusal, for the rest of the life. -/
theorem limits_hold_for_life {request : Option LimitsRequest} {bounds : LimitBounds}
    {run : MontyRun} {inputs : List MontyObject} {born : Instant} {events : List TrackerEvent}
    {tracker : StatsTracker} {step : Option SessionStep}
    (life : Life run inputs (.resolve request bounds) born events tracker step)
    (sized : (StatsTracker.new (.resolve request bounds) born).AllSized events) :
    tracker = (StatsTracker.new (.resolve request bounds) born).replay events ∧
    ∀ pre, pre <+: events →
      WithinLimits request bounds born pre
        ((StatsTracker.new (.resolve request bounds) born).replay pre)
        ((StatsTracker.new (.resolve request bounds) born).answers pre) ∧
      ∀ b, ((StatsTracker.new (.resolve request bounds) born).replay pre).breach = some b →
        tracker.breach = some b := by
  refine ⟨life.replay, ?_⟩
  rintro pre ⟨rest, rfl⟩
  have account := StatsTracker.account_replay (.resolve request bounds) born pre
    (StatsTracker.allSized_append.mp sized).1
  refine ⟨⟨account.allocations_eq, account.allocations_le, account.live_eq, account.live_le,
    StatsTracker.isPeak_replay rfl pre, StatsTracker.breach_replay .., ?_⟩, fun b hb => ?_⟩
  · exact fun e err h => StatsTracker.handle_refused h
  · rw [StatsTracker.breach_replay] at hb
    rw [life.replay, StatsTracker.breach_replay, StatsTracker.answers_append, firstRefusal,
      List.findSome?_append, ← firstRefusal, hb]
    rfl

namespace Sample

/-- Allocates, is refused a second object, carries on, and grows after its one pause. -/
def hungry : MontyRun where
  run := fun _ => .raise (.new ⟨"NameError"⟩ none)
  start := fun _ => .call (.onAllocate 40) fun _ => .call (.onAllocate 100) fun _ =>
    .ret (.NameLookup "x" fun _ =>
      .call (.onFree 8) fun _ => .call (.onGrow 16) fun _ => .ret (.Complete .None))

end Sample

/-- A life with a refusal and a resume, under a client's limit of 64 bytes. -/
theorem limits_hold_for_hungry :
    ∃ events tracker step,
      Life Sample.hungry [] (.resolve (some { maxMemoryBytes := some 64 }) Sample.bounds) 0
        events tracker step ∧
      tracker.liveMemory = 48 ∧ tracker.breach = some .Memory ∧
      ∀ pre, pre <+: events →
        WithinLimits (some { maxMemoryBytes := some 64 }) Sample.bounds 0 pre
          ((StatsTracker.new (.resolve (some { maxMemoryBytes := some 64 }) Sample.bounds)
            0).replay pre)
          ((StatsTracker.new (.resolve (some { maxMemoryBytes := some 64 }) Sample.bounds)
            0).answers pre) ∧
        ∀ b, ((StatsTracker.new (.resolve (some { maxMemoryBytes := some 64 }) Sample.bounds)
          0).replay pre).breach = some b → tracker.breach = some b := by
  -- one start and one resume, both evaluated
  have life : Life Sample.hungry []
      (.resolve (some { maxMemoryBytes := some 64 }) Sample.bounds) 0 _ _ _ :=
    .resume (.start (rfl : startSession _ _ _ _ {} = _))
      (rfl : resumeSession _ _ (.Name .None) 5 {} = _)
  exact ⟨_, _, _, life, by decide, by decide, (limits_hold_for_life life (by decide)).2⟩

end MontyServer
