import MontyServer.Life

/-!
# How a failed execution is reported

A failure is reported as `limit_exceeded` or as `exception` by the tracker's breach flag, and the
flag keeps the first refusal of the whole life, swallowed or not. The report names what ended the
execution exactly if that first refusal and the terminating exception name the same limit, or
neither names one.
-/

namespace MontyServer

variable [Crates]

/-- The `limit` of a view, if its status is `limit_exceeded`. -/
def SessionState.limit : SessionState → Option String
  | .LimitExceeded limit .. => some limit
  | _ => none

/-- The `limit` of an outcome, if its status is `limit_exceeded`. -/
def Outcome.limit : Outcome → Option String
  | .LimitExceeded limit .. => some limit
  | _ => none

/-- The limit whose refusal an exception is, if it is one. -/
def MontyException.cause (exc : MontyException) : Option Breach :=
  exc.refusal.map ResourceError.limit

/-- A failure with `exc` is reported under limit `L` if and only if `exc` is the refusal of `L`. -/
def ReportsCause (reported : Option String) (exc : MontyException) : Prop :=
  ∀ L, reported = some (breachName L) ↔ exc.cause = some L

omit [Crates] in
theorem breachName_injective {a b : Breach} (h : breachName a = breachName b) : a = b := by
  revert h
  cases a <;> cases b <;> decide

omit [Crates] in
/-- A report made from a breach names the cause exactly if the breach is the cause. -/
theorem reportsCause_iff {breach : Option Breach} {exc : MontyException} :
    ReportsCause (breach.map breachName) exc ↔ breach = exc.cause := by
  constructor
  · intro h
    cases breach with
    | some b => exact ((h b).mp rfl).symm
    | none =>
      cases hc : exc.cause with
      | none => rfl
      | some L => cases (h L).mpr hc
  · rintro rfl L
    cases exc.cause with
    | none => simp
    | some b => simpa using ⟨breachName_injective, congrArg breachName⟩

/-- The view of a failed step reports its breach. -/
theorem renderState_failed (exc : MontyException) (breach : Option Breach) (output : Output)
    (stats : ExecStats) (progress : Option RunProgress) :
    ∃ st, renderState (.Failed exc breach output stats) progress = .ok st ∧
      st.limit = breach.map breachName := by
  cases breach <;> exact ⟨_, rfl, rfl⟩

/-- The outcome of a failed run reports its breach. -/
theorem fromExecResult_failed (exc : MontyException) (breach : Option Breach) (output : Output)
    (stats : ExecStats) :
    ∃ o, Outcome.fromExecResult (.Failed exc breach output stats) = .ok o ∧
      o.limit = breach.map breachName := by
  cases breach <;> exact ⟨_, rfl, rfl⟩

omit [Crates] in
/-- A failed step carries the breach of the tracker it leaves behind. -/
theorem finishStep_breach {settled : Except MontyException RunProgress} {w : World}
    {exc : MontyException} {breach : Option Breach} {output : Output} {stats : ExecStats}
    (h : finishStep settled w = .Failed exc breach output stats) : breach = w.tracker.breach := by
  match settled with
  | .error e => cases h; rfl
  | .ok (.Complete _) => cases h
  | .ok (.OsCall _) => cases h
  | .ok (.FunctionCall ..) => cases h
  | .ok (.NameLookup ..) => cases h
  | .ok (.ResolveFutures ..) => cases h

omit [Crates] in
theorem startSession_breach {run : MontyRun} {inputs : List MontyObject} {limits : ResolvedLimits}
    {now : Instant} {lag : Lag} {w : World} {exc : MontyException} {breach : Option Breach}
    {output : Output} {stats : ExecStats}
    (h : startSession run inputs limits now lag = (some (.Failed exc breach output stats), w)) :
    breach = w.tracker.breach := by
  unfold startSession at h
  dsimp only at h
  split at h
  · cases h
  · simp only [Prod.mk.injEq, Option.some.injEq] at h
    obtain ⟨hstep, rfl⟩ := h
    exact finishStep_breach hstep

omit [Crates] in
theorem resumeSession_breach {progress : RunProgress} {tracker : StatsTracker}
    {input : ResumeInput} {now : Instant} {lag : Lag} {w : World} {exc : MontyException}
    {breach : Option Breach} {output : Output} {stats : ExecStats}
    (h : resumeSession progress tracker input now lag =
      (some (.Stepped (.Failed exc breach output stats)), w)) :
    breach = w.tracker.breach := by
  unfold resumeSession at h
  dsimp only at h
  split at h
  · cases h
  · split at h
    · cases h
    · simp only [Prod.mk.injEq, Option.some.injEq, ResumeResult.Stepped.injEq] at h
      obtain ⟨hstep, rfl⟩ := h
      exact finishStep_breach hstep

omit [Crates] in
theorem runToCompletion_breach {run : MontyRun} {inputs : List MontyObject}
    {limits : ResolvedLimits} {now : Instant} {lag : Lag} {w : World} {exc : MontyException}
    {breach : Option Breach} {output : Output} {stats : ExecStats}
    (h : runToCompletion run inputs limits now lag =
      (some (.Failed exc breach output stats), w)) :
    breach = w.tracker.breach := by
  unfold runToCompletion at h
  dsimp only at h
  split at h
  · cases h
  · split at h
    · cases h
    · cases h
      rfl

omit [Crates] in
/-- The breach of a life's failed step is the first refusal of the life. -/
theorem Life.failed_breach {run : MontyRun} {inputs : List MontyObject} {limits : ResolvedLimits}
    {born : Instant} {events : List TrackerEvent} {tracker : StatsTracker} {exc : MontyException}
    {breach : Option Breach} {output : Output} {stats : ExecStats}
    (life : Life run inputs limits born events tracker
      (some (.Failed exc breach output stats))) :
    breach = firstRefusal ((StatsTracker.new limits born).answers events) := by
  -- the flag of the tracker is the first refusal; what is left is that the last step reports it
  rw [← StatsTracker.breach_replay, ← life.replay]
  generalize hs : some (SessionStep.Failed exc breach output stats) = step at life
  cases life with
  | start h => exact startSession_breach (hs ▸ h)
  | @resume _ _ _ _ _ _ _ _ result _ _ h =>
    match result with
    | none => cases hs
    -- a mismatch leaves the pause it found, and a pause is not a failure
    | some (.Mismatch ..) => cases hs
    | some (.Stepped next) =>
      simp only [after, Option.some.injEq] at hs
      exact resumeSession_breach (hs ▸ h)

/-- **The report names the cause exactly if the first refusal does.** A session's failed step, after
any number of segments, and a failed `/v1/run`: each is reported under the limit that ended it, or
as an exception when none did, if and only if the first refusal of the execution names the same
limit as the terminating exception (neither naming one included). -/
theorem reported_limit_is_cause_iff :
    (∀ (run : MontyRun) (inputs : List MontyObject) (limits : ResolvedLimits) (born : Instant)
      (events : List TrackerEvent) (tracker : StatsTracker) (exc : MontyException)
      (breach : Option Breach) (output : Output) (stats : ExecStats),
      Life run inputs limits born events tracker (some (.Failed exc breach output stats)) →
      ∃ st, renderState (.Failed exc breach output stats) none = .ok st ∧
        (ReportsCause st.limit exc ↔
          firstRefusal ((StatsTracker.new limits born).answers events) = exc.cause)) ∧
    (∀ (run : MontyRun) (inputs : List MontyObject) (limits : ResolvedLimits) (now : Instant)
      (lag : Lag) (w : World) (exc : MontyException) (breach : Option Breach) (output : Output)
      (stats : ExecStats),
      runToCompletion run inputs limits now lag = (some (.Failed exc breach output stats), w) →
      ∃ o, Outcome.fromExecResult (.Failed exc breach output stats) = .ok o ∧
        (ReportsCause o.limit exc ↔
          firstRefusal ((StatsTracker.new limits now).answers w.events) = exc.cause)) := by
  constructor
  · intro run inputs limits born events tracker exc breach output stats life
    obtain ⟨st, hst, hlimit⟩ := renderState_failed exc breach output stats none
    refine ⟨st, hst, ?_⟩
    rw [hlimit, reportsCause_iff, life.failed_breach]
  · intro run inputs limits now lag w exc breach output stats h
    obtain ⟨o, ho, hlimit⟩ := fromExecResult_failed exc breach output stats
    refine ⟨o, ho, ?_⟩
    rw [hlimit, reportsCause_iff, runToCompletion_breach h, runToCompletion_logged h,
      StatsTracker.breach_replay]

/-- `try: deep() except RecursionError: pass`, then `raise ValueError`: the recursion is refused and
swallowed, and another exception ends the run. -/
def Sample.swallow : MontyRun where
  run := fun _ => .call (.checkRecursionDepth 100) fun _ => .raise (.new ⟨"ValueError"⟩ none)
  start := fun _ => .raise (.new ⟨"ValueError"⟩ none)

omit [Crates] in
/-- A swallowed `RecursionError` is blamed for the `ValueError` after it. -/
theorem swallowed_refusal_reported :
    ¬ ∀ (_ : Crates) (run : MontyRun) (inputs : List MontyObject) (limits : ResolvedLimits)
      (now : Instant) (lag : Lag) (w : World) (exc : MontyException) (breach : Option Breach)
      (output : Output) (stats : ExecStats) (o : Outcome),
      runToCompletion run inputs limits now lag = (some (.Failed exc breach output stats), w) →
      Outcome.fromExecResult (.Failed exc breach output stats) = .ok o →
      ReportsCause o.limit exc := by
  intro h
  have hrun := h Sample.crates Sample.swallow [] (.resolve none Sample.bounds) 0 {} _ _ _ _ _ _
    rfl rfl .Recursion
  exact absurd (hrun.mp rfl) (by decide)

end MontyServer
