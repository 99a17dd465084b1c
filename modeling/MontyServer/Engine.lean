import MontyServer.Tracker

/-!
# The engine: running, starting and resuming programs

`engine.rs`, the synchronous bridge to monty. Running a program is evaluating its `Execution` tree
in a `World`: the tracker all clones share, the clock, and the buffer `CollectStreams` appends to.

A panic of the interpreter unwinds through every function here, so each of them returns an `Option`
whose `none` is the panic. The world it leaves behind is returned as well, since the tracker
outlives the call.
-/

namespace MontyServer

/-- Captured `print()` output from one execution segment. -/
structure Output where
  stdout : String := ""
  stderr : String := ""
  deriving DecidableEq, Repr

/-- Result of running code to completion. -/
inductive ExecResult
  | Completed (result : MontyObject) (output : Output) (stats : ExecStats)
  | Failed (exception : MontyException) (breach : Option Breach) (output : Output)
      (stats : ExecStats)

/-- State of a session after a `startSession` or `resumeSession` step. -/
inductive SessionStep
  | Complete (result : MontyObject) (output : Output) (stats : ExecStats)
  | Failed (exception : MontyException) (breach : Option Breach) (output : Output)
      (stats : ExecStats)
  | Paused (progress : RunProgress) (output : Output) (stats : ExecStats)

/-- Outcome supplied for a single pending future. -/
inductive FutureOutcome
  | Return (value : MontyObject)
  | Raise (exc : MontyException)

/-- How a client wants to answer a paused session. -/
inductive ResumeInput
  | Return (value : MontyObject)
  | Raise (exc : MontyException)
  | Pending
  | Name (value : MontyObject)
  | NameUndefined
  | Futures (results : List (UInt32 × FutureOutcome))

/-- A resume input that does not match what the session is paused on. -/
structure ResumeMismatch where
  message : String
  deriving DecidableEq, Repr

/-- Outcome of a resume attempt. -/
inductive ResumeResult
  | Stepped (step : SessionStep)
  | Mismatch (progress : RunProgress) (error : ResumeMismatch)

/-! ## Worlds -/

/-- What an execution sees and changes. `events` is a history variable: the tracker events of this
call of the engine, in order; no definition reads it. -/
structure World where
  tracker : StatsTracker
  now : Instant
  fragments : List (PrintStream × String) := []
  events : List TrackerEvent := []

/-- Time that passes between two clock reads of the engine itself: between the two of
`end_segment`, and from there to the one of `stats`. -/
structure Lag where
  reset : Duration := 0
  stats : Duration := 0

namespace World

def call (w : World) (c : TrackerCall) : World × Answer :=
  let (tracker, answer) := w.tracker.call w.now c
  ({ w with tracker, events := w.events ++ [.call w.now c] }, answer)

def elapse (w : World) (d : Duration) : World := { w with now := w.now + d }

def print (w : World) (stream : PrintStream) (text : String) : World :=
  { w with fragments := w.fragments ++ [(stream, text)] }

def beginSegment (w : World) : World :=
  { w with tracker := w.tracker.beginSegment w.now, events := w.events ++ [.beginSegment w.now] }

def endSegment (w : World) (lag : Lag) : World :=
  { w with
    tracker := w.tracker.endSegment w.now (w.now + lag.reset)
    now := w.now + lag.reset + lag.stats
    events := w.events ++ [.endSegment w.now (w.now + lag.reset)] }

end World

/-- How an execution ended: `none` is a panic. -/
abbrev Ending (α : Type) := Option (Except MontyException α)

/-- Evaluates an execution. -/
def Execution.exec {α : Type} : Execution α → World → Ending α × World
  | .ret a, w => (some (.ok a), w)
  | .raise exc, w => (some (.error exc), w)
  | .panic, w => (none, w)
  | .elapse d rest, w => rest.exec (w.elapse d)
  | .print stream text rest, w => rest.exec (w.print stream text)
  | .call c answered, w => (answered (w.call c).2).exec (w.call c).1

/-! ## Settling -/

/-- What every OS call is answered with. -/
def denied : MontyException :=
  .new .PermissionError (some "filesystem and OS access are disabled on this server")

mutual
/-- The loop of `settle`: an OS call is resumed with `PermissionError` and the loop goes on with
what the program does next; anything else has settled. -/
def RunProgress.settleLoop : RunProgress → World → Ending RunProgress × World
  | .OsCall resume, w => Execution.settleLoop (resume (.Error denied)) w
  | settled, w => (some (.ok settled), w)

/-- `call.resume(..)?` followed by the loop, in one recursion over the execution
(`RunProgress.settleLoop_osCall` takes the two apart again). -/
def Execution.settleLoop : Execution RunProgress → World → Ending RunProgress × World
  | .ret progress, w => progress.settleLoop w
  | .raise exc, w => (some (.error exc), w)
  | .panic, w => (none, w)
  | .elapse d rest, w => Execution.settleLoop rest (w.elapse d)
  | .print stream text rest, w => Execution.settleLoop rest (w.print stream text)
  | .call c answered, w => Execution.settleLoop (answered (w.call c).2) (w.call c).1
end

/-- Drives a raw progress forward, auto-rejecting OS calls, until it settles on a
client-actionable state, completes, or fails. -/
def settle : Ending RunProgress × World → Ending RunProgress × World
  | (some (.ok progress), w) => progress.settleLoop w
  | (some (.error exc), w) => (some (.error exc), w)
  | (none, w) => (none, w)

/-- Folds the per-fragment print stream into whole stdout/stderr strings. -/
def joinStreams (fragments : List (PrintStream × String)) : Output :=
  fragments.foldl (fun output fragment =>
    match fragment with
    | (.Stdout, text) => { output with stdout := output.stdout ++ text }
    | (.Stderr, text) => { output with stderr := output.stderr ++ text }) {}

/-- Converts a settled progress into a `SessionStep`, in the world after `end_segment`. -/
def finishStep (settled : Except MontyException RunProgress) (w : World) : SessionStep :=
  let output := joinStreams w.fragments
  let stats := w.tracker.stats w.now
  match settled with
  | .ok (.Complete result) => .Complete result output stats
  | .ok progress => .Paused progress output stats
  | .error exception => .Failed exception w.tracker.breach output stats

/-! ## Running and starting -/

/-- Runs `run` to completion; host functions are not available. -/
def runToCompletion (run : MontyRun) (inputs : List MontyObject) (limits : ResolvedLimits)
    (now : Instant) (lag : Lag) : Option ExecResult × World :=
  let w : World := { tracker := StatsTracker.new limits now, now }
  match (run.run inputs).exec w.beginSegment with
  | (none, w) => (none, w)
  | (some result, w) =>
    let w := w.endSegment lag
    let output := joinStreams w.fragments
    let stats := w.tracker.stats w.now
    match result with
    | .ok result => (some (.Completed result output stats), w)
    | .error exception => (some (.Failed exception w.tracker.breach output stats), w)

/-- Begins an iterative session: runs until the program completes, fails, or pauses for host
input. The tracker it returns is the one of the world. -/
def startSession (run : MontyRun) (inputs : List MontyObject) (limits : ResolvedLimits)
    (now : Instant) (lag : Lag) : Option SessionStep × World :=
  let w : World := { tracker := StatsTracker.new limits now, now }
  match settle ((run.start inputs).exec w.beginSegment) with
  | (none, w) => (none, w)
  | (some settled, w) =>
    let w := w.endSegment lag
    (some (finishStep settled w), w)

/-! ## Resuming -/

/-- Builds a descriptive mismatch error naming the pause kind and the answer kind. -/
def mismatch (progress : RunProgress) (input : ResumeInput) : ResumeMismatch :=
  let expected := match progress with
    | .FunctionCall .. => "a function call (expects `return`, `exception`, or `pending`)"
    | .NameLookup .. => "a name lookup (expects `value` or `undefined`)"
    | .ResolveFutures .. => "pending futures (expects `futures`)"
    | .OsCall .. => "an OS call (handled internally; should not be exposed)"
    | .Complete .. => "already complete"
  let got := match input with
    | .Return _ => "`return`"
    | .Raise _ => "`exception`"
    | .Pending => "`pending`"
    | .Name _ => "`value`"
    | .NameUndefined => "`undefined`"
    | .Futures _ => "`futures`"
  ⟨"session is paused on " ++ expected ++ ", but resume supplied " ++ got⟩

/-- Validates that `input` answers the kind of pause `progress` represents, without consuming
either. -/
def checkResume (progress : RunProgress) (input : ResumeInput) : Except ResumeMismatch Unit :=
  match progress, input with
  | .FunctionCall .., .Return _ => .ok ()
  | .FunctionCall .., .Raise _ => .ok ()
  | .FunctionCall .., .Pending => .ok ()
  | .NameLookup .., .Name _ => .ok ()
  | .NameLookup .., .NameUndefined => .ok ()
  | .ResolveFutures .., .Futures _ => .ok ()
  | progress, input => .error (mismatch progress input)

/-- `impl From<FutureOutcome> for ExtFunctionResult`. -/
def FutureOutcome.into : FutureOutcome → ExtFunctionResult
  | .Return value => .Return value
  | .Raise exc => .Error exc

/-- Applies the client's resume input to the paused progress. The last arm is the source's
`unreachable!`, a panic. -/
def applyResume (progress : RunProgress) (input : ResumeInput) (w : World) :
    Ending RunProgress × World :=
  match progress, input with
  | .FunctionCall _ resume _, .Return value => (resume (.Return value)).exec w
  | .FunctionCall _ resume _, .Raise exc => (resume (.Error exc)).exec w
  | .FunctionCall _ _ resumePending, .Pending => resumePending.exec w
  | .NameLookup _ resume, .Name value => (resume (.Value value)).exec w
  | .NameLookup _ resume, .NameUndefined => (resume .Undefined).exec w
  | .ResolveFutures _ resume, .Futures results =>
    (resume (results.map fun (id, o) => (id, o.into))).exec w
  -- `checkResume` lets nothing else through
  | _, _ => (none, w)

/-- Resumes a paused session with the client's answer. On a kind mismatch the progress is handed
back and nothing has run. -/
def resumeSession (progress : RunProgress) (tracker : StatsTracker) (input : ResumeInput)
    (now : Instant) (lag : Lag) : Option ResumeResult × World :=
  let w : World := { tracker, now }
  match checkResume progress input with
  | .error error => (some (.Mismatch progress error), w)
  | .ok () =>
    match settle (applyResume progress input w.beginSegment) with
    | (none, w) => (none, w)
    | (some settled, w) =>
      let w := w.endSegment lag
      (some (.Stepped (finishStep settled w)), w)

/-! ## What a step shows -/

/-- The output a step shows. -/
def SessionStep.output : SessionStep → Output
  | .Complete _ output _ => output
  | .Failed _ _ output _ => output
  | .Paused _ output _ => output

/-- The stats a step reports. -/
def SessionStep.stats : SessionStep → ExecStats
  | .Complete _ _ stats => stats
  | .Failed _ _ _ stats => stats
  | .Paused _ _ stats => stats

theorem finishStep_output (settled : Except MontyException RunProgress) (w : World) :
    (finishStep settled w).output = joinStreams w.fragments := by
  unfold finishStep
  grind [SessionStep.output]

theorem finishStep_stats (settled : Except MontyException RunProgress) (w : World) :
    (finishStep settled w).stats = w.tracker.stats w.now := by
  unfold finishStep
  grind [SessionStep.stats]

/-! ## The arms of `apply_resume` -/

/-- The arm of `apply_resume` that fits a progress and an input; `none` is the `unreachable!`. -/
def applyArm : RunProgress → ResumeInput → Option (Execution RunProgress)
  | .FunctionCall _ resume _, .Return value => some (resume (.Return value))
  | .FunctionCall _ resume _, .Raise exc => some (resume (.Error exc))
  | .FunctionCall _ _ resumePending, .Pending => some resumePending
  | .NameLookup _ resume, .Name value => some (resume (.Value value))
  | .NameLookup _ resume, .NameUndefined => some (resume .Undefined)
  | .ResolveFutures _ resume, .Futures results =>
    some (resume (results.map fun (id, o) => (id, o.into)))
  | _, _ => none

/-- `apply_resume` runs its arm. -/
theorem applyResume_eq (progress : RunProgress) (input : ResumeInput) (w : World) :
    applyResume progress input w =
      (applyArm progress input).elim (none, w) fun resumed => resumed.exec w := by
  cases progress <;> cases input <;> rfl

/-- **`check_resume` and `apply_resume` list the same pairs.** -/
theorem checkResume_ok_iff (progress : RunProgress) (input : ResumeInput) :
    checkResume progress input = .ok () ↔ (applyArm progress input).isSome := by
  cases progress <;> cases input <;> simp [checkResume, applyArm]

/-! ## What settling leaves behind -/

/-- Evaluating an execution and settling its result is the fused recursion. -/
theorem Execution.settleLoop_eq (e : Execution RunProgress) (w : World) :
    e.settleLoop w = settle (e.exec w) := by
  induction e generalizing w with
  | ret progress => simp only [Execution.settleLoop, Execution.exec, settle]
  | raise exc => simp only [Execution.settleLoop, Execution.exec, settle]
  | panic => simp only [Execution.settleLoop, Execution.exec, settle]
  | elapse d rest ih => simpa only [Execution.settleLoop, Execution.exec] using ih _
  | print stream text rest ih => simpa only [Execution.settleLoop, Execution.exec] using ih _
  | call c answered ih => simpa only [Execution.settleLoop, Execution.exec] using ih _ _

/-- The loop of `settle` as the source writes it: an OS call is resumed, and the loop goes on with
the progress that returns. -/
theorem RunProgress.settleLoop_osCall (resume : ExtFunctionResult → Execution RunProgress)
    (w : World) :
    (RunProgress.OsCall resume).settleLoop w = settle ((resume (.Error denied)).exec w) := by
  rw [RunProgress.settleLoop, Execution.settleLoop_eq]

/-- The pauses a client can answer. -/
def RunProgress.Actionable : RunProgress → Prop
  | .FunctionCall .. | .NameLookup .. | .ResolveFutures .. => True
  | .OsCall .. | .Complete .. => False

/-- A progress the loop stops at is never an OS call. -/
def RunProgress.Settled : RunProgress → Prop
  | .OsCall .. => False
  | _ => True

mutual
theorem RunProgress.settleLoop_settled : ∀ (p : RunProgress) (w : World) (q : RunProgress),
    (p.settleLoop w).1 = some (.ok q) → q.Settled
  | .OsCall resume, w, q, h => by
    rw [RunProgress.settleLoop] at h
    exact Execution.settleLoop_settled (resume (.Error denied)) w q h
  | .FunctionCall .., _, _, h => by cases h; trivial
  | .NameLookup .., _, _, h => by cases h; trivial
  | .ResolveFutures .., _, _, h => by cases h; trivial
  | .Complete .., _, _, h => by cases h; trivial

theorem Execution.settleLoop_settled : ∀ (e : Execution RunProgress) (w : World) (q : RunProgress),
    (e.settleLoop w).1 = some (.ok q) → q.Settled
  | .ret p, w, q, h => p.settleLoop_settled w q h
  | .raise _, _, _, h => by cases h
  | .panic, _, _, h => by cases h
  | .elapse d rest, w, q, h => Execution.settleLoop_settled rest (w.elapse d) q h
  | .print stream text rest, w, q, h =>
    Execution.settleLoop_settled rest (w.print stream text) q h
  | .call c answered, w, q, h =>
    Execution.settleLoop_settled (answered (w.call c).2) (w.call c).1 q h
end

theorem settle_settled {started : Ending RunProgress × World} {q : RunProgress} {w : World}
    (h : settle started = (some (.ok q), w)) : q.Settled := by
  match started with
  | (none, w') => simp [settle] at h
  | (some (.error exc), w') => simp [settle] at h
  | (some (.ok p), w') => exact p.settleLoop_settled w' q (by rw [← settle, h])

/-- A step whose pause, if it is one, is a pause a client can answer. -/
def SessionStep.Answerable : SessionStep → Prop
  | .Paused progress .. => progress.Actionable
  | _ => True

/-- The step says where its segment has ended: it is paused there and waits for the client, or the
program has completed, or it has failed, with the breach that the tracker has recorded. -/
inductive SessionStep.Tells (breach : Option Breach) :
    SessionStep → Except MontyException RunProgress → Prop
  | paused {progress : RunProgress} {output : Output} {stats : ExecStats}
    (h : progress.Actionable) : Tells breach (.Paused progress output stats) (.ok progress)
  | completed {result : MontyObject} {output : Output} {stats : ExecStats} :
    Tells breach (.Complete result output stats) (.ok (.Complete result))
  | failed {exception : MontyException} {output : Output} {stats : ExecStats} :
    Tells breach (.Failed exception breach output stats) (.error exception)

theorem finishStep_tells {settled : Except MontyException RunProgress} (w : World)
    (h : ∀ q, settled = .ok q → q.Settled) :
    (finishStep settled w).Tells w.tracker.breach settled := by
  match settled with
  | .error exc => exact .failed
  | .ok (.Complete result) => exact .completed
  | .ok (.OsCall resume) => exact (h _ rfl).elim
  | .ok (.FunctionCall ..) => exact .paused trivial
  | .ok (.NameLookup ..) => exact .paused trivial
  | .ok (.ResolveFutures ..) => exact .paused trivial

theorem SessionStep.Tells.answerable {breach : Option Breach} {step : SessionStep}
    {settled : Except MontyException RunProgress} (h : step.Tells breach settled) :
    step.Answerable := by
  cases h with
  | paused hactionable => exact hactionable
  | completed => trivial
  | failed => trivial

theorem finishStep_answerable {settled : Except MontyException RunProgress} (w : World)
    (h : ∀ q, settled = .ok q → q.Settled) : (finishStep settled w).Answerable :=
  (finishStep_tells w h).answerable

/-- **OS calls stay inside**: whatever a program does, the step a start returns is either final or
paused on something the client can answer. -/
theorem startSession_answerable {run : MontyRun} {inputs : List MontyObject}
    {limits : ResolvedLimits} {now : Instant} {lag : Lag} {step : SessionStep} {w : World}
    (h : startSession run inputs limits now lag = (some step, w)) : step.Answerable := by
  unfold startSession at h
  dsimp only at h
  split at h
  · simp at h
  · next settled w' hs =>
    simp only [Prod.mk.injEq, Option.some.injEq] at h
    obtain ⟨rfl, -⟩ := h
    exact finishStep_answerable _ fun q hq => settle_settled (hq ▸ hs)

/-- The two ways a resume can return: a mismatch, which ran nothing and gives the same progress
back, or a step of the program. -/
theorem resumeSession_cases {progress : RunProgress} {tracker : StatsTracker}
    {input : ResumeInput} {now : Instant} {lag : Lag} {result : ResumeResult} {w : World}
    (h : resumeSession progress tracker input now lag = (some result, w)) :
    (∃ error, checkResume progress input = .error error ∧
      result = .Mismatch progress error ∧ w = { tracker, now }) ∨
    (∃ step, checkResume progress input = .ok () ∧ result = .Stepped step ∧ step.Answerable) := by
  unfold resumeSession at h
  dsimp only at h
  split at h
  · next error hc =>
    simp only [Prod.mk.injEq, Option.some.injEq] at h
    obtain ⟨rfl, rfl⟩ := h
    exact .inl ⟨error, hc, rfl, rfl⟩
  · next hc =>
    split at h
    · simp at h
    · next settled w' hs =>
      simp only [Prod.mk.injEq, Option.some.injEq] at h
      obtain ⟨rfl, -⟩ := h
      exact .inr ⟨_, hc, rfl, finishStep_answerable _ fun q hq => settle_settled (hq ▸ hs)⟩

/-- A kind mismatch runs nothing. -/
theorem resumeSession_error {progress : RunProgress} {tracker : StatsTracker}
    {input : ResumeInput} {error : ResumeMismatch} (h : checkResume progress input = .error error)
    (now : Instant) (lag : Lag) :
    resumeSession progress tracker input now lag =
      (some (.Mismatch progress error), { tracker, now }) := by
  simp only [resumeSession, h]

/-- An answer of the right kind is not turned away. -/
theorem resumeSession_ok {progress : RunProgress} {tracker : StatsTracker}
    {input : ResumeInput} {now : Instant} {lag : Lag} {result : Option ResumeResult} {w : World}
    (hc : checkResume progress input = .ok ())
    (h : resumeSession progress tracker input now lag = (result, w)) :
    result = none ∨ ∃ step, result = some (.Stepped step) := by
  match result with
  | none => exact .inl rfl
  | some result =>
    rcases resumeSession_cases h with ⟨error, hc', -⟩ | ⟨step, -, rfl, -⟩
    · cases hc.symm.trans hc'
    · exact .inr ⟨step, rfl⟩

end MontyServer
