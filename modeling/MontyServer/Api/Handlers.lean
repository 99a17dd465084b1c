import MontyServer.Api.Compile
import MontyServer.Api.ResumeBody
import MontyServer.Api.Spawn

/-!
# The handlers

The async functions of `api/`, each as the states it goes through. A handler shares the store, the
semaphore and the clock with every other request (`AppState`), and another request can act between
any two lock acquisitions and at every await; a `Move` takes it from one such point to the next.
A request can be dropped where its handler awaits, and before the handler is entered.

`trail` and `applied` are history variables: the steps each session has stored, newest first, and
the progress values `apply_resume` has consumed. No definition reads them.
-/

namespace MontyServer

/-- What the handlers read of `config::Config`. -/
structure Config where
  limits : LimitBounds
  sessions : SessionConfig
  maxConcurrency : Nat

/-- The place of a request in the order of arrival. -/
abbrev RequestId := Nat

/-- A stored step: which request stored it, the input it was resumed with (none for the step of
`start_session`), and the tracker it left. -/
structure Link where
  request : RequestId
  input : Option ResumeInput
  step : SessionStep
  tracker : StatsTracker

/-- What a resume takes out of an entry. -/
abbrev Token := RunProgress × StatsTracker

/-- State shared across all handlers; `concurrency` is the permits the semaphore has left. -/
structure AppState where
  config : Config
  sessions : SessionStore
  concurrency : Nat
  now : Instant
  trail : Uuid → List Link
  applied : Uuid → List (Nat × Token)

/-- `AppState::new`. -/
def AppState.new (config : Config) : AppState where
  config := config
  sessions := .new config.sessions.maxSessions
  concurrency := config.maxConcurrency
  now := 0
  trail := fun _ => []
  applied := fun _ => []

namespace AppState

def setEntry (app : AppState) (id : Uuid) (e : SessionEntry) : AppState :=
  { app with sessions := app.sessions.setEntry id e }

def insert (app : AppState) (id : Uuid) (e : SessionEntry) : AppState :=
  { app with sessions := app.sessions.insert id e }

def setConcurrency (app : AppState) (free : Nat) : AppState := { app with concurrency := free }

/-- Records a stored step. -/
def extend (app : AppState) (id : Uuid) (link : Link) : AppState :=
  { app with trail := fun i => if i = id then link :: app.trail i else app.trail i }

/-- Records that a progress has been consumed, unless `check_resume` turned the input away. -/
def apply (app : AppState) (id : Uuid) (token : Token) (input : ResumeInput) : AppState :=
  match checkResume token.1 input with
  | .error _ => app
  | .ok () =>
    { app with
      applied := fun i =>
        if i = id then ((app.trail i).length, token) :: app.applied i else app.applied i }

end AppState

variable [Crates]

/-! ## `POST /v1/sessions` -/

structure CreateSessionRequest where
  source : SourceFields
  ttlSeconds : Option UInt64 := none

/-- Result of the compile-and-start blocking step. -/
inductive StartOutcome
  | Started (tracker : StatsTracker) (step : SessionStep)
  | CompileFailed (exception : ApiException)

inductive CreateOutcome
  | Created (view : SessionView)
  | CompileFailed (exception : ApiException)

/-- The work `create` hands to `spawn_execution`, and when it ends. -/
def SourceSpec.start (spec : SourceSpec) (limits : ResolvedLimits) (now : Instant) (lag : Lag) :
    Option StartOutcome × Instant :=
  match spec.program with
  | .error exc => (some (.CompileFailed (.from exc)), now)
  | .ok (run, inputs) =>
    let (step, w) := startSession run inputs limits now lag
    (step.map (.Started w.tracker), w.now)

/-- `CreateError::AtCapacity`. -/
def atCapacity (maxSessions : Nat) : ApiError :=
  .Unavailable
    ("session capacity reached (" ++ toString maxSessions ++ " live sessions); retry later")

/-- Where `create` is. `checked` is between the length check and the insertion. -/
inductive Create
  | received
  | executing (ttl : Duration) (limits : ResolvedLimits) (spawn : Spawn SourceSpec StartOutcome)
  | checked (ttl : Duration) (tracker : StatsTracker) (step : SessionStep)
  | inserted (id : Uuid)
  | fetched (id : Uuid)
  | done (response : ApiResult CreateOutcome)
  | dropped

namespace Create

/-- The next synchronous piece of `create`. -/
def advance (app : AppState) (caller : String) (request : CreateSessionRequest) :
    Create → Option (AppState × Create)
  | .received =>
    let limits := resolveLimits request.source.limits app.config.limits
    let ttl := resolveTtl request.ttlSeconds app.config.sessions
    some (app, match request.source.intoSpec with
      | .error err => .done (.error err)
      | .ok spec => .executing ttl limits (.queued spec))
  -- the `JoinError` of a panic, or of a task that was cancelled before it started
  | .executing _ _ (.finished none) => some (app, .done (.error .Internal))
  | .executing _ _ (.finished (some (.CompileFailed exc))) =>
    some (app, .done (.ok (.CompileFailed exc)))
  -- `SessionStore::create` looks at the length here and inserts in another step
  | .executing ttl _ (.finished (some (.Started tracker step))) =>
    some (app, if app.sessions.hasRoom then .checked ttl tracker step
      else .done (.error (atCapacity app.sessions.maxSessions)))
  -- by now the session may have been removed again
  | .inserted id =>
    some (app, match app.sessions.get id caller with
      | none => .done (.error .Internal)
      | some id => .fetched id)
  | .fetched id => do
    let e ← app.sessions.entries id
    some (app, .done ((render id e app.now).map .Created))
  | _ => none

/-- The insertion of `SessionStore::create`, under an id no session has had (`Uuid::new_v4`). -/
def insert (app : AppState) (i : RequestId) (caller : String) (id : Uuid) :
    Create → Option (AppState × Create)
  | .checked ttl tracker step =>
    match app.sessions.entries id with
    | some _ => none
    | none =>
      some ((app.insert id (.new caller ttl tracker step app.now)).extend id
        ⟨i, none, step, tracker⟩, .inserted id)
  | _ => none

def step (app : AppState) (i : RequestId) (caller : String) (request : CreateSessionRequest) :
    Move → Create → Option (AppState × Create)
  | .advance, phase => phase.advance app caller request
  | .insert id, phase => phase.insert app i caller id
  | .drop, .received => some (app, .dropped)
  | .finish entered lag, .executing ttl limits spawn => do
    let (free, spawn) ← spawn.finish app.concurrency app.now entered
      fun spec => spec.start limits entered lag
    some (app.setConcurrency free, .executing ttl limits spawn)
  | m, .executing ttl limits spawn => do
    let (free, spawn) ← spawn.move app.concurrency app.now m
    some (app.setConcurrency free, .executing ttl limits spawn)
  | _, _ => none

end Create

/-! ## `POST /v1/sessions/{id}/resume` -/

/-- Where `resume` is. The progress it has taken is the work of its `spawn_execution`; `stored` is
between `store_step` and the lock for the response. -/
inductive Resume
  | received
  | found (input : ResumeInput)
  | executing (input : ResumeInput) (spawn : Spawn RunProgress ResumeResult)
  | stored
  | done (response : ApiResult SessionView)
  | rejected
  | dropped

namespace Resume

/-- The next synchronous piece of `resume`. -/
def advance (app : AppState) (i : RequestId) (caller : String) (id : Uuid) (body : Value) :
    Resume → Option (AppState × Resume)
  -- the body is judged before the store is asked
  | .received =>
    some (app, match resumeInput body with
      | none => .rejected
      | some (.error err) => .done (.error err)
      | some (.ok input) =>
        match app.sessions.get id caller with
        | none => .done (.error .SessionNotFound)
        | some _ => .found input)
  -- the pointer is good even if the key has gone since
  | .found input => do
    let e ← app.sessions.entries id
    match e.acquireForResume with
    | .error err => some (app, .done (.error (acquireError err)))
    | .ok (progress, e) => some (app.setEntry id e, .executing input (.queued progress))
  -- the `?` on the `JoinError`: the progress went with the task
  | .executing _ (.finished none) => some (app, .done (.error .Internal))
  | .executing input (.finished (some (.Stepped step))) => do
    let e ← app.sessions.entries id
    some ((app.setEntry id (e.storeStep step app.now)).extend id ⟨i, some input, step, e.tracker⟩,
      .stored)
  | .executing _ (.finished (some (.Mismatch progress error))) => do
    let e ← app.sessions.entries id
    some (app.setEntry id (e.restore progress), .done (.error (.BadRequest error.message)))
  -- a second lock: what is rendered is what the entry shows by then
  | .stored => do
    let e ← app.sessions.entries id
    some (app, .done (render id e app.now))
  | _ => none

/-- The blocking task of `resume` returns: `resume_session` has run on the session's tracker. -/
def finish (app : AppState) (id : Uuid) (entered : Instant) (lag : Lag) (input : ResumeInput)
    (progress : RunProgress) (since : Instant) (awaited : Bool) : Option (AppState × Resume) := do
  let e ← app.sessions.entries id
  let (result, w) := resumeSession progress e.tracker input entered lag
  -- the engine was entered once the pool had started the task, and has returned by now
  if since ≤ entered ∧ w.now ≤ app.now then
    some (((app.setEntry id { e with tracker := w.tracker }).apply id (progress, e.tracker)
      input).setConcurrency (app.concurrency + 1), .executing input (.settled awaited result))
  else none

def step (app : AppState) (i : RequestId) (caller : String) (id : Uuid) (body : Value) :
    Move → Resume → Option (AppState × Resume)
  | .advance, phase => phase.advance app i caller id body
  | .drop, .received => some (app, .dropped)
  | .finish entered lag, .executing input (.running progress since awaited) =>
    finish app id entered lag input progress since awaited
  | m, .executing input spawn => do
    let (free, spawn) ← spawn.move app.concurrency app.now m
    some (app.setConcurrency free, .executing input spawn)
  | _, _ => none

end Resume

/-! ## `GET` and `DELETE /v1/sessions/{id}` -/

inductive Status
  | received
  | found
  | done (response : ApiResult SessionView)
  | dropped

def Status.step (app : AppState) (caller : String) (id : Uuid) :
    Move → Status → Option (AppState × Status)
  | .advance, .received =>
    some (app, match app.sessions.get id caller with
      | none => .done (.error .SessionNotFound)
      | some _ => .found)
  | .advance, .found => do
    let e ← app.sessions.entries id
    some (app, .done (render id e app.now))
  | .drop, .received => some (app, .dropped)
  | _, _ => none

/-- Where `delete` is: `remove` looks at the owner first and takes the key out of the map then. -/
inductive Delete
  | received
  | owned
  | done (response : ApiResult Unit)
  | dropped

def Delete.step (app : AppState) (caller : String) (id : Uuid) :
    Move → Delete → Option (AppState × Delete)
  | .advance, .received =>
    some (app, if app.sessions.owned id caller then .owned else .done (.error .SessionNotFound))
  -- the key may have gone since the look at the owner
  | .advance, .owned =>
    some ({ app with sessions := app.sessions.removeKey id },
      .done (if app.sessions.sessions.contains id then .ok () else .error .SessionNotFound))
  | .drop, .received => some (app, .dropped)
  | _, _ => none

/-! ## `POST /v1/run` and `POST /v1/compile` -/

/-- Where a stateless endpoint is. -/
inductive Stateless (W R : Type)
  | received
  | executing (spawn : Spawn W (ApiResult R))
  | done (response : ApiResult R)
  | dropped

def Stateless.step {W R : Type} (app : AppState) (work : ApiResult W)
    (run : Instant → Lag → W → Option (ApiResult R) × Instant) :
    Move → Stateless W R → Option (AppState × Stateless W R)
  | .advance, .received =>
    some (app, match work with
      | .error err => .done (.error err)
      | .ok work => .executing (.queued work))
  | .advance, .executing (.finished none) => some (app, .done (.error .Internal))
  | .advance, .executing (.finished (some result)) => some (app, .done result)
  | .drop, .received => some (app, .dropped)
  | .finish entered lag, .executing spawn => do
    let (free, spawn) ← spawn.finish app.concurrency app.now entered (run entered lag)
    some (app.setConcurrency free, .executing spawn)
  | m, .executing spawn => do
    let (free, spawn) ← spawn.move app.concurrency app.now m
    some (app.setConcurrency free, .executing spawn)
  | _, _ => none

abbrev RunCode := Stateless (SourceSpec × ResolvedLimits) Outcome
abbrev CompileCode := Stateless CompileRequest CompileResponse

/-- `POST /v1/run`. -/
def RunCode.step (app : AppState) (fields : SourceFields) :
    Move → RunCode → Option (AppState × RunCode) :=
  Stateless.step app
    (do return (← fields.intoSpec, resolveLimits fields.limits app.config.limits))
    fun entered lag (spec, limits) => spec.run limits entered lag

/-- `POST /v1/compile`. -/
def CompileCode.step (app : AppState) (request : CompileRequest) :
    Move → CompileCode → Option (AppState × CompileCode) :=
  Stateless.step app (.ok request) fun entered _ request => (some request.work, entered)

end MontyServer
