import MontyServer.Invariants

/-!
# Permits

Where the permits of the concurrency semaphore are. A request has one from the moment the semaphore
hands it out; it goes with the blocking task once that is spawned, and comes back when the task is
over, whoever still waits for it. So nothing is ever lost or made: what the semaphore has left and
what requests and tasks hold is always `max_concurrency` (`permits_conserved`).
-/

namespace MontyServer

/-- How far a request has got in `spawn_execution`, as far as its permit goes. -/
inductive Stage
  /-- It has no permit: not asked for one yet, still in the queue, or done with it. -/
  | without
  /-- It has one and is about to spawn its task. -/
  | admitted
  /-- The task has it, and waits for a thread of the blocking pool. -/
  | spawned
  /-- The task has it, and `work` is executing. -/
  | running
  deriving DecidableEq

namespace Stage

/-- The permit has gone with a blocking task. -/
def IsTask (stage : Stage) : Prop := stage = .spawned ∨ stage = .running

def permits : Stage → Nat
  | .without => 0
  | .admitted | .spawned | .running => 1

/-- What a move does to the permits the semaphore has left and to the stage of the request. -/
inductive Trans : Move → Nat → Stage → Nat → Stage → Prop
  | idle {m : Move} {free : Nat} : Trans m free .without free .without
  | acquire {free : Nat} : Trans .acquire (free + 1) .without free .admitted
  | spawn {free : Nat} : Trans .spawn free .admitted free .spawned
  | start {free : Nat} : Trans .start free .spawned free .running
  | giveUp {free : Nat} : Trans .drop free .admitted (free + 1) .without
  | leave {free : Nat} {stage : Stage} : stage.IsTask → Trans .drop free stage free stage
  | abort {free : Nat} : Trans .abort free .spawned (free + 1) .without
  | finish {free : Nat} {entered : Instant} {lag : Lag} :
    Trans (.finish entered lag) free .running (free + 1) .without

variable {m : Move} {free free' : Nat} {stage stage' : Stage}

/-- A permit the semaphore gives out is one a request has, and the other way round. -/
theorem Trans.conserved (h : Trans m free stage free' stage') :
    free' + stage'.permits = free + stage.permits := by
  cases h <;> rfl

/-- A dropped request leaves its task alone. -/
theorem Trans.drop (h : Trans .drop free stage free' stage') (htask : stage.IsTask) :
    stage' = stage ∧ free' = free := by
  cases h with
  | idle => exact ⟨rfl, rfl⟩
  | giveUp => rcases htask with h | h <;> cases h
  | leave _ => exact ⟨rfl, rfl⟩

/-- A task that is over has given its permit back. -/
theorem Trans.over (h : Trans m free stage free' stage') (htask : stage.IsTask)
    (hover : ¬ stage'.IsTask) : stage' = .without ∧ free' = free + 1 := by
  cases h with
  | idle => rcases htask with h | h <;> cases h
  | acquire => rcases htask with h | h <;> cases h
  | spawn => exact (hover (.inl rfl)).elim
  | start => exact (hover (.inr rfl)).elim
  | giveUp => exact ⟨rfl, rfl⟩
  | leave _ => exact (hover htask).elim
  | abort => exact ⟨rfl, rfl⟩
  | finish => exact ⟨rfl, rfl⟩

end Stage

/-! ## The stage of a request -/

namespace Spawn

variable {W R : Type}

def stage : Spawn W R → Stage
  | .admitted _ => .admitted
  | .spawned _ _ => .spawned
  | .running _ _ _ => .running
  | .queued _ | .finished _ | .dropped => .without

@[simp] theorem stage_settled (awaited : Bool) (result : Option R) :
    (settled awaited result : Spawn W R).stage = .without := by
  cases awaited <;> rfl

theorem move_stage {s s' : Spawn W R} {m : Move} {free free' : Nat} {now : Instant}
    (h : s.move free now m = some (free', s')) : Stage.Trans m free s.stage free' s'.stage := by
  unfold move at h
  split at h
  · split at h
    · next hfree =>
      cases h
      obtain ⟨n, rfl⟩ : ∃ n, free = n + 1 := ⟨free - 1, by omega⟩
      exact .acquire
    · cases h
  · cases h; exact .spawn
  · cases h; exact .start
  · cases h
    rw [stage_settled]
    exact .abort
  · cases h; exact .idle
  · cases h; exact .giveUp
  · cases h; exact .leave (.inl rfl)
  · cases h; exact .leave (.inr rfl)
  · cases h; exact .idle
  · cases h

theorem finish_stage {s s' : Spawn W R} {free free' : Nat} {now entered : Instant} {lag : Lag}
    {run : W → Option R × Instant} (h : s.finish free now entered run = some (free', s')) :
    Stage.Trans (.finish entered lag) free s.stage free' s'.stage := by
  unfold finish at h
  split at h
  · dsimp only at h
    split at h
    · cases h
      rw [stage_settled]
      exact .finish
    · cases h
  · cases h

end Spawn

def Create.stage : Create → Stage
  | .executing _ _ spawn => spawn.stage
  | _ => .without

def Resume.stage : Resume → Stage
  | .executing _ spawn => spawn.stage
  | _ => .without

def Stateless.stage {W R : Type} : Stateless W R → Stage
  | .executing spawn => spawn.stage
  | _ => .without

def Handler.stage : Handler → Stage
  | .create _ phase => phase.stage
  | .resume _ _ phase => phase.stage
  | .run _ phase => phase.stage
  | .compile _ phase => phase.stage
  | .status .. | .delete .. => .without

/-! ## What a handler does with its permit -/

section Handlers

variable [Crates]

theorem Create.step_stage {app app' : AppState} {i : RequestId} {caller : String}
    {request : CreateSessionRequest} {m : Move} {phase phase' : Create}
    (h : phase.step app i caller request m = some (app', phase')) :
    Stage.Trans m app.concurrency phase.stage app'.concurrency phase'.stage := by
  unfold Create.step at h
  split at h
  · -- `advance` is never taken while there is a permit
    unfold Create.advance at h
    split at h
    · cases h
      split <;> exact .idle
    · cases h; exact .idle
    · cases h; exact .idle
    · cases h
      split <;> exact .idle
    · cases h
      split <;> exact .idle
    · obtain ⟨e, -, h⟩ := Option.bind_eq_some_iff.mp h
      cases h
      exact .idle
    · cases h
  · unfold Create.insert at h
    split at h
    · split at h
      · cases h
      · cases h; exact .idle
    · cases h
  · cases h; exact .idle
  · obtain ⟨⟨free, spawn'⟩, hs, h⟩ := Option.bind_eq_some_iff.mp h
    cases h
    exact Spawn.finish_stage hs
  · obtain ⟨⟨free, spawn'⟩, hs, h⟩ := Option.bind_eq_some_iff.mp h
    cases h
    exact Spawn.move_stage hs
  · cases h

theorem Resume.step_stage {app app' : AppState} {i : RequestId} {caller : String} {id : Uuid}
    {body : Value} {m : Move} {phase phase' : Resume}
    (h : phase.step app i caller id body m = some (app', phase')) :
    Stage.Trans m app.concurrency phase.stage app'.concurrency phase'.stage := by
  unfold Resume.step at h
  split at h
  · unfold Resume.advance at h
    split at h
    · cases h
      split
      · exact .idle
      · exact .idle
      · split <;> exact .idle
    · obtain ⟨e, -, h⟩ := Option.bind_eq_some_iff.mp h
      split at h <;> cases h <;> exact .idle
    · cases h; exact .idle
    · obtain ⟨e, -, h⟩ := Option.bind_eq_some_iff.mp h
      cases h
      exact .idle
    · obtain ⟨e, -, h⟩ := Option.bind_eq_some_iff.mp h
      cases h
      exact .idle
    · obtain ⟨e, -, h⟩ := Option.bind_eq_some_iff.mp h
      cases h
      exact .idle
    · cases h
  · cases h; exact .idle
  · unfold Resume.finish at h
    obtain ⟨e, -, h⟩ := Option.bind_eq_some_iff.mp h
    dsimp only at h
    split at h
    · cases h
      show Stage.Trans _ _ .running (_ + 1) (Spawn.settled _ _).stage
      rw [Spawn.stage_settled]
      exact .finish
    · cases h
  · obtain ⟨⟨free, spawn'⟩, hs, h⟩ := Option.bind_eq_some_iff.mp h
    cases h
    exact Spawn.move_stage hs
  · cases h

omit [Crates] in
theorem Stateless.step_stage {W R : Type} {app app' : AppState} {work : ApiResult W}
    {run : Instant → Lag → W → Option (ApiResult R) × Instant} {m : Move}
    {phase phase' : Stateless W R} (h : phase.step app work run m = some (app', phase')) :
    Stage.Trans m app.concurrency phase.stage app'.concurrency phase'.stage := by
  unfold Stateless.step at h
  split at h
  · cases h
    split <;> exact .idle
  · cases h; exact .idle
  · cases h; exact .idle
  · cases h; exact .idle
  · obtain ⟨⟨free, spawn'⟩, hs, h⟩ := Option.bind_eq_some_iff.mp h
    cases h
    exact Spawn.finish_stage hs
  · obtain ⟨⟨free, spawn'⟩, hs, h⟩ := Option.bind_eq_some_iff.mp h
    cases h
    exact Spawn.move_stage hs
  · cases h

theorem Handler.step_stage {app app' : AppState} {i : RequestId} {caller : String} {m : Move}
    {handler handler' : Handler} (h : handler.step app i caller m = some (app', handler')) :
    Stage.Trans m app.concurrency handler.stage app'.concurrency handler'.stage := by
  cases handler with
  | create request phase =>
    obtain ⟨⟨app', phase'⟩, hphase, h⟩ := Option.bind_eq_some_iff.mp h
    cases h
    exact Create.step_stage hphase
  | resume id body phase =>
    obtain ⟨⟨app', phase'⟩, hphase, h⟩ := Option.bind_eq_some_iff.mp h
    cases h
    exact Resume.step_stage hphase
  | status id phase =>
    obtain ⟨⟨app', phase'⟩, hphase, h⟩ := Option.bind_eq_some_iff.mp h
    cases h
    obtain ⟨rfl, -⟩ := Status.step_cases hphase
    exact .idle
  | delete id phase =>
    obtain ⟨⟨app', phase'⟩, hphase, h⟩ := Option.bind_eq_some_iff.mp h
    cases h
    cases Delete.step_cases hphase <;> exact .idle
  | run fields phase =>
    obtain ⟨⟨app', phase'⟩, hphase, h⟩ := Option.bind_eq_some_iff.mp h
    cases h
    exact Stateless.step_stage hphase
  | compile request phase =>
    obtain ⟨⟨app', phase'⟩, hphase, h⟩ := Option.bind_eq_some_iff.mp h
    cases h
    exact Stateless.step_stage hphase

end Handlers

/-! ## All requests together -/

namespace Server

/-- The stage of request `i`. -/
def stage (s : Server) (i : RequestId) : Stage :=
  (s.requests[i]?).elim .without fun r => r.handler.stage

/-- How many requests are at a stage. -/
def atStage (s : Server) (stage : Stage) : Nat :=
  s.requests.countP fun r => r.handler.stage = stage

/-- How many permits requests and tasks hold. -/
def held (s : Server) : Nat := (s.requests.map fun r => r.handler.stage.permits).sum

/-- The permits are all there. -/
def Conserved (config : Config) (s : Server) : Prop :=
  s.app.concurrency + s.held = config.maxConcurrency

theorem held_eq (s : Server) :
    s.held = s.atStage .admitted + s.atStage .spawned + s.atStage .running := by
  unfold held atStage
  induction s.requests with
  | nil => rfl
  | cons r requests ih =>
    rw [List.map_cons, List.sum_cons, ih]
    simp only [List.countP_cons]
    cases r.handler.stage <;> simp [Stage.permits] <;> omega

variable [Crates]

/-- **Step lemma**: a move of request `i` is one of the moves of its permit. -/
theorem step_stage {s s' : Server} {i : RequestId} {m : Move}
    (h : s.step (.move i m) = some s') :
    Stage.Trans m s.app.concurrency (s.stage i) s'.app.concurrency (s'.stage i) := by
  obtain ⟨r, hr, h⟩ := Option.bind_eq_some_iff.mp h
  obtain ⟨⟨app, handler⟩, hstep, h⟩ := Option.bind_eq_some_iff.mp h
  cases h
  have hi : i < s.requests.length := (List.getElem?_eq_some_iff.mp hr).1
  have hbefore : s.stage i = r.handler.stage := by simp only [stage, hr, Option.elim_some]
  have hafter : (s.advanced app i { r with handler }).stage i = handler.stage := by
    simp [stage, advanced, hi]
  rw [hbefore]
  exact hafter ▸ Handler.step_stage hstep

omit [Crates] in
/-- Replacing one request changes what is held by what that request holds. -/
theorem held_set {s : Server} {i : RequestId} {r r₀ : Request} (hr : s.requests[i]? = some r₀)
    (app : AppState) : (s.advanced app i r).held + r₀.handler.stage.permits =
      s.held + r.handler.stage.permits := by
  unfold held advanced
  generalize s.requests = requests at hr
  induction requests generalizing i with
  | nil => cases hr
  | cons r' requests ih =>
    cases i with
    | zero =>
      cases hr
      simp only [List.set_cons_zero, List.map_cons, List.sum_cons]
      omega
    | succ i =>
      rw [List.getElem?_cons_succ] at hr
      have hrest := ih hr
      simp only [List.set_cons_succ, List.map_cons, List.sum_cons] at hrest ⊢
      omega

/-- **Step lemma**: no step loses a permit or makes one. -/
theorem Conserved.step {config : Config} {s s' : Server} {a : Action} (hs : s.Conserved config)
    (h : s.step a = some s') : s'.Conserved config := by
  unfold Conserved at hs ⊢
  cases a with
  | tick d => cases h; exact hs
  | arrive caller call =>
    cases h
    have hnew : call.handler.stage = .without := by cases call <;> rfl
    simpa [held, hnew, Stage.permits] using hs
  | move i m =>
    obtain ⟨r, hr, h⟩ := Option.bind_eq_some_iff.mp h
    obtain ⟨⟨app, handler⟩, hstep, h⟩ := Option.bind_eq_some_iff.mp h
    cases h
    have hpermits := (Handler.step_stage hstep).conserved
    have hheld := held_set (r := { r with handler }) hr app
    simp only [advanced] at hheld hpermits ⊢
    omega
  | collect =>
    rw [Server.step] at h
    split at h <;> cases h
    exact hs
  | evict =>
    rw [Server.step] at h
    split at h <;> cases h
    exact hs

omit [Crates] in
theorem conserved_new (config : Config) : (Server.new config).Conserved config := by
  simp [Conserved, held, Server.new, AppState.new]

/-- **Run lemma**: the permits are all there in every reachable state. -/
theorem Reachable.conserved {config : Config} {s : Server} (h : Reachable config s) :
    s.Conserved config :=
  Run.Reachable.invariant (fun _ _ _ hs hstep => hs.step hstep) (conserved_new config) h

end Server

variable [Crates]

/-- **Bounded concurrency without leaks.** In every reachable state at most `max_concurrency`
closures execute, and the free permits, those of requests about to spawn, and those of tasks that
wait for a thread or execute add up to `max_concurrency`. A request that is dropped leaves its task
and the permit of the task as they are, and a task that is over, by returning, by a panic or by
being cancelled, has given the permit back, whoever waits for it. -/
theorem permits_conserved (config : Config) (s : Server) (h : Server.Reachable config s) :
    s.atStage .running ≤ config.maxConcurrency ∧
    s.app.concurrency + s.atStage .admitted + (s.atStage .spawned + s.atStage .running) =
      config.maxConcurrency ∧
    (∀ i s', s.step (.move i .drop) = some s' → (s.stage i).IsTask →
      s'.stage i = s.stage i ∧ s'.app.concurrency = s.app.concurrency) ∧
    ∀ i m s', s.step (.move i m) = some s' → (s.stage i).IsTask → ¬ (s'.stage i).IsTask →
      s'.stage i = .without ∧ s'.app.concurrency = s.app.concurrency + 1 := by
  have hall : s.app.concurrency + s.held = config.maxConcurrency := h.conserved
  rw [Server.held_eq] at hall
  refine ⟨by omega, by omega, ?_, ?_⟩
  · intro i s' hstep htask
    exact (Server.step_stage hstep).drop htask
  · intro i m s' hstep htask hover
    exact (Server.step_stage hstep).over htask hover

omit [Crates] in
/-- A closure executes for a request that is gone. -/
theorem permits_conserved_abandoned :
    ∃ (_ : Crates) (s : Server), s.atStage .running = 1 ∧ s.app.concurrency = 3 ∧
      s.atStage .running ≤ Sample.config.maxConcurrency ∧
      s.app.concurrency + s.atStage .admitted + (s.atStage .spawned + s.atStage .running) =
        Sample.config.maxConcurrency := by
  let _ := Sample.crates
  have hrun : (Run.exec Server.step (.new Sample.config)
      (Sample.opening ++ Sample.taking 1 ++
        [.move 1 .acquire, .move 1 .spawn, .move 1 .start, .move 1 .drop])).any
      (fun s => s.atStage .running = 1 && s.app.concurrency = 3) = true := by decide
  obtain ⟨s, hs, htest⟩ := Option.any_eq_true _ _ |>.mp hrun
  simp only [Bool.and_eq_true, decide_eq_true_eq] at htest
  have hall := permits_conserved Sample.config s ⟨_, hs⟩
  exact ⟨Sample.crates, s, htest.1, htest.2, hall.1, hall.2.1⟩

end MontyServer
