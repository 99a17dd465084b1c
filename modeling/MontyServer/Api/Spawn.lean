import MontyServer.Session

/-!
# `spawn_execution`

`api/mod.rs`: blocking work is run on the blocking pool, gated by the concurrency semaphore. Of
tokio it is taken that an owned permit returns to the semaphore exactly when it is dropped, that a
blocking task goes on when its `JoinHandle` is dropped, and that a task which panics, or which the
runtime cancels before it has started, is a `JoinError` to whoever awaits it.
-/

namespace MontyServer

/-- One call of `spawn_execution`: its `work`, where it has got to, and what came out. `awaited`
says whether the handler that called it still waits; `result` is `none` for a `JoinError`. -/
inductive Spawn (W R : Type)
  | queued (work : W)
  | admitted (work : W)
  | spawned (work : W) (awaited : Bool)
  | running (work : W) (since : Instant) (awaited : Bool)
  | finished (result : Option R)
  | dropped

/-- What can happen to a request next. Everything between two awaits that touches shared state once
is one `advance`; an `insert` is the one that draws a fresh session id. -/
inductive Move
  | advance
  | insert (id : Uuid)
  /-- The semaphore hands out a permit. -/
  | acquire
  /-- The task is spawned. -/
  | spawn
  /-- The blocking pool starts it. -/
  | start
  /-- It returns; the engine was entered at `entered`. -/
  | finish (entered : Instant) (lag : Lag)
  /-- The runtime cancels a task that has not started. -/
  | abort
  /-- The request is dropped: the client has gone, or the timeout layer has answered. -/
  | drop

namespace Spawn

variable {W R : Type}

/-- A task has ended. -/
def settled (awaited : Bool) (result : Option R) : Spawn W R :=
  if awaited then .finished result else .dropped

/-- What can happen to a call besides its work returning; `free` is the permits the semaphore has
left. -/
def move (free : Nat) (now : Instant) : Move → Spawn W R → Option (Nat × Spawn W R)
  | .acquire, .queued work => if 0 < free then some (free - 1, .admitted work) else none
  | .spawn, .admitted work => some (free, .spawned work true)
  | .start, .spawned work awaited => some (free, .running work now awaited)
  -- the closure is dropped and with it the permit
  | .abort, .spawned _ awaited => some (free + 1, settled awaited none)
  | .drop, .queued _ => some (free, .dropped)
  | .drop, .admitted _ => some (free + 1, .dropped)
  -- the task keeps the permit and goes on
  | .drop, .spawned work true => some (free, .spawned work false)
  | .drop, .running work since true => some (free, .running work since false)
  | .drop, .finished _ => some (free, .dropped)
  | _, _ => none

/-- The task returns: what `work` gives when the engine is entered at `entered`, and when. -/
def finish (free : Nat) (now entered : Instant) (run : W → Option R × Instant) :
    Spawn W R → Option (Nat × Spawn W R)
  | .running work since awaited =>
    let (result, ended) := run work
    if since ≤ entered ∧ ended ≤ now then some (free + 1, settled awaited result) else none
  | _ => none

end Spawn

end MontyServer
