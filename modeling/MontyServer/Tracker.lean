import MontyServer.Limits

/-!
# The resource tracker

`tracker.rs`: one `StatsTracker` per execution, shared by its clones. A clone is the same `Arc`, so
the state below is *the* state every clone sees; each method takes it and returns the next one. A
method that reads the clock takes the instant it reads (`end_segment` reads it twice and takes
both).

Machine integers wrap as in the release build: `usize` and `u64` are `UInt64`, the sampling counter
is a `UInt32`.
-/

namespace MontyServer

/-- How often `check_time` actually reads the clock. -/
def TIME_CHECK_INTERVAL : UInt32 := 16

/-- Which limit, if any, a tracker breached. -/
inductive Breach
  | Time
  | Memory
  | Allocations
  | Recursion
  deriving DecidableEq, Repr

/-- The limit a refusal names. -/
def ResourceError.limit : ResourceError → Breach
  | .Allocation .. => .Allocations
  | .Memory .. => .Memory
  | .Time .. => .Time
  | .Recursion .. => .Recursion

/-- Observable counters captured at a point in time. -/
structure ExecStats where
  duration : Duration
  allocations : UInt64
  peakMemoryBytes : Usize
  deriving DecidableEq, Repr

structure Clock where
  /-- Start of the currently running segment. -/
  segmentStart : Instant
  /-- Execution time from previously finished segments. -/
  accumulated : Duration
  deriving DecidableEq, Repr

structure StatsTracker where
  maxDuration : Option Duration
  maxMemory : Option Usize
  maxAllocations : Option UInt64
  maxRecursionDepth : Option Usize
  gcInterval : Option Usize
  allocations : UInt64
  liveMemory : Usize
  peakMemory : Usize
  timeCheckCounter : UInt32
  /-- First breach observed, encoded by `Breach.code`; `0` means none. -/
  breachCode : UInt8
  clock : Clock
  deriving DecidableEq, Repr

/-- `usize::saturating_add`. -/
def saturatingAdd (a b : Usize) : Usize :=
  if a.toNat + b.toNat < UInt64.size then a + b else UInt64.ofNat (UInt64.size - 1)

/-- `usize::saturating_sub`. -/
def saturatingSub (a b : Usize) : Usize := if b ≤ a then a - b else 0

/-- The `u8` a breach is stored as. -/
def Breach.code : Breach → UInt8
  | .Time => 1
  | .Memory => 2
  | .Allocations => 3
  | .Recursion => 4

namespace StatsTracker

def new (limits : ResolvedLimits) (now : Instant) : StatsTracker where
  maxDuration := some limits.maxDuration
  maxMemory := some limits.maxMemoryBytes
  maxAllocations := some limits.maxAllocations
  maxRecursionDepth := some limits.maxRecursionDepth
  gcInterval := limits.gcInterval
  allocations := 0
  liveMemory := 0
  peakMemory := 0
  timeCheckCounter := 0
  breachCode := 0
  clock := { segmentStart := now, accumulated := 0 }

/-! ## Segments, the clock and the counters -/

def beginSegment (t : StatsTracker) (now : Instant) : StatsTracker :=
  { t with clock := { t.clock with segmentStart := now } }

/-- `now` is the first clock read of `end_segment`, which the segment's length is taken from, and
`now'` the second, which the segment start is reset to. -/
def endSegment (t : StatsTracker) (now now' : Instant) : StatsTracker :=
  { t with clock :=
    { accumulated := t.clock.accumulated + (now - t.clock.segmentStart), segmentStart := now' } }

/-- Total execution time across all segments. -/
def elapsed (t : StatsTracker) (now : Instant) : Duration :=
  t.clock.accumulated + (now - t.clock.segmentStart)

def stats (t : StatsTracker) (now : Instant) : ExecStats where
  duration := t.elapsed now
  allocations := t.allocations
  peakMemoryBytes := t.peakMemory

/-- The first limit breach observed, if any. -/
def breach (t : StatsTracker) : Option Breach :=
  if t.breachCode = 1 then some .Time
  else if t.breachCode = 2 then some .Memory
  else if t.breachCode = 3 then some .Allocations
  else if t.breachCode = 4 then some .Recursion
  else none

/-- Records the first breach seen; later breaches are ignored (`compare_exchange(0, code)`). -/
def recordBreach (t : StatsTracker) (breach : Breach) : StatsTracker :=
  if t.breachCode = 0 then { t with breachCode := breach.code } else t

/-- Stores live memory and bumps the peak watermark. -/
def storeMemory (t : StatsTracker) (newMemory : Usize) : StatsTracker :=
  { t with liveMemory := newMemory, peakMemory := max t.peakMemory newMemory }

/-! ## `impl ResourceTracker for StatsTracker` -/

def onAllocate (t : StatsTracker) (size : Usize) : StatsTracker × Answer :=
  let count := t.allocations
  match t.maxAllocations.filter (count ≥ ·) with
  | some max => (t.recordBreach .Allocations, .error (.Allocation max (count + 1)))
  | none =>
    let newMemory := t.liveMemory + size
    match t.maxMemory.filter (newMemory > ·) with
    | some max => (t.recordBreach .Memory, .error (.Memory max newMemory))
    | none => (({ t with allocations := count + 1 } : StatsTracker).storeMemory newMemory, .ok ())

def onFree (t : StatsTracker) (size : Usize) : StatsTracker × Answer :=
  ({ t with liveMemory := saturatingSub t.liveMemory size }, .ok ())

def onGrow (t : StatsTracker) (additionalBytes : Usize) : StatsTracker × Answer :=
  let newMemory := saturatingAdd t.liveMemory additionalBytes
  match t.maxMemory.filter (newMemory > ·) with
  | some max => (t.recordBreach .Memory, .error (.Memory max newMemory))
  | none => (t.storeMemory newMemory, .ok ())

def checkTime (t : StatsTracker) (now : Instant) : StatsTracker × Answer :=
  match t.maxDuration with
  | none => (t, .ok ())
  | some max =>
    let count := t.timeCheckCounter + 1
    let t := { t with timeCheckCounter := count }
    if count % TIME_CHECK_INTERVAL ≠ 0 then (t, .ok ())
    else
      let elapsed := t.elapsed now
      if elapsed > max then
        -- re-arm the counter so that the next call reads the clock again
        let t := { t with timeCheckCounter := TIME_CHECK_INTERVAL - 1 }
        (t.recordBreach .Time, .error (.Time max elapsed))
      else (t, .ok ())

def checkRecursionDepth (t : StatsTracker) (currentDepth : Usize) : StatsTracker × Answer :=
  match t.maxRecursionDepth.filter (currentDepth ≥ ·) with
  | some max => (t.recordBreach .Recursion, .error (.Recursion max (currentDepth + 1)))
  | none => (t, .ok ())

def checkLargeResult (t : StatsTracker) (estimatedBytes : Usize) : StatsTracker × Answer :=
  let projected := saturatingAdd t.liveMemory estimatedBytes
  match t.maxMemory.filter (projected > ·) with
  | some max => (t.recordBreach .Memory, .error (.Memory max projected))
  | none => (t, .ok ())

/-- Dispatch of the trait's methods, for a call made at `now`. -/
def call (t : StatsTracker) (now : Instant) : TrackerCall → StatsTracker × Answer
  | .onAllocate size => t.onAllocate size
  | .onFree size => t.onFree size
  | .onGrow additionalBytes => t.onGrow additionalBytes
  | .checkTime => t.checkTime now
  | .checkRecursionDepth currentDepth => t.checkRecursionDepth currentDepth
  | .checkLargeResult estimatedBytes => t.checkLargeResult estimatedBytes

end StatsTracker

/-! ## Histories of a tracker -/

/-- Something that happens to a tracker, with the clock readings it makes. -/
inductive TrackerEvent
  | beginSegment (now : Instant)
  | endSegment (now now' : Instant)
  | call (now : Instant) (c : TrackerCall)
  deriving DecidableEq, Repr

namespace StatsTracker

/-- The state after one event, and its answer; a segment boundary refuses nothing. -/
def handle (t : StatsTracker) : TrackerEvent → StatsTracker × Answer
  | .beginSegment now => (t.beginSegment now, .ok ())
  | .endSegment now now' => (t.endSegment now now', .ok ())
  | .call now c => t.call now c

/-- The state after a history. -/
def replay (t : StatsTracker) (events : List TrackerEvent) : StatsTracker :=
  events.foldl (fun t e => (t.handle e).1) t

/-- A history together with the answer each of its events got. -/
def answers (t : StatsTracker) : List TrackerEvent → List (TrackerEvent × Answer)
  | [] => []
  | e :: events => (e, (t.handle e).2) :: (t.handle e).1.answers events

@[simp] theorem replay_nil (t : StatsTracker) : t.replay [] = t := rfl

@[simp] theorem replay_append (t : StatsTracker) (es fs : List TrackerEvent) :
    t.replay (es ++ fs) = (t.replay es).replay fs := by
  simp [replay]

@[simp] theorem replay_singleton (t : StatsTracker) (e : TrackerEvent) :
    t.replay [e] = (t.handle e).1 := rfl

@[simp] theorem answers_nil (t : StatsTracker) : t.answers [] = [] := rfl

@[simp] theorem answers_append (t : StatsTracker) (es fs : List TrackerEvent) :
    t.answers (es ++ fs) = t.answers es ++ (t.replay es).answers fs := by
  induction es generalizing t with
  | nil => rfl
  | cons e es ih => simp [answers, ih, replay]

@[simp] theorem answers_singleton (t : StatsTracker) (e : TrackerEvent) :
    t.answers [e] = [(e, (t.handle e).2)] := rfl

end StatsTracker

end MontyServer
