import MontyServer.Lib.Sampler
import MontyServer.Life

/-!
# Timelines of a tracker

A tracker's history falls into **turns**: `begin_segment`, the calls of one segment, `end_segment`.
Between the end of a turn and the start of the next the session is idle: its client thinks, or the
request waits for a permit. A `Segment` is what happens inside a turn, told from its start, so that
two histories with the same segments differ in their idle times only.

The module reads the calls of `check_time` off a timeline (`StatsTracker.timeChecks`): the execution
time at each is what the segments before it took and its own offset (`timeChecks_elapsed`), and
given those times, `check_time` is a sampling guard (`timeChecks_eq_calls`). Last, every life of an
execution is a timeline (`Life.timeline`): the engine puts the two segment marks around all it runs.
-/

namespace MontyServer

/-! ## Segments and turns -/

/-- What happens between a `begin_segment` and its `end_segment`: how long it takes, and the
tracker's calls with the time since the start each is made at. -/
structure Segment where
  length : Duration := 0
  calls : List (Duration × TrackerCall) := []
  ordered : calls.Pairwise fun c c' => c.1 ≤ c'.1 := by decide
  within : ∀ c ∈ calls, c.1 ≤ length := by decide

namespace Segment

/-- The segment goes on for a while. -/
def elapse (s : Segment) (d : Duration) : Segment where
  length := s.length + d
  calls := s.calls
  ordered := s.ordered
  within := fun c hc => Nat.le_trans (s.within c hc) (Nat.le_add_right _ _)

/-- The segment goes on with a call. -/
def call (s : Segment) (c : TrackerCall) : Segment where
  length := s.length
  calls := s.calls ++ [(s.length, c)]
  ordered := by
    rw [List.pairwise_append]
    refine ⟨s.ordered, List.pairwise_singleton _ _, ?_⟩
    intro c hc c' hc'
    rw [List.mem_singleton.mp hc']
    exact s.within c hc
  within := by
    intro c hc
    rcases List.mem_append.mp hc with hc | hc
    · exact s.within c hc
    · rw [List.mem_singleton.mp hc]

/-- The times since the start at which `check_time` is called. -/
def checks (s : Segment) : List Duration :=
  s.calls.filterMap fun c => if c.2 = .checkTime then some c.1 else none

/-- The events of calls made in a segment that starts at `start`. -/
def callsFrom (start : Instant) (calls : List (Duration × TrackerCall)) : List TrackerEvent :=
  calls.map fun c => .call (start + c.1) c.2

/-- The events of a segment that has not ended yet. -/
def running (s : Segment) (start : Instant) : List TrackerEvent :=
  .beginSegment start :: callsFrom start s.calls

end Segment

/-- A segment as it takes place: from `start` on, and with `reset` between the two clock reads of
its `end_segment`. -/
structure Turn where
  start : Instant
  segment : Segment
  reset : Duration := 0

namespace Turn

/-- When the segment ends: the first clock read of `end_segment`. -/
def stop (u : Turn) : Instant := u.start + u.segment.length

def events (u : Turn) : List TrackerEvent :=
  u.segment.running u.start ++ [.endSegment u.stop (u.stop + u.reset)]

/-- Two turns with one segment, as far as the clock is concerned: they take as long, and call
`check_time` at the same times after their starts. -/
def SameSegment (u u' : Turn) : Prop :=
  u.segment.length = u'.segment.length ∧ u.segment.checks = u'.segment.checks

end Turn

namespace Timeline

/-- The history of some turns. Nothing is asked of their starts: between two turns any time may
pass. -/
def events (turns : List Turn) : List TrackerEvent := turns.flatMap Turn.events

/-- How long the turns have run, together. -/
def ran (turns : List Turn) : Duration := (turns.map (·.segment.length)).sum

/-- The execution time at each `check_time`, if the tracker has already run for `before`. -/
def charged (before : Duration) : List Turn → List Duration
  | [] => []
  | u :: turns =>
    u.segment.checks.map (before + ·) ++ charged (before + u.segment.length) turns

@[simp] theorem events_nil : events [] = [] := rfl

@[simp] theorem events_cons (u : Turn) (turns : List Turn) :
    events (u :: turns) = u.events ++ events turns := by
  simp [events]

@[simp] theorem events_append (turns turns' : List Turn) :
    events (turns ++ turns') = events turns ++ events turns' := by
  simp [events]

@[simp] theorem ran_nil : ran [] = 0 := rfl

@[simp] theorem ran_cons (u : Turn) (turns : List Turn) :
    ran (u :: turns) = u.segment.length + ran turns := by
  simp [ran]

@[simp] theorem ran_append (turns turns' : List Turn) :
    ran (turns ++ turns') = ran turns + ran turns' := by
  simp [ran]

/-- Turns with the same segments charge the same. -/
theorem charged_congr {turns turns' : List Turn} (h : List.Forall₂ Turn.SameSegment turns turns')
    (before : Duration) : charged before turns = charged before turns' := by
  induction h generalizing before with
  | nil => rfl
  | @cons u u' turns turns' hu _ ih =>
    obtain ⟨hlength, hchecks⟩ := hu
    rw [charged, charged, hchecks, hlength, ih]

/-- Nothing is charged less than what has already run. -/
theorem le_of_mem_charged {before d : Duration} {turns : List Turn} (h : d ∈ charged before turns) :
    before ≤ d := by
  induction turns generalizing before with
  | nil => simp [charged] at h
  | cons u turns ih =>
    rcases List.mem_append.mp h with h | h
    · obtain ⟨offset, -, rfl⟩ := List.mem_map.mp h
      exact Nat.le_add_right _ _
    · exact Nat.le_trans (Nat.le_add_right _ _) (ih h)

/-- **Execution time does not fall**, inside a turn or from one to the next. -/
theorem charged_pairwise (before : Duration) (turns : List Turn) :
    (charged before turns).Pairwise (· ≤ ·) := by
  induction turns generalizing before with
  | nil => exact List.Pairwise.nil
  | cons u turns ih =>
    rw [charged, List.pairwise_append]
    refine ⟨?_, ih _, ?_⟩
    · rw [List.pairwise_map, Segment.checks, List.pairwise_filterMap]
      apply u.segment.ordered.imp
      intro c c' hle d hd d' hd'
      grind
    · intro d hd d' hd'
      obtain ⟨offset, hoffset, rfl⟩ := List.mem_map.mp hd
      have hlater := le_of_mem_charged hd'
      -- a check is made before its segment ends
      have hin : offset ≤ u.segment.length := by
        rw [Segment.checks, List.mem_filterMap] at hoffset
        obtain ⟨c, hc, hsome⟩ := hoffset
        have hwithin := u.segment.within c hc
        grind
      exact Nat.le_trans (Nat.add_le_add_left hin before) hlater

end Timeline

namespace StatsTracker

/-! ## What the events leave alone -/

@[simp] theorem recordBreach_clock (t : StatsTracker) (b : Breach) :
    (t.recordBreach b).clock = t.clock := by
  unfold recordBreach; split <;> rfl

@[simp] theorem recordBreach_maxDuration (t : StatsTracker) (b : Breach) :
    (t.recordBreach b).maxDuration = t.maxDuration := by
  unfold recordBreach; split <;> rfl

@[simp] theorem recordBreach_timeCheckCounter (t : StatsTracker) (b : Breach) :
    (t.recordBreach b).timeCheckCounter = t.timeCheckCounter := by
  unfold recordBreach; split <;> rfl

/-- No event changes the time limit. -/
@[simp] theorem handle_maxDuration (t : StatsTracker) (e : TrackerEvent) :
    (t.handle e).1.maxDuration = t.maxDuration := by
  have heff := t.handle_effect e
  generalize t.handle e = r at heff
  cases heff with
  | refused _ count err => simp [withCounter]
  | _ => rfl

/-- Only the two segment marks touch the clock. -/
@[simp] theorem handle_call_clock (t : StatsTracker) (now : Instant) (c : TrackerCall) :
    (t.handle (.call now c)).1.clock = t.clock := by
  have heff := t.handle_effect (.call now c)
  generalize t.handle (.call now c) = r at heff
  cases heff with
  | refused _ count err => simp [withCounter]
  | boundary _ clock hne => exact absurd rfl (hne now c)
  | _ => rfl

/-- Only `check_time` touches its counter. -/
theorem call_timeCheckCounter {c : TrackerCall} (hc : c ≠ .checkTime) (t : StatsTracker)
    (now : Instant) : (t.call now c).1.timeCheckCounter = t.timeCheckCounter := by
  match c with
  | .checkTime => exact absurd rfl hc
  | .onFree size => rfl
  | .onAllocate size =>
    show (t.onAllocate size).1.timeCheckCounter = _
    unfold onAllocate
    grind [storeMemory, recordBreach_timeCheckCounter]
  | .onGrow additionalBytes =>
    show (t.onGrow additionalBytes).1.timeCheckCounter = _
    unfold onGrow
    grind [storeMemory, recordBreach_timeCheckCounter]
  | .checkRecursionDepth currentDepth =>
    show (t.checkRecursionDepth currentDepth).1.timeCheckCounter = _
    unfold checkRecursionDepth
    grind [recordBreach_timeCheckCounter]
  | .checkLargeResult estimatedBytes =>
    show (t.checkLargeResult estimatedBytes).1.timeCheckCounter = _
    unfold checkLargeResult
    grind [recordBreach_timeCheckCounter]

@[simp] theorem replay_callsFrom_clock (t : StatsTracker) (start : Instant)
    (calls : List (Duration × TrackerCall)) :
    (t.replay (Segment.callsFrom start calls)).clock = t.clock := by
  induction calls generalizing t with
  | nil => rfl
  | cons c calls ih =>
    show ((t.handle (.call (start + c.1) c.2)).1.replay (Segment.callsFrom start calls)).clock = _
    rw [ih, handle_call_clock]

/-- A turn adds its length to the execution time. -/
theorem replay_turn_accumulated (t : StatsTracker) (u : Turn) :
    (t.replay u.events).clock.accumulated = t.clock.accumulated + u.segment.length := by
  rw [Turn.events, replay_append, replay_singleton]
  have hclock : (t.replay (u.segment.running u.start)).clock =
      { t.clock with segmentStart := u.start } := by
    show ((t.beginSegment u.start).replay (Segment.callsFrom u.start u.segment.calls)).clock = _
    rw [replay_callsFrom_clock]
    rfl
  show (t.replay (u.segment.running u.start)).clock.accumulated +
    (u.stop - (t.replay (u.segment.running u.start)).clock.segmentStart) = _
  rw [hclock, Turn.stop, Nat.add_sub_cancel_left]

theorem replay_timeline_accumulated (t : StatsTracker) (turns : List Turn) :
    (t.replay (Timeline.events turns)).clock.accumulated =
      t.clock.accumulated + Timeline.ran turns := by
  induction turns generalizing t with
  | nil => simp
  | cons u turns ih =>
    rw [Timeline.events_cons, replay_append, ih, replay_turn_accumulated, Timeline.ran_cons,
      Nat.add_assoc]

/-- A turn leaves the clock standing at the second read of its `end_segment`. -/
theorem replay_turn_segmentStart (t : StatsTracker) (u : Turn) :
    (t.replay u.events).clock.segmentStart = u.stop + u.reset := by
  rw [Turn.events, replay_append, replay_singleton]
  rfl

/-! ## The calls of `check_time` -/

/-- Whether the next `check_time` reads the clock. -/
def readsClock (t : StatsTracker) : Bool :=
  t.maxDuration.isSome && (t.timeCheckCounter + 1) % TIME_CHECK_INTERVAL == 0

end StatsTracker

/-- A call of `check_time`: the execution time it is made at, whether it reads the clock, and its
answer. -/
structure TimeCheck where
  elapsed : Duration
  reads : Bool
  answer : Answer
  deriving DecidableEq

/-- What a call of a sampling guard is as a call of `check_time`. -/
def TimeCheck.ofCall (max : Duration) (c : Sampler.Call Duration) : TimeCheck where
  elapsed := c.value
  reads := c.looked
  answer := if c.refused then .error (.Time max c.value) else .ok ()

namespace StatsTracker

/-- The call of `check_time` that an event is, if it is one. -/
def timeCheck (t : StatsTracker) : TrackerEvent → Option TimeCheck
  | .call now .checkTime => some ⟨t.elapsed now, t.readsClock, (t.checkTime now).2⟩
  | _ => none

/-- The calls of `check_time` in a history. -/
def timeChecks (t : StatsTracker) : List TrackerEvent → List TimeCheck
  | [] => []
  | e :: events => (t.timeCheck e).toList ++ (t.handle e).1.timeChecks events

theorem timeCheck_call {c : TrackerCall} (hc : c ≠ .checkTime) (t : StatsTracker)
    (now : Instant) : t.timeCheck (.call now c) = none := by
  unfold timeCheck
  grind

/-- A call that does not read the clock does the same whatever the time. -/
theorem checkTime_of_not_readsClock {t : StatsTracker} (h : t.readsClock = false)
    (now now' : Instant) : t.checkTime now = t.checkTime now' := by
  unfold checkTime
  unfold readsClock at h
  cases hmax : t.maxDuration with
  | none => rfl
  | some max =>
    have hskip : (t.timeCheckCounter + 1) % TIME_CHECK_INTERVAL ≠ 0 := by
      simpa [hmax] using h
    simp only [if_pos hskip]

@[simp] theorem timeChecks_append (t : StatsTracker) (es fs : List TrackerEvent) :
    t.timeChecks (es ++ fs) = t.timeChecks es ++ (t.replay es).timeChecks fs := by
  induction es generalizing t with
  | nil => rfl
  | cons e es ih =>
    rw [List.cons_append, timeChecks, timeChecks, ih, List.append_assoc]
    rfl

/-- The calls of a part of a history come first among those of the whole. -/
theorem timeChecks_extends {t : StatsTracker} {es fs : List TrackerEvent} (h : es <+: fs) :
    t.timeChecks es <+: t.timeChecks fs := by
  obtain ⟨rest, rfl⟩ := h
  rw [timeChecks_append]
  exact List.prefix_append _ _

/-- The execution times at the checks of a running segment. -/
theorem timeChecks_callsFrom_elapsed (t : StatsTracker) (calls : List (Duration × TrackerCall)) :
    (t.timeChecks (Segment.callsFrom t.clock.segmentStart calls)).map TimeCheck.elapsed =
      (calls.filterMap fun c => if c.2 = .checkTime then some c.1 else none).map
        (t.clock.accumulated + ·) := by
  generalize hstart : t.clock.segmentStart = start
  induction calls generalizing t with
  | nil => rfl
  | cons c calls ih =>
    obtain ⟨offset, c⟩ := c
    have hrest := ih (t.handle (.call (start + offset) c)).1 (by rw [handle_call_clock, hstart])
    rw [handle_call_clock] at hrest
    show (t.timeChecks (.call (start + offset) c :: Segment.callsFrom start calls)).map _ = _
    by_cases hc : c = .checkTime
    · subst hc
      have helapsed : t.elapsed (start + offset) = t.clock.accumulated + offset := by
        rw [elapsed, hstart, Nat.add_sub_cancel_left]
      rw [timeChecks, List.map_append, hrest, List.filterMap_cons_some (by rw [if_pos rfl]),
        List.map_cons, ← helapsed]
      rfl
    · rw [timeChecks, timeCheck_call hc, List.filterMap_cons_none (by rw [if_neg hc])]
      exact hrest

/-- **What the checks of a timeline are charged**: what the turns before have taken, and the time
since the start of their own. -/
theorem timeChecks_elapsed (t : StatsTracker) (turns : List Turn) :
    (t.timeChecks (Timeline.events turns)).map TimeCheck.elapsed =
      Timeline.charged t.clock.accumulated turns := by
  induction turns generalizing t with
  | nil => rfl
  | cons u turns ih =>
    rw [Timeline.events_cons, timeChecks_append, List.map_append, ih, replay_turn_accumulated,
      Timeline.charged]
    congr 1
    rw [Turn.events, timeChecks_append, List.map_append]
    -- neither mark is a check
    show ((t.beginSegment u.start).timeChecks (Segment.callsFrom u.start u.segment.calls)).map _ ++
      [] = _
    rw [List.append_nil]
    exact (t.beginSegment u.start).timeChecks_callsFrom_elapsed u.segment.calls

/-! ## `check_time` is a sampling guard -/

/-- The sampling of `check_time`: every `TIME_CHECK_INTERVAL`-th call, by a `u32`. -/
def sampling : Sampler.Schedule where
  every := TIME_CHECK_INTERVAL.toNat
  modulus := UInt32.size
  pos := by decide
  dvd := by decide

theorem checkTime_eq {t : StatsTracker} {max : Duration} (hmax : t.maxDuration = some max)
    (now : Instant) :
    t.checkTime now =
      if (t.timeCheckCounter + 1) % TIME_CHECK_INTERVAL ≠ 0 then
        (t.withCounter (t.timeCheckCounter + 1), .ok ())
      else if max < t.elapsed now then
        ((t.withCounter (TIME_CHECK_INTERVAL - 1)).recordBreach .Time,
          .error (.Time max (t.elapsed now)))
      else (t.withCounter (t.timeCheckCounter + 1), .ok ()) := by
  unfold checkTime
  split
  · next hnone => cases hnone.symm.trans hmax
  · next max' hsome =>
    cases hsome.symm.trans hmax
    rfl

/-- One call of `check_time` is one call of the guard, on the counter as a natural number. -/
theorem checkTime_next {t : StatsTracker} {max : Duration} (hmax : t.maxDuration = some max)
    (now : Instant) :
    (t.checkTime now).1.timeCheckCounter.toNat =
        (sampling.next max t.timeCheckCounter.toNat (t.elapsed now)).1 ∧
      TimeCheck.mk (t.elapsed now) t.readsClock (t.checkTime now).2 =
        .ofCall max (sampling.next max t.timeCheckCounter.toNat (t.elapsed now)).2 := by
  have hcount :
      (t.timeCheckCounter + 1).toNat = (t.timeCheckCounter.toNat + 1) % sampling.modulus :=
    UInt32.toNat_add _ _
  have hmod : (t.timeCheckCounter + 1) % TIME_CHECK_INTERVAL ≠ 0 ↔
      (t.timeCheckCounter.toNat + 1) % sampling.modulus % sampling.every ≠ 0 := by
    rw [← hcount, ne_eq, ← UInt32.toNat_inj, UInt32.toNat_mod]
    rfl
  have hreads : t.readsClock = !decide ((t.timeCheckCounter + 1) % TIME_CHECK_INTERVAL ≠ 0) := by
    unfold readsClock
    grind
  rw [checkTime_eq hmax, hreads]
  unfold Sampler.Schedule.next
  dsimp only
  by_cases hskip : (t.timeCheckCounter + 1) % TIME_CHECK_INTERVAL ≠ 0
  · rw [if_pos hskip, if_pos (hmod.mp hskip), decide_eq_true hskip]
    exact ⟨hcount, rfl⟩
  · rw [if_neg hskip, if_neg (mt hmod.mpr hskip), decide_eq_false hskip]
    by_cases hover : max < t.elapsed now
    · rw [if_pos hover, if_pos hover]
      exact ⟨congrArg UInt32.toNat (recordBreach_timeCheckCounter _ _), rfl⟩
    · rw [if_neg hover, if_neg hover]
      exact ⟨hcount, rfl⟩

/-- **The checks of a history are the calls of a sampling guard** made at their execution times. -/
theorem timeChecks_eq_calls {t : StatsTracker} {max : Duration} (hmax : t.maxDuration = some max)
    (events : List TrackerEvent) :
    t.timeChecks events =
      (sampling.calls max t.timeCheckCounter.toNat
        ((t.timeChecks events).map TimeCheck.elapsed)).map (.ofCall max) := by
  induction events generalizing t with
  | nil => rfl
  | cons e events ih =>
    have hrest := ih (t := (t.handle e).1) ((t.handle_maxDuration e).trans hmax)
    by_cases hcheck : ∃ now, e = .call now .checkTime
    · obtain ⟨now, rfl⟩ := hcheck
      obtain ⟨hcounter, hcall⟩ := checkTime_next hmax now
      rw [show (t.handle (.call now .checkTime)).1 = (t.checkTime now).1 from rfl, hcounter]
        at hrest
      have hchecks : t.timeChecks (.call now .checkTime :: events) =
          ⟨t.elapsed now, t.readsClock, (t.checkTime now).2⟩ ::
            (t.checkTime now).1.timeChecks events := rfl
      rw [hchecks, List.map_cons, Sampler.Schedule.calls, List.map_cons, ← hcall, ← hrest]
    · have hcounter : (t.handle e).1.timeCheckCounter = t.timeCheckCounter := by
        cases e with
        | beginSegment now => rfl
        | endSegment now now' => rfl
        | call now c =>
          apply call_timeCheckCounter
          rintro rfl
          exact hcheck ⟨now, rfl⟩
      have hnone : t.timeCheck e = none := by
        unfold timeCheck
        grind
      rw [hcounter] at hrest
      rw [timeChecks, hnone]
      exact hrest

end StatsTracker

/-! ## Lives are timelines -/

/-- The events of the world are those of a segment that began at `start` and is still running. -/
def World.Running (start : Instant) (w : World) : Prop :=
  ∃ s : Segment, w.now = start + s.length ∧ w.events = s.running start

theorem World.running_begin (tracker : StatsTracker) (now : Instant) :
    World.Running now (World.beginSegment { tracker, now }) := ⟨{}, rfl, rfl⟩

theorem World.running_kept (start : Instant) : World.Kept (World.Running start) where
  call {w} c := by
    rintro ⟨s, hnow, hevents⟩
    refine ⟨s.call c, hnow, ?_⟩
    show w.events ++ [.call w.now c] = _
    rw [hevents, hnow]
    simp [Segment.running, Segment.callsFrom, Segment.call]
  elapse {w} d := by
    rintro ⟨s, hnow, hevents⟩
    refine ⟨s.elapse d, ?_, hevents⟩
    show w.now + d = start + (s.length + d)
    rw [hnow, Nat.add_assoc]
  print _ _ h := h

/-- The end mark makes a turn of a running segment, and leaves the world some time after it. -/
theorem World.Running.turn {start : Instant} {w : World} (h : World.Running start w) (lag : Lag) :
    ∃ u : Turn, (w.endSegment lag).events = u.events ∧
      (w.endSegment lag).now = u.stop + u.reset + lag.stats := by
  obtain ⟨s, hnow, hevents⟩ := h
  refine ⟨⟨start, s, lag.reset⟩, ?_, ?_⟩
  · show w.events ++ [.endSegment w.now (w.now + lag.reset)] = _
    rw [hevents, hnow]
    rfl
  · show w.now + lag.reset + lag.stats = _
    rw [hnow]
    rfl

/-- A running segment is the beginning of a turn. -/
theorem World.Running.cut {start : Instant} {w : World} (h : World.Running start w) :
    ∃ u : Turn, w.events <+: u.events := by
  obtain ⟨s, -, hevents⟩ := h
  refine ⟨⟨start, s, 0⟩, ?_⟩
  rw [hevents]
  exact List.prefix_append _ _

section Life

variable {run : MontyRun} {inputs : List MontyObject} {limits : ResolvedLimits} {born : Instant}
  {events : List TrackerEvent} {tracker : StatsTracker}

/-- **A life that goes on is a timeline**: the engine puts the two marks around all it runs. What
the latest step reports was read some time after its last turn. -/
theorem Life.turns {step : SessionStep}
    (life : Life run inputs limits born events tracker (some step)) :
    ∃ turns u delay, events = Timeline.events (turns ++ [u]) ∧
      step.stats = tracker.stats (u.stop + u.reset + delay) := by
  generalize hlatest : some step = latest at life
  induction life generalizing step with
  | @start lag _ _ h =>
    subst hlatest
    rcases startSession_kept (World.running_kept _) (World.running_begin _ _) h with
      ⟨hpanic, -⟩ | ⟨settled, w', hstep, hw, rfl⟩
    · simp at hpanic
    · obtain ⟨u, hevents, hnow⟩ := hw.turn lag
      cases hstep
      refine ⟨[], u, lag.stats, by simp [hevents], ?_⟩
      rw [finishStep_stats, hnow]
  | @resume _ _ _ _ _ _ _ lag _ _ life h ih =>
    obtain ⟨turns, u, delay, hbefore, hstats⟩ := ih rfl
    rcases resumeSession_kept (World.running_kept _) (World.running_begin _ _) h with
      ⟨error, rfl, rfl⟩ | ⟨rfl, -⟩ | ⟨settled, w', rfl, hw, rfl⟩
    · cases hlatest
      exact ⟨turns, u, delay, by simp [hbefore], hstats⟩
    · simp [after] at hlatest
    · obtain ⟨u', hevents, hnow⟩ := hw.turn lag
      cases hlatest
      refine ⟨turns ++ [u], u', lag.stats, by simp [hbefore, hevents], ?_⟩
      rw [finishStep_stats, hnow]

/-- **Every life is a timeline**, save that a panic of the interpreter cuts its last turn short. -/
theorem Life.timeline {step : Option SessionStep}
    (life : Life run inputs limits born events tracker step) :
    ∃ turns, events <+: Timeline.events turns := by
  cases life with
  | start h =>
    rcases startSession_kept (World.running_kept _) (World.running_begin _ _) h with
      ⟨-, hw⟩ | ⟨settled, w', -, hw, rfl⟩
    · obtain ⟨u, hu⟩ := hw.cut
      exact ⟨[u], by simpa using hu⟩
    · obtain ⟨u, hu, -⟩ := hw.turn _
      exact ⟨[u], by rw [hu]; simp⟩
  | resume life h =>
    obtain ⟨turns, u, -, rfl, -⟩ := life.turns
    rcases resumeSession_kept (World.running_kept _) (World.running_begin _ _) h with
      ⟨error, -, rfl⟩ | ⟨-, hw⟩ | ⟨settled, w', -, hw, rfl⟩
    · exact ⟨turns ++ [u], by simp⟩
    · obtain ⟨u', hu⟩ := hw.cut
      refine ⟨turns ++ [u] ++ [u'], ?_⟩
      rw [Timeline.events_append (turns ++ [u]), List.prefix_append_right_inj]
      simpa using hu
    · obtain ⟨u', hu, -⟩ := hw.turn _
      refine ⟨turns ++ [u] ++ [u'], ?_⟩
      rw [Timeline.events_append (turns ++ [u]), hu]
      simp

end Life

end MontyServer
