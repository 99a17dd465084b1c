import MontyServer.Timeline

/-!
# The time limit over a whole session

What the timeline of a tracker says about the time limit. Idle time is never charged: the checks of
two histories with the same segments get the same answers, whatever passes between the segments.
The limit is enforced by sampling, and still nothing slips through for long: at most 15 checks pass
once the limit is exceeded, and a program that swallows its `TimeoutError` is stopped again at
once.

The *reported* duration is another matter. `elapsed` serves a running and a stopped clock with one
formula, so a reading in the idle time after a segment counts the idle time.
-/

namespace MontyServer

open StatsTracker

/-! ## Idle time is not charged -/

/-- Execution time inside a segment: what the turns before have taken, and the time since its
start. -/
theorem elapsed_inside (limits : ResolvedLimits) (born : Instant) (turns : List Turn)
    (start : Instant) (calls : List (Duration × TrackerCall)) (d : Duration) :
    ((new limits born).replay (Timeline.events turns ++
      .beginSegment start :: Segment.callsFrom start calls)).elapsed (start + d) =
        Timeline.ran turns + d := by
  have hran := (new limits born).replay_timeline_accumulated turns
  rw [replay_append]
  show (((((new limits born).replay (Timeline.events turns)).beginSegment start).replay
    (Segment.callsFrom start calls)).elapsed (start + d)) = _
  unfold elapsed
  rw [replay_callsFrom_clock]
  show ((new limits born).replay (Timeline.events turns)).clock.accumulated +
    (start + d - start) = _
  rw [hran, Nat.add_sub_cancel_left]
  show 0 + Timeline.ran turns + d = _
  rw [Nat.zero_add]

/-- The checks of a timeline, from its charges alone. -/
theorem timeChecks_timeline (limits : ResolvedLimits) (born : Instant) (turns : List Turn) :
    (new limits born).timeChecks (Timeline.events turns) =
      (sampling.calls limits.maxDuration 0 (Timeline.charged 0 turns)).map
        (.ofCall limits.maxDuration) := by
  have hchecks := timeChecks_eq_calls (t := new limits born) rfl (Timeline.events turns)
  rw [timeChecks_elapsed] at hchecks
  exact hchecks

/-- **Idle time is never charged.** Two histories under one limit with the same segments, whatever
passes between the segments and before the first, have the same checks: each at the same execution
time and with the same answer. Inside a segment the execution time is what the finished segments
took and the time since this one began. And what a session does to its tracker, over every start
and resume, is such a history. -/
theorem idle_time_uncharged {limits : ResolvedLimits} {born born' : Instant}
    {turns turns' : List Turn} (same : List.Forall₂ Turn.SameSegment turns turns') :
    (new limits born).timeChecks (Timeline.events turns) =
        (new limits born').timeChecks (Timeline.events turns') ∧
    (∀ before u rest, turns = before ++ u :: rest → ∀ calls, calls <+: u.segment.calls → ∀ d,
      ((new limits born).replay (Timeline.events before ++
        .beginSegment u.start :: Segment.callsFrom u.start calls)).elapsed (u.start + d) =
          Timeline.ran before + d) ∧
    (∀ run inputs events tracker step, Life run inputs limits born events tracker step →
      ∃ segments, events <+: Timeline.events segments ∧
        (step.isSome = true → events = Timeline.events segments)) := by
  refine ⟨?_, ?_, ?_⟩
  · rw [timeChecks_timeline, timeChecks_timeline, Timeline.charged_congr same]
  · intro before u rest _ calls _ d
    exact elapsed_inside limits born before u.start calls d
  · intro run inputs events tracker step life
    cases step with
    | none =>
      obtain ⟨segments, hsegments⟩ := life.timeline
      exact ⟨segments, hsegments, by simp⟩
    | some step =>
      obtain ⟨segments, u, -, rfl, -⟩ := life.turns
      exact ⟨segments ++ [u], List.prefix_refl _, fun _ => rfl⟩

namespace Sample

/-- A segment of 20 ns with a check at its end. -/
def checked : Segment where
  length := 20
  calls := [(20, .checkTime)]

def limits : ResolvedLimits := .resolve none bounds

end Sample

/-- Two sessions of two segments, one with no idle time and one with much. -/
theorem idle_time_uncharged_for_checked :
    (new Sample.limits 0).timeChecks
        (Timeline.events [⟨0, Sample.checked, 0⟩, ⟨20, Sample.checked, 0⟩]) =
      (new Sample.limits 7).timeChecks
        (Timeline.events [⟨100, Sample.checked, 1⟩, ⟨90000, Sample.checked, 2⟩]) :=
  And.left (idle_time_uncharged (.cons ⟨rfl, rfl⟩ (.cons ⟨rfl, rfl⟩ .nil)))

/-! ## The limit is enforced by sampling -/

/-- What is left of the checks of a timeline: the calls of a guard, made at rising times. -/
theorem timeChecks_extends_calls {limits : ResolvedLimits} (born : Instant) {turns : List Turn}
    {events : List TrackerEvent} (h : events <+: Timeline.events turns) :
    ∃ times : List Duration, times.Pairwise (· ≤ ·) ∧
      (new limits born).timeChecks events =
        (sampling.calls limits.maxDuration 0 times).map (.ofCall limits.maxDuration) := by
  refine ⟨((new limits born).timeChecks events).map TimeCheck.elapsed, ?_,
    timeChecks_eq_calls rfl events⟩
  have hsub := ((timeChecks_extends (t := new limits born) h).sublist).map TimeCheck.elapsed
  rw [timeChecks_elapsed] at hsub
  exact (Timeline.charged_pairwise _ turns).sublist hsub

/-- Where a run of checks is split, so are the calls of the guard behind it. -/
theorem calls_of_split {max : Duration} {calls : List (Sampler.Call Duration)}
    {pre post : List TimeCheck} {c : TimeCheck}
    (h : calls.map (.ofCall max) = pre ++ c :: post) :
    ∃ pre' c' post', calls = pre' ++ c' :: post' ∧ TimeCheck.ofCall max c' = c ∧
      post'.map (.ofCall max) = post := by
  obtain ⟨pre', rest, rfl, -, hrest⟩ := List.map_eq_append_iff.mp h
  obtain ⟨c', post', rfl, hc, hpost⟩ := List.map_eq_cons_iff.mp hrest
  exact ⟨pre', c', post', rfl, hc, hpost⟩

theorem ofCall_error_iff {max : Duration} {c : Sampler.Call Duration} :
    (∃ err, (TimeCheck.ofCall max c).answer = .error err) ↔ c.refused = true := by
  by_cases h : c.refused = true
  · simp [TimeCheck.ofCall, h]
  · simp [TimeCheck.ofCall, h]

theorem ofCall_ok_iff {max : Duration} {c : Sampler.Call Duration} :
    (TimeCheck.ofCall max c).answer = .ok () ↔ c.refused = false := by
  by_cases h : c.refused = true
  · simp [TimeCheck.ofCall, h]
  · simp [TimeCheck.ofCall, h]

/-- **The time limit over a whole session.** Of the checks of a history, over all its segments and
however long (the counter wraps at `2 ^ 32`):
* one is refused only if the execution time exceeds the limit there;
* any 16 consecutive ones include one that reads the clock;
* from one past the limit on, at most 15 pass;
* after a refusal all are refused. -/
theorem time_limit_enforced {limits : ResolvedLimits} {born : Instant} {turns : List Turn}
    {events : List TrackerEvent} (h : events <+: Timeline.events turns) :
    (∀ c ∈ (new limits born).timeChecks events, ∀ err, c.answer = .error err →
      limits.maxDuration < c.elapsed ∧ err = .Time limits.maxDuration c.elapsed) ∧
    (∀ w, w <:+: (new limits born).timeChecks events → w.length = 16 →
      ∃ c ∈ w, c.reads = true) ∧
    (∀ pre c post, (new limits born).timeChecks events = pre ++ c :: post →
      limits.maxDuration < c.elapsed →
      (c :: post).countP (fun c => c.answer = .ok ()) ≤ 15) ∧
    (∀ pre c post, (new limits born).timeChecks events = pre ++ c :: post →
      (∃ err, c.answer = .error err) →
      ∀ c' ∈ post, c'.answer = .error (.Time limits.maxDuration c'.elapsed)) := by
  obtain ⟨times, hasc, hchecks⟩ := timeChecks_extends_calls born h
  rw [hchecks]
  refine ⟨?_, ?_, ?_, ?_⟩
  · intro c hc err herr
    obtain ⟨call, hcall, rfl⟩ := List.mem_map.mp hc
    have hrefused := ofCall_error_iff.mp ⟨err, herr⟩
    refine ⟨sampling.lt_of_refused hcall hrefused, ?_⟩
    rw [TimeCheck.ofCall, if_pos hrefused] at herr
    cases herr
    rfl
  · intro w hw hlen
    obtain ⟨w', hinfix, rfl⟩ := List.infix_map_iff.mp hw
    rw [List.length_map] at hlen
    obtain ⟨call, hcall, hlooked⟩ := sampling.exists_looked hinfix hlen
    exact ⟨_, List.mem_map_of_mem hcall, hlooked⟩
  · intro pre c post hsplit hover
    obtain ⟨pre', call, post', hcalls, rfl, rfl⟩ := calls_of_split hsplit
    have hfew := sampling.countP_passed_lt hasc hcalls hover
    have hcount : (TimeCheck.ofCall limits.maxDuration call ::
        post'.map (.ofCall limits.maxDuration)).countP (fun c => c.answer = .ok ()) =
          (call :: post').countP (!·.refused) := by
      rw [← List.map_cons, List.countP_map]
      apply List.countP_congr
      intro c _
      simp [ofCall_ok_iff]
    rw [hcount]
    exact Nat.le_of_lt_succ hfew
  · intro pre c post hsplit hrefused
    obtain ⟨pre', call, post', hcalls, rfl, rfl⟩ := calls_of_split hsplit
    intro c' hc'
    obtain ⟨call', hcall', rfl⟩ := List.mem_map.mp hc'
    have hfinal := sampling.refused_of_refused hasc hcalls (ofCall_error_iff.mp hrefused) _ hcall'
    rw [TimeCheck.ofCall, if_pos hfinal]

namespace Sample

/-- A segment that runs twice as long as it may, and then checks the time 20 times. -/
def late : Segment where
  length := 2000
  calls := .replicate 20 (2000, .checkTime)

end Sample

/-- The 16th check stops the program, and so does every later one. -/
theorem time_limit_enforced_for_late :
    (((new Sample.limits 0).timeChecks (Timeline.events [⟨0, Sample.late, 0⟩])).countP
      (fun c => c.answer = .ok ())) = 15 ∧
    ∀ pre c post,
      (new Sample.limits 0).timeChecks (Timeline.events [⟨0, Sample.late, 0⟩]) =
        pre ++ c :: post → (∃ err, c.answer = .error err) →
      ∀ c' ∈ post, c'.answer = .error (.Time Sample.limits.maxDuration c'.elapsed) :=
  ⟨by decide, (time_limit_enforced (List.prefix_refl _)).2.2.2⟩

/-! ## The reported duration -/

/-- A turn, and the readings of `stats` in the idle time after it: how long after the second clock
read of `end_segment` each is taken. -/
structure Stretch where
  turn : Turn
  reads : List Duration

namespace StatsTracker

/-- The durations reported in the idle times after some turns, each beside what the turns have run
by then (`ran` before the first of them). -/
def idleReadings (t : StatsTracker) (ran : Duration) : List Stretch → List (Duration × Duration)
  | [] => []
  | p :: stretches =>
    let t := t.replay p.turn.events
    let ran := ran + p.turn.segment.length
    p.reads.map (fun delay => ((t.stats (p.turn.stop + p.turn.reset + delay)).duration, ran)) ++
      t.idleReadings ran stretches

end StatsTracker

/-- All idle readings of a tracker: the ones before its first segment, by how long after its
creation they are taken, and the ones after each turn. -/
def idleReadings (limits : ResolvedLimits) (born : Instant) (fresh : List Duration)
    (stretches : List Stretch) : List (Duration × Duration) :=
  fresh.map (fun delay => (((new limits born).stats (born + delay)).duration, 0)) ++
    (new limits born).idleReadings 0 stretches

/-- A reading after a turn counts the idle time up to it. -/
theorem stats_after_turn (t : StatsTracker) (u : Turn) (delay : Duration) :
    ((t.replay u.events).stats (u.stop + u.reset + delay)).duration =
      t.clock.accumulated + u.segment.length + delay := by
  show (t.replay u.events).clock.accumulated +
    (u.stop + u.reset + delay - (t.replay u.events).clock.segmentStart) = _
  rw [replay_turn_accumulated, replay_turn_segmentStart, Nat.add_sub_cancel_left]

/-- Every idle reading is what has run, and the idle time up to it. -/
theorem tracker_idleReadings (t : StatsTracker) (stretches : List Stretch) :
    (∀ r ∈ t.idleReadings t.clock.accumulated stretches, r.1 = r.2) ↔
      ∀ p ∈ stretches, ∀ delay ∈ p.reads, delay = 0 := by
  induction stretches generalizing t with
  | nil => simp [StatsTracker.idleReadings]
  | cons p stretches ih =>
    have hrest := ih (t.replay p.turn.events)
    rw [replay_turn_accumulated] at hrest
    rw [StatsTracker.idleReadings, List.forall_mem_append, hrest, List.forall_mem_cons]
    apply and_congr_left'
    rw [List.forall_mem_map]
    apply forall₂_congr
    intro delay _
    rw [stats_after_turn]
    exact Nat.add_eq_left

/-- What has run does not fall from one turn to the next. -/
theorem tracker_idleReadings_pairwise (t : StatsTracker) (ran : Duration)
    (stretches : List Stretch) :
    ((t.idleReadings ran stretches).map Prod.snd).Pairwise (· ≤ ·) ∧
      ∀ r ∈ t.idleReadings ran stretches, ran ≤ r.2 := by
  induction stretches generalizing t ran with
  | nil => simp [StatsTracker.idleReadings]
  | cons p stretches ih =>
    obtain ⟨hpairwise, hle⟩ := ih (t.replay p.turn.events) (ran + p.turn.segment.length)
    rw [StatsTracker.idleReadings, List.map_append, List.pairwise_append]
    refine ⟨⟨?_, hpairwise, ?_⟩, ?_⟩
    · rw [List.map_map, List.pairwise_map]
      exact List.pairwise_of_forall fun _ _ => Nat.le_refl _
    · intro d hd d' hd'
      obtain ⟨r, hr, rfl⟩ := List.mem_map.mp hd'
      have hlater := hle r hr
      grind
    · intro r hr
      rcases List.mem_append.mp hr with hr | hr
      · obtain ⟨delay, -, rfl⟩ := List.mem_map.mp hr
        exact Nat.le_add_right _ _
      · exact Nat.le_trans (Nat.le_add_right _ _) (hle r hr)

/-- What a session reports is what its turns have run, and the time from the end of the last one to
the reading. -/
theorem Life.duration {run : MontyRun} {inputs : List MontyObject} {limits : ResolvedLimits}
    {born : Instant} {events : List TrackerEvent} {tracker : StatsTracker} {step : SessionStep}
    (life : Life run inputs limits born events tracker (some step)) :
    ∃ turns delay, events = Timeline.events turns ∧
      step.stats.duration = Timeline.ran turns + delay := by
  obtain ⟨turns, u, delay, hevents, hstats⟩ := life.turns
  refine ⟨turns ++ [u], delay, hevents, ?_⟩
  have hran := (new limits born).replay_timeline_accumulated turns
  rw [hstats, life.replay, hevents, Timeline.events_append, replay_append, Timeline.events_cons,
    Timeline.events_nil, List.append_nil, stats_after_turn, hran, Timeline.ran_append]
  show 0 + _ + _ + _ = _
  rw [Nat.zero_add, Timeline.ran_cons, Timeline.ran_nil, Nat.add_zero]

/-- **The duration that is reported counts idle time.** The idle readings of a tracker are the
lengths of its finished segments, and never fall, exactly if each is taken at the very instant the
clock was last set. What a session reports is such a reading, taken after its latest turn. -/
theorem idle_readings_iff (limits : ResolvedLimits) (born : Instant) (fresh : List Duration)
    (stretches : List Stretch) :
    (((∀ r ∈ idleReadings limits born fresh stretches, r.1 = r.2) ∧
        ((idleReadings limits born fresh stretches).map Prod.fst).Pairwise (· ≤ ·)) ↔
      (∀ delay ∈ fresh, delay = 0) ∧ ∀ p ∈ stretches, ∀ delay ∈ p.reads, delay = 0) ∧
    (∀ run inputs events tracker step, Life run inputs limits born events tracker (some step) →
      ∃ turns delay, events = Timeline.events turns ∧
        step.stats.duration = Timeline.ran turns + delay) := by
  have hfresh : (∀ r ∈ fresh.map fun delay =>
      (((new limits born).stats (born + delay)).duration, 0), r.1 = r.2) ↔
        ∀ delay ∈ fresh, delay = 0 := by
    rw [List.forall_mem_map]
    apply forall₂_congr
    intro delay _
    show 0 + (born + delay - born) = 0 ↔ delay = 0
    rw [Nat.zero_add, Nat.add_sub_cancel_left]
  have hreadings : (∀ r ∈ idleReadings limits born fresh stretches, r.1 = r.2) ↔
      (∀ delay ∈ fresh, delay = 0) ∧ ∀ p ∈ stretches, ∀ delay ∈ p.reads, delay = 0 := by
    rw [idleReadings, List.forall_mem_append, hfresh]
    apply and_congr_right'
    exact tracker_idleReadings (new limits born) stretches
  refine ⟨?_, ?_⟩
  · rw [← hreadings]
    apply and_iff_left_of_imp
    intro hsums
    rw [List.map_congr_left hsums, idleReadings, List.map_append, List.map_map,
      List.pairwise_append]
    obtain ⟨hpairwise, hle⟩ := tracker_idleReadings_pairwise (new limits born) 0 stretches
    refine ⟨?_, hpairwise, ?_⟩
    · rw [List.pairwise_map]
      exact List.pairwise_of_forall fun _ _ => Nat.le_refl _
    · intro d hd d' _
      obtain ⟨delay, -, rfl⟩ := List.mem_map.mp hd
      exact Nat.zero_le _
  · intro run inputs events tracker step life
    exact life.duration

/-- A session of two segments of 20 ns, read 50 ns after the first and 1 ns after the second: it
reports 70 ns, and then 41. -/
theorem idle_reading_counted :
    idleReadings Sample.limits 0 []
        [⟨⟨0, Sample.checked, 0⟩, [50]⟩, ⟨⟨100, Sample.checked, 0⟩, [1]⟩] = [(70, 20), (41, 40)] ∧
      ¬ (∀ r ∈ idleReadings Sample.limits 0 []
        [⟨⟨0, Sample.checked, 0⟩, [50]⟩, ⟨⟨100, Sample.checked, 0⟩, [1]⟩], r.1 = r.2) ∧
      ¬ ((idleReadings Sample.limits 0 []
        [⟨⟨0, Sample.checked, 0⟩, [50]⟩, ⟨⟨100, Sample.checked, 0⟩, [1]⟩]).map
          Prod.fst).Pairwise (· ≤ ·) := by
  decide

end MontyServer
