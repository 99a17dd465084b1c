import Mathlib.Data.List.Induction
import MontyServer.Tracker

/-!
# What the counters of a tracker mean

A tracker is read off its history: the calls it granted and refused since it was created. This
module proves the reading. `StatsTracker.handle_effect` says once what an event can do; from it
`Account`, the reading itself, is preserved by every event and so holds after every history.
-/

namespace MontyServer

/-! ## Machine integers -/

theorem toNat_max (a b : Usize) : (max a b).toNat = max a.toNat b.toNat := by
  rw [show max a b = if a ≤ b then b else a from rfl]
  split
  · next h => rw [UInt64.le_iff_toNat_le] at h; omega
  · next h => rw [UInt64.le_iff_toNat_le] at h; omega

theorem toNat_add_of_fits {a b : Usize} (h : a.toNat + b.toNat < UInt64.size) :
    (a + b).toNat = a.toNat + b.toNat := by
  rw [UInt64.toNat_add, Nat.mod_eq_of_lt h]

theorem saturatingAdd_of_fits {a b : Usize} (h : a.toNat + b.toNat < UInt64.size) :
    saturatingAdd a b = a + b := if_pos h

theorem saturatingSub_of_le {a b : Usize} (h : b.toNat ≤ a.toNat) :
    (saturatingSub a b).toNat = a.toNat - b.toNat := by
  rw [saturatingSub, if_pos (UInt64.le_iff_toNat_le.mpr h),
    UInt64.toNat_sub_of_le _ _ (UInt64.le_iff_toNat_le.mpr h)]

theorem saturatingSub_le (a b : Usize) : (saturatingSub a b).toNat ≤ a.toNat := by
  by_cases h : b ≤ a
  · rw [saturatingSub_of_le (UInt64.le_iff_toNat_le.mp h)]
    omega
  · simp [saturatingSub, h]

/-! ## Reading a history -/

/-- Whether an entry of a history is an allocation that was granted. -/
def allocated : TrackerEvent × Answer → Bool
  | (.call _ (.onAllocate _), .ok _) => true
  | _ => false

/-- The bytes an entry of a history was granted. -/
def granted : TrackerEvent × Answer → Nat
  | (.call _ (.onAllocate size), .ok _) => size.toNat
  | (.call _ (.onGrow additionalBytes), .ok _) => additionalBytes.toNat
  | _ => 0

/-- The bytes an entry of a history freed. -/
def freed : TrackerEvent × Answer → Nat
  | (.call _ (.onFree size), .ok _) => size.toNat
  | _ => 0

/-- The limit an entry of a history was refused by. -/
def refusedBy : TrackerEvent × Answer → Option Breach
  | (_, .error err) => some err.limit
  | (_, .ok _) => none

/-- The limit of the first refusal in a history. -/
def firstRefusal (log : List (TrackerEvent × Answer)) : Option Breach := log.findSome? refusedBy

@[simp] theorem allocated_error (e : TrackerEvent) (err : ResourceError) :
    allocated (e, .error err) = false := by
  cases e with
  | call now c => cases c <;> rfl
  | _ => rfl

@[simp] theorem granted_error (e : TrackerEvent) (err : ResourceError) :
    granted (e, .error err) = 0 := by
  cases e with
  | call now c => cases c <;> rfl
  | _ => rfl

@[simp] theorem freed_error (e : TrackerEvent) (err : ResourceError) :
    freed (e, .error err) = 0 := by
  cases e with
  | call now c => cases c <;> rfl
  | _ => rfl

theorem firstRefusal_append_ok (log : List (TrackerEvent × Answer)) (e : TrackerEvent) :
    firstRefusal (log ++ [(e, .ok ())]) = firstRefusal log := by
  simp [firstRefusal, List.findSome?_append, refusedBy]

theorem firstRefusal_append_error (log : List (TrackerEvent × Answer)) (e : TrackerEvent)
    (err : ResourceError) :
    firstRefusal (log ++ [(e, .error err)]) = (firstRefusal log).or (some err.limit) := by
  simp [firstRefusal, List.findSome?_append, refusedBy]

namespace StatsTracker

/-- Only the sampling counter of `check_time` changes. -/
def withCounter (t : StatsTracker) (count : UInt32) : StatsTracker :=
  { t with timeCheckCounter := count }

/-! ## What one event does -/

/-- Everything an event can do to a tracker, with its answer. -/
inductive Effect (t : StatsTracker) : TrackerEvent → StatsTracker × Answer → Prop
  | refused (e : TrackerEvent) (count : UInt32) (err : ResourceError) :
    Effect t e ((t.withCounter count).recordBreach err.limit, .error err)
  | boundary (e : TrackerEvent) (clock : Clock) (h : ∀ now c, e ≠ .call now c) :
    Effect t e ({ t with clock := clock }, .ok ())
  | allocated (now : Instant) (size : Usize)
    (hcount : ∀ max, t.maxAllocations = some max → t.allocations < max)
    (hlive : ∀ max, t.maxMemory = some max → t.liveMemory + size ≤ max) :
    Effect t (.call now (.onAllocate size))
      (({ t with allocations := t.allocations + 1 } : StatsTracker).storeMemory
        (t.liveMemory + size), .ok ())
  | freed (now : Instant) (size : Usize) :
    Effect t (.call now (.onFree size))
      ({ t with liveMemory := saturatingSub t.liveMemory size }, .ok ())
  | grown (now : Instant) (additionalBytes : Usize)
    (hlive : ∀ max, t.maxMemory = some max → saturatingAdd t.liveMemory additionalBytes ≤ max) :
    Effect t (.call now (.onGrow additionalBytes))
      (t.storeMemory (saturatingAdd t.liveMemory additionalBytes), .ok ())
  | checkedTime (now : Instant) (count : UInt32) :
    Effect t (.call now .checkTime) (t.withCounter count, .ok ())
  | checkedDepth (now : Instant) (currentDepth : Usize) :
    Effect t (.call now (.checkRecursionDepth currentDepth)) (t, .ok ())
  | checkedSize (now : Instant) (estimatedBytes : Usize) :
    Effect t (.call now (.checkLargeResult estimatedBytes)) (t, .ok ())

/-- A limit that did not refuse `value` is not below it. -/
theorem le_of_filter_gt {limit : Option Usize} {value : Usize}
    (h : limit.filter (value > ·) = none) : ∀ max, limit = some max → value ≤ max := by
  rintro max rfl
  simpa [Option.filter] using h

/-- A limit that did not refuse `value` is above it. -/
theorem lt_of_filter_ge {limit : Option Usize} {value : Usize}
    (h : limit.filter (value ≥ ·) = none) : ∀ max, limit = some max → value < max := by
  rintro max rfl
  simpa [Option.filter] using h

theorem onAllocate_effect (t : StatsTracker) (now : Instant) (size : Usize) :
    Effect t (.call now (.onAllocate size)) (t.onAllocate size) := by
  unfold onAllocate
  dsimp only
  split
  · exact .refused _ t.timeCheckCounter (.Allocation ..)
  · next hcount =>
    split
    · exact .refused _ t.timeCheckCounter (.Memory ..)
    · next hlive => exact .allocated now size (lt_of_filter_ge hcount) (le_of_filter_gt hlive)

theorem onGrow_effect (t : StatsTracker) (now : Instant) (additionalBytes : Usize) :
    Effect t (.call now (.onGrow additionalBytes)) (t.onGrow additionalBytes) := by
  unfold onGrow
  dsimp only
  split
  · exact .refused _ t.timeCheckCounter (.Memory ..)
  · next hlive => exact .grown now additionalBytes (le_of_filter_gt hlive)

theorem checkTime_effect (t : StatsTracker) (now : Instant) :
    Effect t (.call now .checkTime) (t.checkTime now) := by
  unfold checkTime
  split
  · exact .checkedTime now t.timeCheckCounter
  · dsimp only
    split
    · exact .checkedTime now (t.timeCheckCounter + 1)
    · split
      · exact .refused _ (TIME_CHECK_INTERVAL - 1) (.Time ..)
      · exact .checkedTime now (t.timeCheckCounter + 1)

theorem checkRecursionDepth_effect (t : StatsTracker) (now : Instant) (currentDepth : Usize) :
    Effect t (.call now (.checkRecursionDepth currentDepth))
      (t.checkRecursionDepth currentDepth) := by
  unfold checkRecursionDepth
  split
  · exact .refused _ t.timeCheckCounter (.Recursion ..)
  · exact .checkedDepth now currentDepth

theorem checkLargeResult_effect (t : StatsTracker) (now : Instant) (estimatedBytes : Usize) :
    Effect t (.call now (.checkLargeResult estimatedBytes))
      (t.checkLargeResult estimatedBytes) := by
  unfold checkLargeResult
  dsimp only
  split
  · exact .refused _ t.timeCheckCounter (.Memory ..)
  · exact .checkedSize now estimatedBytes

theorem handle_effect (t : StatsTracker) (e : TrackerEvent) : Effect t e (t.handle e) := by
  cases e with
  | beginSegment now => exact .boundary _ _ (by simp)
  | endSegment now now' => exact .boundary _ _ (by simp)
  | call now c =>
    cases c with
    | onAllocate size => exact t.onAllocate_effect now size
    | onFree size => exact .freed now size
    | onGrow additionalBytes => exact t.onGrow_effect now additionalBytes
    | checkTime => exact t.checkTime_effect now
    | checkRecursionDepth currentDepth => exact t.checkRecursionDepth_effect now currentDepth
    | checkLargeResult estimatedBytes => exact t.checkLargeResult_effect now estimatedBytes

/-! ### `recordBreach` -/

/-- The breach code of an optional breach. -/
def codeOf : Option Breach → UInt8
  | none => 0
  | some b => b.code

theorem breach_of_code {t : StatsTracker} {b : Option Breach} (h : t.breachCode = codeOf b) :
    t.breach = b := by
  unfold breach
  rw [h]
  match b with
  | none => rfl
  | some .Time => rfl
  | some .Memory => rfl
  | some .Allocations => rfl
  | some .Recursion => rfl

theorem recordBreach_code {t : StatsTracker} {first : Option Breach} (b : Breach)
    (h : t.breachCode = codeOf first) :
    (t.recordBreach b).breachCode = codeOf (first.or (some b)) := by
  cases first with
  | none => simp [recordBreach, h, codeOf]
  | some f =>
    have hf : f.code ≠ 0 := by cases f <;> decide
    simp [recordBreach, h, codeOf, hf]

@[simp] theorem recordBreach_allocations (t : StatsTracker) (b : Breach) :
    (t.recordBreach b).allocations = t.allocations := by
  unfold recordBreach; split <;> rfl

@[simp] theorem recordBreach_liveMemory (t : StatsTracker) (b : Breach) :
    (t.recordBreach b).liveMemory = t.liveMemory := by
  unfold recordBreach; split <;> rfl

@[simp] theorem recordBreach_peakMemory (t : StatsTracker) (b : Breach) :
    (t.recordBreach b).peakMemory = t.peakMemory := by
  unfold recordBreach; split <;> rfl

@[simp] theorem recordBreach_maxMemory (t : StatsTracker) (b : Breach) :
    (t.recordBreach b).maxMemory = t.maxMemory := by
  unfold recordBreach; split <;> rfl

@[simp] theorem recordBreach_maxAllocations (t : StatsTracker) (b : Breach) :
    (t.recordBreach b).maxAllocations = t.maxAllocations := by
  unfold recordBreach; split <;> rfl

/-! ## The limits -/

/-- The limits are what they were, and live memory is within its own. -/
structure Capped (limits : ResolvedLimits) (t : StatsTracker) : Prop where
  maxAllocations : t.maxAllocations = some limits.maxAllocations
  maxMemory : t.maxMemory = some limits.maxMemoryBytes
  live_le : t.liveMemory ≤ limits.maxMemoryBytes

/-- No event takes live memory over its limit, a sum that wraps included. -/
theorem Capped.handle {limits : ResolvedLimits} {t : StatsTracker} (h : Capped limits t)
    (e : TrackerEvent) : Capped limits (t.handle e).1 := by
  have heff := t.handle_effect e
  generalize t.handle e = r at heff
  obtain ⟨hcap, hmax, hlive⟩ := h
  cases heff with
  | refused _ count err =>
    constructor
    · simpa [withCounter] using hcap
    · simpa [withCounter] using hmax
    · simpa [withCounter] using hlive
  | allocated now size _ hfits => exact ⟨hcap, hmax, hfits _ hmax⟩
  | grown now additionalBytes hfits => exact ⟨hcap, hmax, hfits _ hmax⟩
  | freed now size =>
    refine ⟨hcap, hmax, UInt64.le_iff_toNat_le.mpr ?_⟩
    exact Nat.le_trans (saturatingSub_le _ _) (UInt64.le_iff_toNat_le.mp hlive)
  | _ => exact ⟨hcap, hmax, hlive⟩

theorem capped_replay (limits : ResolvedLimits) (now : Instant) (events : List TrackerEvent) :
    Capped limits ((new limits now).replay events) := by
  induction events using List.reverseRecOn with
  | nil => exact ⟨rfl, rfl, UInt64.le_iff_toNat_le.mpr (Nat.zero_le _)⟩
  | append_singleton events e ih =>
    rw [replay_append]
    exact ih.handle e

/-! ## The reading -/

/-- The sizes the interpreter passes: a sum with the live memory stays within `usize`, and no more
is freed than is live. -/
def Sized (t : StatsTracker) : TrackerEvent → Prop
  | .call _ (.onAllocate size) => t.liveMemory.toNat + size.toNat < UInt64.size
  | .call _ (.onGrow additionalBytes) =>
    t.liveMemory.toNat + additionalBytes.toNat < UInt64.size
  | .call _ (.checkLargeResult estimatedBytes) =>
    t.liveMemory.toNat + estimatedBytes.toNat < UInt64.size
  | .call _ (.onFree size) => size.toNat ≤ t.liveMemory.toNat
  | _ => True

instance (t : StatsTracker) (e : TrackerEvent) : Decidable (t.Sized e) :=
  match e with
  | .beginSegment _ | .endSegment _ _ => .isTrue trivial
  | .call _ c =>
    match c with
    | .onAllocate size => inferInstanceAs (Decidable (t.liveMemory.toNat + size.toNat < _))
    | .onFree size => inferInstanceAs (Decidable (size.toNat ≤ t.liveMemory.toNat))
    | .onGrow bytes => inferInstanceAs (Decidable (t.liveMemory.toNat + bytes.toNat < _))
    | .checkLargeResult bytes => inferInstanceAs (Decidable (t.liveMemory.toNat + bytes.toNat < _))
    | .checkTime | .checkRecursionDepth _ => .isTrue trivial

/-- Every event of a history is `Sized` where it happens. -/
def AllSized (t : StatsTracker) : List TrackerEvent → Prop
  | [] => True
  | e :: events => t.Sized e ∧ (t.handle e).1.AllSized events

instance instDecidableAllSized (t : StatsTracker) :
    (events : List TrackerEvent) → Decidable (t.AllSized events)
  | [] => .isTrue trivial
  | e :: events =>
    have := instDecidableAllSized (t.handle e).1 events
    inferInstanceAs (Decidable (t.Sized e ∧ (t.handle e).1.AllSized events))

theorem allSized_append {t : StatsTracker} {es fs : List TrackerEvent} :
    t.AllSized (es ++ fs) ↔ t.AllSized es ∧ (t.replay es).AllSized fs := by
  induction es generalizing t with
  | nil => simp [AllSized]
  | cons e es ih => simp [AllSized, ih, replay, and_assoc]

/-- How the counters of a tracker follow from its history. -/
structure Account (limits : ResolvedLimits) (log : List (TrackerEvent × Answer))
    (t : StatsTracker) : Prop where
  maxAllocations : t.maxAllocations = some limits.maxAllocations
  maxMemory : t.maxMemory = some limits.maxMemoryBytes
  allocations_eq : t.allocations.toNat = log.countP allocated
  allocations_le : t.allocations ≤ limits.maxAllocations
  live_eq : t.liveMemory.toNat + (log.map freed).sum = (log.map granted).sum
  live_le : t.liveMemory ≤ limits.maxMemoryBytes

theorem account_new (limits : ResolvedLimits) (now : Instant) :
    Account limits [] (new limits now) where
  maxAllocations := rfl
  maxMemory := rfl
  allocations_eq := rfl
  allocations_le := UInt64.le_iff_toNat_le.mpr (Nat.zero_le _)
  live_eq := rfl
  live_le := UInt64.le_iff_toNat_le.mpr (Nat.zero_le _)

theorem Account.capped {limits : ResolvedLimits} {log : List (TrackerEvent × Answer)}
    {t : StatsTracker} (a : Account limits log t) : Capped limits t :=
  ⟨a.maxAllocations, a.maxMemory, a.live_le⟩

/-- An event that is granted nothing and changes none of the counters keeps the reading. -/
theorem Account.quiet {limits : ResolvedLimits} {log : List (TrackerEvent × Answer)}
    {t t' : StatsTracker} (a : Account limits log t) {e : TrackerEvent} (c : Capped limits t')
    (hallocations : t'.allocations = t.allocations) (hlive : t'.liveMemory = t.liveMemory)
    (he : allocated (e, .ok ()) = false)
    (hgranted : granted (e, .ok ()) = 0) (hfreed : freed (e, .ok ()) = 0) :
    Account limits (log ++ [(e, .ok ())]) t' where
  maxAllocations := c.maxAllocations
  maxMemory := c.maxMemory
  live_le := c.live_le
  allocations_eq := by simp [hallocations, a.allocations_eq, he]
  allocations_le := hallocations ▸ a.allocations_le
  live_eq := by simp [hlive, hgranted, hfreed, a.live_eq]

/-- Bytes are stored: `size` more of them, and within the limit. -/
theorem Account.store {limits : ResolvedLimits} {log : List (TrackerEvent × Answer)}
    {t : StatsTracker} (a : Account limits log t) {size : Usize}
    (hs : t.liveMemory.toNat + size.toNat < UInt64.size) :
    (t.liveMemory + size).toNat + (log.map MontyServer.freed).sum =
      (log.map granted).sum + size.toNat := by
  rw [toNat_add_of_fits hs, ← a.live_eq]
  omega

/-- One more event keeps the reading. -/
theorem Account.handle {limits : ResolvedLimits} {log : List (TrackerEvent × Answer)}
    {t : StatsTracker} (a : Account limits log t) {e : TrackerEvent} (hs : t.Sized e) :
    Account limits (log ++ [(e, (t.handle e).2)]) (t.handle e).1 := by
  have heff := t.handle_effect e
  have capped := a.capped.handle e
  generalize t.handle e = r at heff capped
  cases heff with
  -- a refusal sets the breach code and the sampling counter, which no reading mentions
  | refused _ count err =>
    refine ⟨capped.maxAllocations, capped.maxMemory, ?_, ?_, ?_, capped.live_le⟩
    · simpa [withCounter] using a.allocations_eq
    · simpa [withCounter] using a.allocations_le
    · simpa [withCounter] using a.live_eq
  | boundary _ clock hne =>
    cases e with
    | call now c => exact absurd rfl (hne now c)
    | _ => exact a.quiet capped rfl rfl rfl rfl rfl
  | allocated now size hcount _ =>
    -- below its limit the counter does not wrap
    have hroom : t.allocations.toNat < limits.maxAllocations.toNat :=
      UInt64.lt_iff_toNat_lt.mp (hcount _ a.maxAllocations)
    have hnext : (t.allocations + 1).toNat = t.allocations.toNat + 1 :=
      toNat_add_of_fits (Nat.lt_of_le_of_lt hroom limits.maxAllocations.toNat_lt)
    refine ⟨capped.maxAllocations, capped.maxMemory, ?_, ?_, ?_, capped.live_le⟩
    · simp [storeMemory, hnext, a.allocations_eq, allocated]
    · rw [UInt64.le_iff_toNat_le]
      simpa only [storeMemory, hnext] using Nat.succ_le_of_lt hroom
    · simpa [storeMemory, MontyServer.freed, granted] using a.store hs
  | freed now size =>
    refine ⟨capped.maxAllocations, capped.maxMemory, ?_, a.allocations_le, ?_, capped.live_le⟩
    · simpa [allocated] using a.allocations_eq
    · have hsub := saturatingSub_of_le hs
      have hlive := a.live_eq
      simp only [List.map_append, List.sum_append, List.map_cons, List.map_nil, List.sum_cons,
        List.sum_nil, MontyServer.freed, granted, hsub]
      have hfits : size.toNat ≤ t.liveMemory.toNat := hs
      omega
  | grown now additionalBytes _ =>
    rw [saturatingAdd_of_fits hs] at capped ⊢
    refine ⟨capped.maxAllocations, capped.maxMemory, ?_, a.allocations_le, ?_, capped.live_le⟩
    · simpa [storeMemory, allocated] using a.allocations_eq
    · simpa [storeMemory, MontyServer.freed, granted] using a.store hs
  | checkedTime now count => exact a.quiet capped rfl rfl rfl rfl rfl
  | checkedDepth now currentDepth => exact a.quiet capped rfl rfl rfl rfl rfl
  | checkedSize now estimatedBytes => exact a.quiet capped rfl rfl rfl rfl rfl

/-- **The reading holds after every history** whose sizes are what the interpreter passes. -/
theorem account_replay (limits : ResolvedLimits) (now : Instant) (events : List TrackerEvent)
    (hs : (new limits now).AllSized events) :
    Account limits ((new limits now).answers events) ((new limits now).replay events) := by
  -- from the end: the last event meets the tracker the others have led to
  induction events using List.reverseRecOn with
  | nil => exact account_new limits now
  | append_singleton events e ih =>
    rw [allSized_append] at hs
    rw [answers_append, replay_append]
    exact (ih hs.1).handle hs.2.1

/-! ## Refusals and the watermark -/

/-- One more event keeps the recorded breach the first refusal. -/
theorem handle_breach {log : List (TrackerEvent × Answer)} {t : StatsTracker} (e : TrackerEvent)
    (h : t.breachCode = codeOf (firstRefusal log)) :
    (t.handle e).1.breachCode = codeOf (firstRefusal (log ++ [(e, (t.handle e).2)])) := by
  have heff := t.handle_effect e
  generalize t.handle e = r at heff
  cases heff with
  | refused _ count err =>
    rw [firstRefusal_append_error]
    exact recordBreach_code _ h
  | _ =>
    rw [firstRefusal_append_ok]
    exact h

/-- **The recorded breach is the first refusal** of the whole history. -/
theorem breach_replay (limits : ResolvedLimits) (now : Instant) (events : List TrackerEvent) :
    ((new limits now).replay events).breach = firstRefusal ((new limits now).answers events) := by
  refine breach_of_code ?_
  induction events using List.reverseRecOn with
  | nil => rfl
  | append_singleton events e ih =>
    rw [answers_append, replay_append]
    exact handle_breach e ih

/-- **A refused call** leaves allocations, live and peak memory as they were. -/
theorem handle_refused {t : StatsTracker} {e : TrackerEvent} {err : ResourceError}
    (h : (t.handle e).2 = .error err) :
    (t.handle e).1.allocations = t.allocations ∧ (t.handle e).1.liveMemory = t.liveMemory ∧
      (t.handle e).1.peakMemory = t.peakMemory := by
  have heff := t.handle_effect e
  generalize t.handle e = r at heff h
  cases heff with
  | refused _ count err' => simp [withCounter]
  | _ => cases h

/-- After every event the peak is the larger of the old peak and the new live memory. -/
theorem handle_peak {t : StatsTracker} (e : TrackerEvent)
    (ht : t.liveMemory.toNat ≤ t.peakMemory.toNat) :
    (t.handle e).1.peakMemory.toNat =
      max t.peakMemory.toNat (t.handle e).1.liveMemory.toNat := by
  have heff := t.handle_effect e
  generalize t.handle e = r at heff
  cases heff with
  | refused _ count err => simpa [withCounter] using (Nat.max_eq_left ht).symm
  | allocated now size hcount hlive => exact toNat_max _ _
  | grown now additionalBytes hlive => exact toNat_max _ _
  | freed now size =>
    have hle := saturatingSub_le t.liveMemory size
    dsimp only
    omega
  | _ => exact (Nat.max_eq_left ht).symm

/-- `peak` is the largest live memory reached in a history. -/
structure IsPeak (t : StatsTracker) (events : List TrackerEvent) (peak : Usize) : Prop where
  bound : ∀ pre, pre <+: events → (t.replay pre).liveMemory ≤ peak
  reached : ∃ pre, pre <+: events ∧ (t.replay pre).liveMemory = peak

/-- **The peak is the maximum**: by induction on the history, one event raising it to the new live
memory or leaving both. -/
theorem isPeak_replay {t : StatsTracker} (ht : t.liveMemory = t.peakMemory)
    (events : List TrackerEvent) : IsPeak t events (t.replay events).peakMemory := by
  induction events using List.reverseRecOn with
  | nil =>
    refine ⟨?_, [], List.prefix_refl _, ht⟩
    intro pre hpre
    rw [List.prefix_nil.mp hpre, replay_nil, ht]
    exact UInt64.le_refl _
  | append_singleton events e ih =>
    have hlive := UInt64.le_iff_toNat_le.mp (ih.bound events (List.prefix_refl _))
    have hpeak := handle_peak e hlive
    rw [← replay_singleton, ← replay_append] at hpeak
    constructor
    · intro pre hpre
      rw [UInt64.le_iff_toNat_le, hpeak]
      rcases List.prefix_concat_iff.mp hpre with rfl | hpre
      · exact Nat.le_max_right _ _
      · exact Nat.le_trans (UInt64.le_iff_toNat_le.mp (ih.bound pre hpre)) (Nat.le_max_left _ _)
    · obtain ⟨pre, hpre, hreached⟩ := ih.reached
      -- the old mark stands, or the last event has set a new one
      rcases Nat.le_total (t.replay (events ++ [e])).liveMemory.toNat
        (t.replay events).peakMemory.toNat with hle | hle
      · refine ⟨pre, hpre.trans (List.prefix_append _ _), UInt64.toNat_inj.mp ?_⟩
        rw [hpeak, hreached, Nat.max_eq_left hle]
      · refine ⟨events ++ [e], List.prefix_refl _, UInt64.toNat_inj.mp ?_⟩
        rw [hpeak, Nat.max_eq_right hle]

end StatsTracker

end MontyServer
