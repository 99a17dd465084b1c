import MontyServer.Config
import MontyServer.Lib.Meter
import Mathlib.Algebra.Order.Round
import Mathlib.Data.Rat.Floor

/-!
# The rate limiter

`rate_limit.rs`: one token bucket for each key. The arithmetic is exact here, in rationals, where
the `f64`s of the code may round. A bucket is a meter: what it could grant at a time is its level, a
granted request is paid out of the level, and pruning drops only buckets that are full again. So
what a key is granted in any window of time is bounded by the burst and the rate (`granted_le`),
whatever the other keys do.
-/

namespace MontyServer

/-- `Duration::as_secs_f64`. -/
def Duration.asSecsF64 (d : Duration) : Rat := (d : Rat) / 1000000000

/-- `x.ceil() as u64`; the cast saturates. -/
def ceilAsU64 (x : Rat) : UInt64 := UInt64.ofNat (min ⌈x⌉.toNat (2 ^ 64 - 1))

/-- Idle buckets older than this are pruned. -/
def IDLE_PRUNE_SECS : Rat := 600

/-- `last` is when `tokens` was last refilled. -/
structure Bucket where
  tokens : Rat
  last : Instant

/-- Per-key token-bucket rate limiter. -/
structure RateLimiter where
  buckets : String → Option Bucket

namespace RateRule

def refillPerSec (rule : RateRule) : Rat := (rule.perMinute.toNat : Rat) / 60

def capacity (rule : RateRule) : Rat := rule.burst.toNat

end RateRule

/-- The refill of `check`. -/
def Bucket.refilled (bucket : Bucket) (rule : RateRule) (now : Instant) : Rat :=
  min (bucket.tokens + Duration.asSecsF64 (now - bucket.last) * rule.refillPerSec) rule.capacity

namespace RateLimiter

def new : RateLimiter where
  buckets := fun _ => none

def insert (l : RateLimiter) (key : String) (bucket : Bucket) : RateLimiter where
  buckets := fun k => if k = key then some bucket else l.buckets k

/-- Charges one request against `key`. The clock is read for a bucket that is not there yet
(`created`), and once the bucket is locked (`now`). -/
def check (l : RateLimiter) (key : String) (rule : RateRule) (created now : Instant) :
    RateLimiter × Except UInt64 Unit :=
  let bucket := (l.buckets key).getD ⟨rule.capacity, created⟩
  let tokens := bucket.refilled rule now
  if 1 ≤ tokens then (l.insert key ⟨tokens - 1, now⟩, .ok ())
  else (l.insert key ⟨tokens, now⟩, .error (ceilAsU64 ((1 - tokens) / rule.refillPerSec)))

/-- Drops buckets that have been idle long enough to be fully refilled; `now` is what the call has
read before it goes through the map. No bucket is locked then, since `check` holds on to its place
in the map for as long. -/
def pruneIdle (l : RateLimiter) (now : Instant) : RateLimiter where
  buckets := fun key =>
    (l.buckets key).filter fun b => Duration.asSecsF64 (now - b.last) < IDLE_PRUNE_SECS

/-- A call of the limiter; `now` is when it gets to a bucket. -/
inductive Op
  | check (key : String) (rule : RateRule) (created now : Instant)
  | pruneIdle (read now : Instant)

def Op.now : Op → Instant
  | .check _ _ _ now | .pruneIdle _ now => now

/-- The call gets to the bucket of `key`. -/
def Op.touches (key : String) : Op → Bool
  | .check k _ _ _ => k = key
  | .pruneIdle _ _ => true

/-- The limiter after a call. -/
def step (l : RateLimiter) : Op → RateLimiter
  | .check key rule created now => (l.check key rule created now).1
  | .pruneIdle read _ => l.pruneIdle read

/-- The call is a check of `key`, and it is answered `Ok`. -/
def grants (key : String) (l : RateLimiter) : Op → Bool
  | .check k rule created now => k = key && (l.check k rule created now).2.isOk
  | .pruneIdle _ _ => false

/-- The limiter after a sequence of calls. -/
def run (l : RateLimiter) (ops : List Op) : RateLimiter := ops.foldl step l

/-- How many checks of `key` are answered `Ok` from `s` to `t`. -/
def granted (key : String) (s t : Instant) (l : RateLimiter) (ops : List Op) : Nat :=
  Meter.charges step (grants key) Op.now s t l ops

/-- What a clock that only goes forward makes of the calls that get to the bucket of `key`: they
come in order, and none has read a time that is still to come. Every check of `key` is made with
`rule`; nothing is said of the checks of other keys. -/
structure Timely (key : String) (rule : RateRule) (ops : List Op) : Prop where
  sorted : (ops.filter (Op.touches key)).Pairwise fun a b => a.now ≤ b.now
  read : ∀ read now, .pruneIdle read now ∈ ops → read ≤ now
  rule : ∀ r created now, .check key r created now ∈ ops → r = rule

/-! ## The level of a bucket -/

/-- What a check of `key` would find at `t`. -/
def level (key : String) (rule : RateRule) (l : RateLimiter) (t : Instant) : Rat :=
  match l.buckets key with
  | none => rule.capacity
  | some bucket => bucket.refilled rule t

/-- A bucket holds no less than nothing and no more than the burst. -/
def Bounded (key : String) (rule : RateRule) (l : RateLimiter) : Prop :=
  ∀ bucket, l.buckets key = some bucket → 0 ≤ bucket.tokens ∧ bucket.tokens ≤ rule.capacity

end RateLimiter

/-! ## Time and refills -/

namespace Duration

theorem asSecsF64_nonneg (d : Duration) : 0 ≤ asSecsF64 d :=
  div_nonneg (Nat.cast_nonneg d) (by norm_num)

theorem asSecsF64_mono {d d' : Duration} (h : d ≤ d') : asSecsF64 d ≤ asSecsF64 d' :=
  div_le_div_of_nonneg_right (Nat.cast_le.mpr h) (by norm_num)

theorem asSecsF64_sub {t t' : Instant} (h : t ≤ t') :
    asSecsF64 (t' - t) = asSecsF64 t' - asSecsF64 t := by
  rw [asSecsF64, Nat.cast_sub h, sub_div]
  rfl

/-- `duration_since` saturates, so what has elapsed grows no faster than time. -/
theorem asSecsF64_since_le (last : Instant) {t t' : Instant} (h : t ≤ t') :
    asSecsF64 (t' - last) ≤ asSecsF64 (t - last) + (asSecsF64 t' - asSecsF64 t) := by
  rcases Nat.le_total last t with hlast | hlast
  · rw [asSecsF64_sub hlast, asSecsF64_sub (hlast.trans h)]
    linarith
  · have helapsed : asSecsF64 (t' - last) ≤ asSecsF64 (t' - t) :=
      asSecsF64_mono (Nat.sub_le_sub_left hlast t')
    have hnonneg := asSecsF64_nonneg (t - last)
    rw [asSecsF64_sub h] at helapsed
    linarith

end Duration

namespace RateRule

variable (rule : RateRule)

theorem refillPerSec_nonneg : 0 ≤ rule.refillPerSec :=
  div_nonneg (Nat.cast_nonneg _) (by norm_num)

theorem capacity_nonneg : 0 ≤ rule.capacity := Nat.cast_nonneg _

/-- The idle time after which a bucket is pruned refills it. -/
theorem capacity_le_idle (n : UInt32) :
    (RateRule.new n).capacity ≤ IDLE_PRUNE_SECS * (RateRule.new n).refillPerSec := by
  have hnonneg := (RateRule.new n).capacity_nonneg
  have hrefill : (RateRule.new n).refillPerSec = (RateRule.new n).capacity / 60 := rfl
  rw [hrefill, IDLE_PRUNE_SECS]
  linarith

end RateRule

namespace Bucket

variable {bucket : Bucket} {rule : RateRule}

theorem refilled_le_capacity (bucket : Bucket) (rule : RateRule) (t : Instant) :
    bucket.refilled rule t ≤ rule.capacity :=
  min_le_right _ _

theorem refilled_nonneg (h : 0 ≤ bucket.tokens) (t : Instant) : 0 ≤ bucket.refilled rule t :=
  le_min (add_nonneg h (mul_nonneg (Duration.asSecsF64_nonneg _) rule.refillPerSec_nonneg))
    rule.capacity_nonneg

/-- A bucket fills no faster than at its rate. -/
theorem refilled_grow (bucket : Bucket) (rule : RateRule) {t t' : Instant} (h : t ≤ t') :
    bucket.refilled rule t' ≤ bucket.refilled rule t +
      (Duration.asSecsF64 t' - Duration.asSecsF64 t) * rule.refillPerSec := by
  have hrate := rule.refillPerSec_nonneg
  have hadded : 0 ≤ (Duration.asSecsF64 t' - Duration.asSecsF64 t) * rule.refillPerSec :=
    mul_nonneg (sub_nonneg.mpr (Duration.asSecsF64_mono h)) hrate
  have helapsed := mul_le_mul_of_nonneg_right (Duration.asSecsF64_since_le bucket.last h) hrate
  rw [add_mul] at helapsed
  rw [refilled, refilled, ← min_add_add_right]
  refine le_min ?_ ?_
  · exact (min_le_left _ _).trans (by linarith)
  · exact (min_le_right _ _).trans (by linarith)

/-- Just after it has been written, a bucket holds what was written. -/
theorem refilled_now (tokens : Rat) (now : Instant) (h : tokens ≤ rule.capacity) :
    (Bucket.mk tokens now).refilled rule now = tokens := by
  have hzero : Duration.asSecsF64 (now - now) = 0 := by
    rw [Nat.sub_self, Duration.asSecsF64, Nat.cast_zero, zero_div]
  rw [refilled, hzero, zero_mul, add_zero]
  exact min_eq_left h

/-- A bucket that has been idle for long is full. -/
theorem refilled_idle {n : UInt32} (h : 0 ≤ bucket.tokens) {t : Instant}
    (hidle : IDLE_PRUNE_SECS ≤ Duration.asSecsF64 (t - bucket.last)) :
    bucket.refilled (.new n) t = (RateRule.new n).capacity := by
  have hrate := (RateRule.new n).refillPerSec_nonneg
  have hfull := RateRule.capacity_le_idle n
  have hrefill := mul_le_mul_of_nonneg_right hidle hrate
  exact min_eq_right (by linarith)

end Bucket

/-! ## The limiter as a meter -/

namespace RateLimiter

variable {l : RateLimiter} {key : String} {rule : RateRule}

theorem insert_self (l : RateLimiter) (key : String) (bucket : Bucket) :
    (l.insert key bucket).buckets key = some bucket := if_pos rfl

theorem insert_of_ne {k : String} (h : key ≠ k) (l : RateLimiter) (bucket : Bucket) :
    (l.insert k bucket).buckets key = l.buckets key := if_neg h

/-- A check of another key is none of this one's business. -/
theorem check_of_ne {k : String} (h : key ≠ k) (l : RateLimiter) (rule : RateRule)
    (created now : Instant) : (l.check k rule created now).1.buckets key = l.buckets key := by
  unfold check
  dsimp only
  split <;> exact insert_of_ne h l _

/-- What `check` finds is the level. -/
theorem level_eq (l : RateLimiter) (key : String) (rule : RateRule) (created now : Instant) :
    ((l.buckets key).getD ⟨rule.capacity, created⟩).refilled rule now = level key rule l now := by
  unfold level
  cases l.buckets key with
  | some bucket => rfl
  | none =>
    -- a new bucket is full, and stays so
    refine min_eq_right (le_add_of_nonneg_right ?_)
    exact mul_nonneg (Duration.asSecsF64_nonneg _) rule.refillPerSec_nonneg

/-- **The two ways a check ends**: a token is there and is taken, or there is less than one. -/
theorem check_cases (l : RateLimiter) (key : String) (rule : RateRule) (created now : Instant) :
    (1 ≤ level key rule l now ∧ (l.check key rule created now).2 = .ok () ∧
      (l.check key rule created now).1.buckets key = some ⟨level key rule l now - 1, now⟩) ∨
    (level key rule l now < 1 ∧ (∃ wait, (l.check key rule created now).2 = .error wait) ∧
      (l.check key rule created now).1.buckets key = some ⟨level key rule l now, now⟩) := by
  unfold check
  dsimp only
  rw [level_eq]
  split
  · next hone => exact .inl ⟨hone, rfl, insert_self ..⟩
  · next hone => exact .inr ⟨not_le.mp hone, ⟨_, rfl⟩, insert_self ..⟩

theorem level_le_capacity (key : String) (rule : RateRule) (l : RateLimiter) (t : Instant) :
    level key rule l t ≤ rule.capacity := by
  unfold level
  split
  · exact le_refl _
  · next bucket _ => exact bucket.refilled_le_capacity rule t

theorem level_nonneg (h : l.Bounded key rule) (t : Instant) : 0 ≤ level key rule l t := by
  unfold level
  split
  · exact rule.capacity_nonneg
  · next bucket hbucket => exact Bucket.refilled_nonneg (h bucket hbucket).1 t

theorem level_grow (key : String) (rule : RateRule) (l : RateLimiter) {t t' : Instant}
    (h : t ≤ t') : level key rule l t' ≤ level key rule l t +
      (Duration.asSecsF64 t' - Duration.asSecsF64 t) * rule.refillPerSec := by
  unfold level
  split
  · exact le_add_of_nonneg_right
      (mul_nonneg (sub_nonneg.mpr (Duration.asSecsF64_mono h)) rule.refillPerSec_nonneg)
  · next bucket _ => exact bucket.refilled_grow rule h

theorem level_congr {l l' : RateLimiter} (h : l'.buckets key = l.buckets key) (rule : RateRule)
    (t : Instant) : level key rule l' t = level key rule l t := by
  unfold level
  rw [h]

/-- What one call of the limiter needs for the law of `key`. -/
def Fits (key : String) (rule : RateRule) : Op → Prop
  | .check k r _ _ => k = key → r = rule
  | .pruneIdle read now => read ≤ now

/-- **Step lemma**: no call takes a bucket out of its bounds. -/
theorem Bounded.step (h : l.Bounded key rule) {op : Op} (hop : Fits key rule op) :
    (l.step op).Bounded key rule := by
  intro bucket hbucket
  cases op with
  | check k r created now =>
    by_cases hk : key = k
    · subst hk
      cases hop rfl
      have hnonneg := level_nonneg h now
      have hle := level_le_capacity key rule l now
      rcases l.check_cases key rule created now with ⟨hone, -, hafter⟩ | ⟨-, -, hafter⟩
      · cases hafter.symm.trans hbucket
        exact ⟨sub_nonneg.mpr hone, by linarith⟩
      · cases hafter.symm.trans hbucket
        exact ⟨hnonneg, hle⟩
    · rw [RateLimiter.step, check_of_ne hk] at hbucket
      exact h bucket hbucket
  | pruneIdle read now =>
    exact h bucket (Option.filter_eq_some_iff.mp hbucket).1

/-- Pruning takes a bucket away only when it is full. -/
theorem level_pruneIdle {n : UInt32} (h : l.Bounded key (.new n)) {read now : Instant}
    (hread : read ≤ now) :
    level key (.new n) (l.pruneIdle read) now ≤ level key (.new n) l now := by
  cases hbucket : l.buckets key with
  | none =>
    have hsame : (l.pruneIdle read).buckets key = l.buckets key := by
      simp only [pruneIdle, hbucket, Option.filter_none]
    exact le_of_eq (level_congr hsame _ _)
  | some bucket =>
    by_cases hidle : Duration.asSecsF64 (read - bucket.last) < IDLE_PRUNE_SECS
    · have hsame : (l.pruneIdle read).buckets key = l.buckets key := by
        simp [pruneIdle, hbucket, hidle]
      exact le_of_eq (level_congr hsame _ _)
    · have hlong : IDLE_PRUNE_SECS ≤ Duration.asSecsF64 (now - bucket.last) :=
        (not_lt.mp hidle).trans (Duration.asSecsF64_mono (Nat.sub_le_sub_right hread _))
      have hfull : level key (.new n) l now = (RateRule.new n).capacity := by
        unfold level
        rw [hbucket]
        exact Bucket.refilled_idle (h bucket hbucket).1 hlong
      rw [hfull]
      exact level_le_capacity ..

/-- A granted check is paid out of the level; no other call lowers or raises it then. -/
theorem level_pay {n : UInt32} (h : l.Bounded key (.new n)) {op : Op} (hop : Fits key (.new n) op) :
    level key (.new n) (l.step op) op.now + (if grants key l op then 1 else 0) ≤
      level key (.new n) l op.now := by
  cases op with
  | check k r created now =>
    by_cases hk : key = k
    · subst hk
      cases hop rfl
      have hle := level_le_capacity key (.new n) l now
      rcases l.check_cases key (.new n) created now with
        ⟨-, hok, hafter⟩ | ⟨-, ⟨wait, herr⟩, hafter⟩
      · have hlevel : level key (.new n) (l.step (.check key (.new n) created now)) now =
            level key (.new n) l now - 1 := by
          rw [level, RateLimiter.step, hafter]
          exact Bucket.refilled_now _ now (by linarith)
        rw [Op.now, hlevel, grants, hok]
        simp [Except.isOk, Except.toBool]
      · have hlevel : level key (.new n) (l.step (.check key (.new n) created now)) now =
            level key (.new n) l now := by
          rw [level, RateLimiter.step, hafter]
          exact Bucket.refilled_now _ now hle
        rw [Op.now, hlevel, grants, herr]
        simp [Except.isOk, Except.toBool]
    · have hnot : grants key l (.check k r created now) = false := by
        simp [grants, Ne.symm hk]
      rw [hnot, Op.now]
      have hsame := level_congr (check_of_ne hk l r created now) (.new n) now
      simpa [RateLimiter.step] using le_of_eq hsame
  | pruneIdle read now =>
    simpa [RateLimiter.step, grants, Op.now] using level_pruneIdle h hop

/-- **The limiter is a meter**, for every key. -/
theorem law (key : String) (n : UInt32) :
    Meter.Law (Bounded key (.new n)) (Fits key (.new n)) step (grants key) Op.now
      Duration.asSecsF64 (level key (.new n)) (RateRule.new n).capacity
      (RateRule.new n).refillPerSec where
  keep _ _ h hop := h.step hop
  nonneg _ t h := level_nonneg h t
  le_capacity l t _ := level_le_capacity key _ l t
  clock_mono _ _ h := Duration.asSecsF64_mono h
  rate_nonneg := (RateRule.new n).refillPerSec_nonneg
  grow l _ _ _ h := level_grow key _ l h
  pay _ _ h hop := level_pay h hop

theorem Timely.fits {ops : List Op} (h : Timely key rule ops) : ∀ op ∈ ops, Fits key rule op := by
  intro op hop
  cases op with
  | check k r created now =>
    rintro rfl
    exact h.rule r created now hop
  | pruneIdle read now => exact h.read read now hop

/-- A call does to a bucket what the bucket says. -/
theorem step_congr {l l' : RateLimiter} (h : l.buckets key = l'.buckets key) (op : Op) :
    (l.step op).buckets key = (l'.step op).buckets key := by
  cases op with
  | check k rule created now =>
    by_cases hk : k = key
    · subst hk
      simp only [step, check, h]
      split <;> rw [insert_self, insert_self]
    · rw [step, step, check_of_ne (Ne.symm hk), check_of_ne (Ne.symm hk), h]
  | pruneIdle read now => simp only [step, pruneIdle, h]

theorem grants_congr {l l' : RateLimiter} (h : l.buckets key = l'.buckets key) (op : Op) :
    grants key l op = grants key l' op := by
  cases op with
  | check k rule created now =>
    by_cases hk : k = key
    · subst hk
      simp only [grants, check, h]
      split <;> rfl
    · simp [grants, hk]
  | pruneIdle read now => rfl

/-- **Step lemma**: a call that does not get to the bucket neither changes nor charges it. -/
theorem step_of_not_touches {op : Op} (h : op.touches key = false) :
    (l.step op).buckets key = l.buckets key ∧ grants key l op = false := by
  cases op with
  | check k rule created now =>
    have hk : k ≠ key := of_decide_eq_false h
    exact ⟨check_of_ne hk.symm l rule created now, by simp [grants, hk]⟩
  | pruneIdle read now => cases h

/-- **Run lemma**: what a key is granted depends on the calls that get to its bucket. -/
theorem granted_filter {l l' : RateLimiter} (h : l.buckets key = l'.buckets key) (s t : Instant)
    (ops : List Op) :
    granted key s t l ops = granted key s t l' (ops.filter (Op.touches key)) := by
  induction ops generalizing l l' with
  | nil => rfl
  | cons op ops ih =>
    by_cases htouches : op.touches key = true
    · rw [List.filter_cons_of_pos htouches, granted, granted, Meter.charges, Meter.charges,
        grants_congr h op]
      exact congrArg _ (ih (step_congr h op))
    · have hnot : op.touches key = false := Bool.not_eq_true _ ▸ htouches
      obtain ⟨hsame, hgrants⟩ := step_of_not_touches (l := l) hnot
      rw [List.filter_cons_of_neg htouches, granted, Meter.charges, hgrants]
      simp only [Bool.false_eq_true, false_and, if_false, Nat.zero_add]
      exact ih (hsame.trans h)

theorem bounded_new (key : String) (rule : RateRule) : RateLimiter.new.Bounded key rule := nofun

/-- **Run lemma**: buckets stay within their bounds. -/
theorem Bounded.run {ops : List Op} (hops : ∀ op ∈ ops, Fits key rule op)
    (h : l.Bounded key rule) : (l.run ops).Bounded key rule := by
  induction ops generalizing l with
  | nil => exact h
  | cons op ops ih =>
    obtain ⟨hop, hops⟩ := List.forall_mem_cons.mp hops
    exact ih hops (h.step hop)

end RateLimiter

/-- **The limiter bounds every window.** Whatever other keys do and whenever idle buckets are
pruned, a key whose checks are all made with the same rule is granted at most the burst and what the
rate adds during the window, and its bucket never holds less than nothing or more than the burst. -/
theorem granted_le (key : String) (n : UInt32) (ops : List RateLimiter.Op)
    (h : RateLimiter.Timely key (.new n) ops) :
    (∀ s t : Instant, s ≤ t →
      (RateLimiter.granted key s t .new ops : Rat) ≤ (RateRule.new n).burst.toNat +
        Duration.asSecsF64 (t - s) * (RateRule.new n).perMinute.toNat / 60) ∧
    ∀ bucket, (RateLimiter.new.run ops).buckets key = some bucket →
      0 ≤ bucket.tokens ∧ bucket.tokens ≤ (RateRule.new n).burst.toNat := by
  have hnew := RateLimiter.bounded_new key (.new n)
  refine ⟨?_, RateLimiter.Bounded.run h.fits hnew⟩
  intro s t hst
  have hfits : ∀ op ∈ ops.filter (RateLimiter.Op.touches key), RateLimiter.Fits key (.new n) op :=
    fun op hop => h.fits op (List.mem_of_mem_filter hop)
  have hlaw := (RateLimiter.law key n).charges_le hnew hfits h.sorted hst
  rw [← Duration.asSecsF64_sub hst] at hlaw
  rw [RateLimiter.granted_filter rfl]
  calc (RateLimiter.granted key s t .new (ops.filter (RateLimiter.Op.touches key)) : Rat)
      ≤ (RateRule.new n).capacity +
        Duration.asSecsF64 (t - s) * (RateRule.new n).refillPerSec := hlaw
    _ = (RateRule.new n).burst.toNat +
        Duration.asSecsF64 (t - s) * (RateRule.new n).perMinute.toNat / 60 := by
      rw [RateRule.capacity, RateRule.refillPerSec, mul_div_assoc]

/-- One request a minute: the second comes too early, the third does not, and the window is full. -/
theorem granted_le_minute :
    let ops : List RateLimiter.Op := [.check "a" (.new 1) 0 0, .check "b" (.new 9) 5 5,
      .check "a" (.new 1) 0 30000000000, .pruneIdle 5 40000000000,
      .check "a" (.new 1) 0 60000000000]
    RateLimiter.granted "a" 0 60000000000 .new ops = 2 ∧
    (RateLimiter.granted "a" 0 60000000000 .new ops : Rat) ≤ (RateRule.new 1).burst.toNat +
      Duration.asSecsF64 (60000000000 - 0) * (RateRule.new 1).perMinute.toNat / 60 := by
  intro ops
  have htouches : ops.filter (RateLimiter.Op.touches "a") = [.check "a" (.new 1) 0 0,
      .check "a" (.new 1) 0 30000000000, .pruneIdle 5 40000000000,
      .check "a" (.new 1) 0 60000000000] := rfl
  have h : RateLimiter.Timely "a" (.new 1) ops :=
    ⟨by simp [htouches, RateLimiter.Op.now], by simp [ops], by simp [ops]; grind⟩
  exact ⟨by decide +kernel, (granted_le "a" 1 ops h).1 0 60000000000 (by decide)⟩

end MontyServer
