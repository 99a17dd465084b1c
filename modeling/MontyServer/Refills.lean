import MontyServer.RateLimit

/-!
# Refilling, pruning and waiting

What a bucket could grant at a later time is its level there. A check that grants nothing writes the
refilled tokens back, and pruning drops a bucket, and neither changes any later level: the refill is
**path independent** (`Bucket.refilled_trans`), and a bucket that is pruned is full whatever rule it
is used with next. So pruning cannot be observed (`prune_unobservable`), and a refused client knows
exactly how long to wait, however often it asks in between (`retry_after_exact`).
-/

namespace MontyServer

namespace Bucket

variable {bucket : Bucket} {rule : RateRule}

/-- **Path independence**: refilling on the way changes nothing. -/
theorem refilled_trans {u t : Instant} (hlast : bucket.last ≤ u) (hut : u ≤ t) :
    (Bucket.mk (bucket.refilled rule u) u).refilled rule t = bucket.refilled rule t := by
  have hadded : 0 ≤ Duration.asSecsF64 (t - u) * rule.refillPerSec :=
    mul_nonneg (Duration.asSecsF64_nonneg _) rule.refillPerSec_nonneg
  have hsplit : Duration.asSecsF64 (t - bucket.last) =
      Duration.asSecsF64 (u - bucket.last) + Duration.asSecsF64 (t - u) := by
    rw [Duration.asSecsF64_sub hlast, Duration.asSecsF64_sub hut,
      Duration.asSecsF64_sub (hlast.trans hut)]
    ring
  rw [refilled, refilled, refilled, hsplit, add_mul, ← add_assoc, ← min_add_add_right, min_assoc,
    min_eq_right (le_add_of_nonneg_right hadded)]

/-- A full bucket stays full. -/
theorem refilled_full (u t : Instant) :
    (Bucket.mk rule.capacity u).refilled rule t = rule.capacity := by
  apply min_eq_right
  exact le_add_of_nonneg_right (mul_nonneg (Duration.asSecsF64_nonneg _) rule.refillPerSec_nonneg)

theorem refilled_mono (bucket : Bucket) (rule : RateRule) {t t' : Instant} (h : t ≤ t') :
    bucket.refilled rule t ≤ bucket.refilled rule t' := by
  apply min_le_min_right
  have helapsed := Duration.asSecsF64_mono (Nat.sub_le_sub_right h bucket.last)
  have hadded := mul_le_mul_of_nonneg_right helapsed rule.refillPerSec_nonneg
  linarith

end Bucket

namespace RateLimiter

variable {l l' : RateLimiter} {key : String} {rule : RateRule} {now : Instant}

/-- At `now` no bucket is overdrawn, and none has been refilled in time to come. -/
def At (now : Instant) (l : RateLimiter) : Prop :=
  ∀ key bucket, l.buckets key = some bucket → 0 ≤ bucket.tokens ∧ bucket.last ≤ now

theorem at_new (now : Instant) : At now .new := by
  intro key bucket h
  cases h

theorem At.level_nonneg (h : l.At now) (key : String) (rule : RateRule) (t : Instant) :
    0 ≤ level key rule l t := by
  unfold level
  split
  · exact rule.capacity_nonneg
  · next bucket hbucket => exact Bucket.refilled_nonneg (h key bucket hbucket).1 t

/-- **Step lemma**: a call in order keeps the buckets in order. -/
theorem At.step (h : l.At now) {op : Op} (hnow : now ≤ op.now) : (l.step op).At op.now := by
  intro key bucket hbucket
  cases op with
  | check k rule created t =>
    by_cases hk : key = k
    · subst hk
      rcases l.check_cases key rule created t with ⟨hone, -, hafter⟩ | ⟨-, -, hafter⟩
      · cases hafter.symm.trans hbucket
        exact ⟨sub_nonneg.mpr hone, Nat.le_refl _⟩
      · cases hafter.symm.trans hbucket
        exact ⟨h.level_nonneg key rule t, Nat.le_refl _⟩
    · rw [RateLimiter.step, check_of_ne hk] at hbucket
      obtain ⟨htokens, hlast⟩ := h key bucket hbucket
      exact ⟨htokens, hlast.trans hnow⟩
  | pruneIdle read t =>
    obtain ⟨htokens, hlast⟩ := h key bucket (Option.filter_eq_some_iff.mp hbucket).1
    exact ⟨htokens, hlast.trans hnow⟩

/-! ## Levels that stay -/

theorem level_mono (key : String) (rule : RateRule) (l : RateLimiter) {t t' : Instant}
    (h : t ≤ t') : level key rule l t ≤ level key rule l t' := by
  unfold level
  split
  · exact le_refl _
  · next bucket _ => exact bucket.refilled_mono rule h

/-- The level of a bucket a check has just written. -/
theorem level_written {tokens : Rat} (h : l.buckets key = some ⟨tokens, now⟩) (t : Instant) :
    level key rule l t = (Bucket.mk tokens now).refilled rule t := by
  unfold level
  rw [h]

/-- **Pruning changes no level**: what it drops is full by then, under any rule. -/
theorem At.level_pruneIdle (h : l.At now) (key : String) (n : UInt32) {read t : Instant}
    (hread : read ≤ t) : level key (.new n) (l.pruneIdle read) t = level key (.new n) l t := by
  cases hbucket : l.buckets key with
  | none =>
    apply level_congr
    simp only [pruneIdle, hbucket, Option.filter_none]
  | some bucket =>
    by_cases hidle : Duration.asSecsF64 (read - bucket.last) < IDLE_PRUNE_SECS
    · apply level_congr
      simp [pruneIdle, hbucket, hidle]
    · have hlong : IDLE_PRUNE_SECS ≤ Duration.asSecsF64 (t - bucket.last) :=
        (not_lt.mp hidle).trans (Duration.asSecsF64_mono (Nat.sub_le_sub_right hread _))
      have hdropped : (l.pruneIdle read).buckets key = none := by
        simp [pruneIdle, hbucket, not_lt.mp hidle]
      unfold level
      rw [hdropped, hbucket]
      exact (Bucket.refilled_idle (h key bucket hbucket).1 hlong).symm

/-- **A refused check changes no later level.** -/
theorem At.level_refused (h : l.At now) {created u t : Instant} (hu : now ≤ u) (hut : u ≤ t)
    (hlow : level key rule l u < 1) :
    level key rule (l.check key rule created u).1 t = level key rule l t := by
  rcases l.check_cases key rule created u with ⟨hone, -, -⟩ | ⟨-, -, hafter⟩
  · exact absurd hone (not_le.mpr hlow)
  · rw [level_written hafter]
    unfold level
    split
    · exact Bucket.refilled_full u t
    · next bucket hbucket =>
      exact Bucket.refilled_trans ((h key bucket hbucket).2.trans hu) hut

/-! ## Pruning cannot be observed -/

/-- Calls as a clock that only goes forward makes them, with rules of `RateRule::new`. -/
structure Orderly (ops : List Op) : Prop where
  sorted : ops.Pairwise fun a b => a.now ≤ b.now
  read : ∀ read now, .pruneIdle read now ∈ ops → read ≤ now
  rule : ∀ key rule created now, .check key rule created now ∈ ops → ∃ n, rule = .new n

theorem Orderly.tail {op : Op} {ops : List Op} (h : Orderly (op :: ops)) : Orderly ops where
  sorted := (List.pairwise_cons.mp h.sorted).2
  read read now hop := h.read read now (List.mem_cons_of_mem _ hop)
  rule key rule created now hop := h.rule key rule created now (List.mem_cons_of_mem _ hop)

/-- Whether a call is a check. -/
def Op.isCheck : Op → Bool
  | .check .. => true
  | .pruneIdle .. => false

/-- What the checks of a sequence of calls return, each beside its call. -/
def replies (l : RateLimiter) : List Op → List (Op × Except UInt64 Unit)
  | [] => []
  | op :: ops =>
    match op with
    | .check key rule created now =>
      (.check key rule created now, (l.check key rule created now).2) ::
        replies (l.check key rule created now).1 ops
    | .pruneIdle read _ => replies (l.pruneIdle read) ops

/-- **Abstraction**: from `now` on two limiters could grant the same, to any key under any rule. -/
def Alike (now : Instant) (l l' : RateLimiter) : Prop :=
  ∀ key n t, now ≤ t → level key (.new n) l t = level key (.new n) l' t

/-- A check answers what the level says. -/
theorem check_snd (l : RateLimiter) (key : String) (rule : RateRule) (created now : Instant) :
    (l.check key rule created now).2 =
      if 1 ≤ level key rule l now then .ok ()
      else .error (ceilAsU64 ((1 - level key rule l now) / rule.refillPerSec)) := by
  unfold check
  dsimp only
  rw [level_eq]
  split <;> rfl

/-- A check writes what the level says. -/
theorem check_fst (l : RateLimiter) (key : String) (rule : RateRule) (created now : Instant) :
    (l.check key rule created now).1.buckets key =
      some ⟨if 1 ≤ level key rule l now then level key rule l now - 1 else level key rule l now,
        now⟩ := by
  rcases l.check_cases key rule created now with ⟨hone, -, hafter⟩ | ⟨hlow, -, hafter⟩
  · rw [hafter, if_pos hone]
  · rw [hafter, if_neg (not_le.mpr hlow)]

/-- **Step lemma**: a check does the same to both. -/
theorem Alike.check (h : Alike now l l') (key : String) (n : UInt32) (created : Instant)
    {t : Instant} (ht : now ≤ t) :
    (l.check key (.new n) created t).2 = (l'.check key (.new n) created t).2 ∧
      Alike t (l.check key (.new n) created t).1 (l'.check key (.new n) created t).1 := by
  have hlevel := h key n t ht
  refine ⟨by rw [check_snd, check_snd, hlevel], ?_⟩
  intro k n' t' ht'
  by_cases hk : k = key
  · subst hk
    rw [level_written (l.check_fst k (.new n) created t),
      level_written (l'.check_fst k (.new n) created t), hlevel]
  · rw [level_congr (check_of_ne hk l (.new n) created t),
      level_congr (check_of_ne hk l' (.new n) created t)]
    exact h k n' t' (ht.trans ht')

/-- **Run lemma**: alike limiters reply alike, one of them pruned and the other not. -/
theorem Alike.replies {ops : List Op} (h : Alike now l l') (hat : l.At now) (hops : Orderly ops)
    (hnow : ∀ op ∈ ops, now ≤ op.now) :
    l.replies ops = l'.replies (ops.filter Op.isCheck) := by
  induction ops generalizing now l l' with
  | nil => rfl
  | cons op ops ih =>
    obtain ⟨hop, -⟩ := List.forall_mem_cons.mp hnow
    have hlater := (List.pairwise_cons.mp hops.sorted).1
    have hat' := hat.step hop
    cases op with
    | check key rule created t =>
      obtain ⟨n, rfl⟩ := hops.rule key rule created t List.mem_cons_self
      have ht : now ≤ t := hop
      obtain ⟨hreply, halike⟩ := h.check key n created ht
      rw [List.filter_cons_of_pos rfl, RateLimiter.replies, RateLimiter.replies, hreply]
      congr 1
      exact ih halike hat' hops.tail hlater
    | pruneIdle read t =>
      have hread := hops.read read t List.mem_cons_self
      rw [List.filter_cons_of_neg (by simp [Op.isCheck]), RateLimiter.replies]
      apply ih _ hat' hops.tail hlater
      intro key n t' ht'
      show level key (.new n) (l.pruneIdle read) t' = _
      rw [hat.level_pruneIdle key n (hread.trans ht')]
      exact h key n t' (hop.trans ht')

end RateLimiter

/-- **Pruning cannot be observed.** In every sequence of calls in the order of time, with rules of
`RateRule::new` that may change from call to call, every check returns what it would without the
calls of `prune_idle`, wherever they come. -/
theorem prune_unobservable {ops : List RateLimiter.Op} (h : RateLimiter.Orderly ops) :
    RateLimiter.new.replies ops = RateLimiter.new.replies (ops.filter RateLimiter.Op.isCheck) :=
  RateLimiter.Alike.replies (fun _ _ _ _ => rfl) (RateLimiter.at_new 0) h fun _ _ => Nat.zero_le _

/-- The bucket of "a" is emptied under one rule, pruned, and used under another. -/
theorem prune_unobservable_for_rules :
    let ops : List RateLimiter.Op := [.check "a" (.new 1) 0 0, .pruneIdle 600000000000 600000000000,
      .check "a" (.new 9) 600000000000 600000000000]
    RateLimiter.new.replies ops = RateLimiter.new.replies (ops.filter RateLimiter.Op.isCheck) := by
  intro ops
  exact prune_unobservable
    ⟨by simp [ops, RateLimiter.Op.now], by simp [ops],
      by simp only [ops, List.mem_cons, List.not_mem_nil, RateLimiter.Op.check.injEq]; grind⟩

namespace RateLimiter

variable {l : RateLimiter} {key : String} {now : Instant}

/-! ## Waiting -/

/-- **Step lemma**: a call that grants the key nothing changes none of its later levels. -/
theorem At.level_step (h : l.At now) {n : UInt32} {op : Op} (hop : Fits key (.new n) op)
    (hnow : now ≤ op.now) (hgrants : grants key l op = false) {t : Instant} (ht : op.now ≤ t) :
    level key (.new n) (l.step op) t = level key (.new n) l t := by
  cases op with
  | check k rule created u =>
    by_cases hk : k = key
    · subst hk
      cases hop rfl
      apply h.level_refused hnow ht
      rcases l.check_cases k (.new n) created u with ⟨-, hok, -⟩ | ⟨hlow, -, -⟩
      · simp [grants, hok, Except.isOk, Except.toBool] at hgrants
      · exact hlow
    · exact level_congr (check_of_ne (Ne.symm hk) l rule created u) _ t
  | pruneIdle read u => exact h.level_pruneIdle key n (Nat.le_trans hop ht)

/-- No call of the sequence is a check of `key` that is answered `Ok`. -/
def Grantless (key : String) (l : RateLimiter) (ops : List Op) : Prop :=
  ∀ pre op post, ops = pre ++ op :: post → grants key (l.run pre) op = false

theorem Grantless.cons {op : Op} {ops : List Op} (h : Grantless key l (op :: ops)) :
    grants key l op = false ∧ Grantless key (l.step op) ops := by
  constructor
  · exact h [] op ops rfl
  · intro pre op' post hsplit
    exact h (op :: pre) op' post (by rw [hsplit, List.cons_append])

/-- Calls in the order of time, none before `now` and none after `t`. -/
structure Within (now t : Instant) (ops : List Op) : Prop where
  sorted : ops.Pairwise fun a b => a.now ≤ b.now
  first : ∀ op ∈ ops, now ≤ op.now
  last : ∀ op ∈ ops, op.now ≤ t

theorem Within.cons {t : Instant} {op : Op} {ops : List Op} (h : Within now t (op :: ops)) :
    now ≤ op.now ∧ op.now ≤ t ∧ Within op.now t ops := by
  obtain ⟨hlater, hsorted⟩ := List.pairwise_cons.mp h.sorted
  obtain ⟨hfirst, -⟩ := List.forall_mem_cons.mp h.first
  obtain ⟨hlast, hlasts⟩ := List.forall_mem_cons.mp h.last
  exact ⟨hfirst, hlast, hsorted, hlater, hlasts⟩

/-- Buckets are in order after calls in order. -/
theorem At.run (h : l.At now) {t : Instant} {ops : List Op} (hnow : now ≤ t)
    (hwithin : Within now t ops) : (l.run ops).At t := by
  induction ops generalizing l now with
  | nil =>
    intro key bucket hbucket
    obtain ⟨htokens, hlast⟩ := h key bucket hbucket
    exact ⟨htokens, hlast.trans hnow⟩
  | cons op ops ih =>
    obtain ⟨hfirst, hlast, hrest⟩ := hwithin.cons
    exact ih (h.step hfirst) hlast hrest

/-- **Run lemma**: neither do all of them. -/
theorem At.level_run (h : l.At now) {n : UInt32} {ops : List Op} {t : Instant}
    (hfits : ∀ op ∈ ops, Fits key (.new n) op) (hwithin : Within now t ops)
    (hgrants : Grantless key l ops) :
    level key (.new n) (l.run ops) t = level key (.new n) l t := by
  induction ops generalizing l now with
  | nil => rfl
  | cons op ops ih =>
    obtain ⟨hop, hops⟩ := List.forall_mem_cons.mp hfits
    obtain ⟨hnow, ht, hrest⟩ := hwithin.cons
    obtain ⟨hnone, hnones⟩ := hgrants.cons
    show level key (.new n) ((l.step op).run ops) t = _
    rw [ih (h.step hnow) hops hrest hnones, h.level_step hop hnow hnone ht]

/-- Where the level is still low at the end, nothing has been granted on the way. -/
theorem At.grantless_of_low (h : l.At now) {n : UInt32} {ops : List Op} {t : Instant}
    (hfits : ∀ op ∈ ops, Fits key (.new n) op) (hwithin : Within now t ops)
    (hlow : level key (.new n) l t < 1) : Grantless key l ops := by
  induction ops generalizing l now with
  | nil =>
    intro pre op post hsplit
    simp at hsplit
  | cons op ops ih =>
    obtain ⟨hop, hops⟩ := List.forall_mem_cons.mp hfits
    obtain ⟨hnow, ht, hrest⟩ := hwithin.cons
    have hfirst : grants key l op = false := by
      cases op with
      | pruneIdle read u => rfl
      | check k rule created u =>
        by_cases hk : k = key
        · subst hk
          cases hop rfl
          have hu : u ≤ t := ht
          have hbefore := (level_mono k (.new n) l hu).trans_lt hlow
          rw [grants, check_snd, if_neg (not_le.mpr hbefore)]
          simp [Except.isOk, Except.toBool]
        · simp [grants, hk]
    rw [← h.level_step hop hnow hfirst ht] at hlow
    have hnones := ih (h.step hnow) hops hrest hlow
    intro pre op' post hsplit
    cases pre with
    | nil =>
      cases hsplit
      exact hfirst
    | cons op'' pre =>
      cases hsplit
      exact hnones pre op' post rfl

end RateLimiter

/-! ### The wait a refusal names -/

namespace RateRule

theorem one_le_capacity (n : UInt32) : 1 ≤ (RateRule.new n).capacity := by
  have hone : 1 ≤ (max n 1).toNat := by
    rw [show max n 1 = if n ≤ 1 then 1 else n from rfl]
    split
    · exact Nat.le_refl _
    · next h =>
      rw [UInt32.le_iff_toNat_le, Nat.not_le] at h
      exact Nat.le_of_lt h
  exact Nat.one_le_cast.mpr hone

/-- A token comes at least once a minute. -/
theorem one_le_refill (n : UInt32) : 1 ≤ 60 * (RateRule.new n).refillPerSec := by
  have hcapacity := one_le_capacity n
  have hrefill : (RateRule.new n).refillPerSec = (RateRule.new n).capacity / 60 := rfl
  rw [hrefill]
  linarith

end RateRule

/-- The cast of a wait of at most a minute neither saturates nor wraps. -/
theorem ceilAsU64_bounds {x : Rat} (hpos : 0 < x) (hle : x ≤ 60) :
    1 ≤ (ceilAsU64 x).toNat ∧ (ceilAsU64 x).toNat ≤ 60 ∧
      x ≤ (ceilAsU64 x).toNat ∧ ((ceilAsU64 x).toNat : Rat) < x + 1 := by
  have hone : 1 ≤ ⌈x⌉ := Int.one_le_ceil_iff.mpr hpos
  have hsixty : ⌈x⌉ ≤ 60 := Int.ceil_le.mpr (by exact_mod_cast hle)
  have hnat : (ceilAsU64 x).toNat = ⌈x⌉.toNat := by
    have hmin : min ⌈x⌉.toNat (2 ^ 64 - 1) = ⌈x⌉.toNat := by omega
    rw [ceilAsU64, hmin]
    have hlt : ⌈x⌉.toNat < 2 ^ 64 := by omega
    exact UInt64.toNat_ofNat_of_lt' hlt
  have hcast : ((⌈x⌉.toNat : Nat) : Rat) = (⌈x⌉ : Rat) := by
    exact_mod_cast Int.toNat_of_nonneg (by omega)
  rw [hnat, hcast]
  refine ⟨by omega, by omega, Int.le_ceil x, Int.ceil_lt_add_one x⟩

namespace RateLimiter

variable {l : RateLimiter} {key : String} {n : UInt32} {created t : Instant} {wait : UInt64}

/-- **What a refusal promises**: a bucket with less than a token reaches one after at most the wait
it names, and not a second before. -/
theorem At.level_wait (h : l.At t)
    (herr : (l.check key (.new n) created t).2 = .error wait) :
    1 ≤ wait.toNat ∧ wait.toNat ≤ 60 ∧
    (∀ t', t + wait.toNat * 1000000000 ≤ t' →
      1 ≤ level key (.new n) (l.check key (.new n) created t).1 t') ∧
    ∀ t', t' ≤ t + (wait.toNat - 1) * 1000000000 →
      level key (.new n) (l.check key (.new n) created t).1 t' < 1 := by
  have hlow : level key (.new n) l t < 1 := by
    by_contra hone
    rw [check_snd, if_pos (not_lt.mp hone)] at herr
    cases herr
  rw [check_snd, if_neg (not_le.mpr hlow)] at herr
  have hnonneg := h.level_nonneg key (.new n) t
  have hwritten := l.check_fst key (.new n) created t
  rw [if_neg (not_le.mpr hlow)] at hwritten
  have hcapacity := RateRule.one_le_capacity n
  have hrefill := RateRule.one_le_refill n
  generalize hv : level key (.new n) l t = v at herr hlow hnonneg hwritten
  generalize hr : (RateRule.new n).refillPerSec = r at herr hrefill
  have hrpos : 0 < r := by linarith
  have hxpos : 0 < (1 - v) / r := div_pos (by linarith) hrpos
  have hxle : (1 - v) / r ≤ 60 := by
    rw [div_le_iff₀ hrpos]
    linarith
  have hbounds := ceilAsU64_bounds hxpos hxle
  cases herr
  obtain ⟨hone, hsixty, hle, hlt⟩ := hbounds
  generalize (ceilAsU64 ((1 - v) / r)).toNat = w at hone hsixty hle hlt ⊢
  rw [div_le_iff₀ hrpos] at hle
  have hlt' : ((w : Rat) - 1) * r < 1 - v := by
    rw [← lt_div_iff₀ hrpos]
    linarith
  refine ⟨hone, hsixty, ?_, ?_⟩
  · intro t' ht'
    rw [level_written hwritten, Bucket.refilled, hr]
    have helapsed : (w : Rat) ≤ Duration.asSecsF64 (t' - t) := by
      rw [Duration.asSecsF64, le_div_iff₀ (by norm_num)]
      exact_mod_cast Nat.le_sub_of_add_le' ht'
    have hadded := mul_le_mul_of_nonneg_right helapsed hrpos.le
    exact le_min (by linarith) hcapacity
  · intro t' ht'
    rw [level_written hwritten, Bucket.refilled, hr]
    have helapsed : Duration.asSecsF64 (t' - t) ≤ (w : Rat) - 1 := by
      rw [Duration.asSecsF64, div_le_iff₀ (by norm_num), ← Nat.cast_one, ← Nat.cast_sub hone]
      exact_mod_cast Nat.sub_le_iff_le_add'.mpr ht'
    have hadded := mul_le_mul_of_nonneg_right helapsed hrpos.le
    exact (min_le_left _ _).trans_lt (by linarith)

end RateLimiter

/-- **A refusal names the exact wait, and asking is free.** If a check of a bucket, after any calls
in the order of time, is refused with a wait of `wait` seconds, then that is at least one and at
most sixty. After any further calls, the key's own checks with the same rule: a check not more than
`wait - 1` seconds later is refused; and if none has been granted in between, a check `wait`
seconds later or more is granted, and every check gets the answer it would without the calls in
between. -/
theorem retry_after_exact {key : String} {n : UInt32} {before between : List RateLimiter.Op}
    {created created' t t' : Instant} {wait : UInt64}
    (h : RateLimiter.Orderly (before ++ .check key (.new n) created t ::
      (between ++ [.check key (.new n) created' t'])))
    (hrule : ∀ rule created now, .check key rule created now ∈ between → rule = .new n)
    (herr : ((RateLimiter.new.run before).check key (.new n) created t).2 = .error wait) :
    1 ≤ wait.toNat ∧ wait.toNat ≤ 60 ∧
    (t' ≤ t + (wait.toNat - 1) * 1000000000 → ∃ wait',
      ((((RateLimiter.new.run before).check key (.new n) created t).1.run between).check key
        (.new n) created' t').2 = .error wait') ∧
    (RateLimiter.Grantless key ((RateLimiter.new.run before).check key (.new n) created t).1
        between →
      (t + wait.toNat * 1000000000 ≤ t' →
        ((((RateLimiter.new.run before).check key (.new n) created t).1.run between).check key
          (.new n) created' t').2 = .ok ()) ∧
      ((((RateLimiter.new.run before).check key (.new n) created t).1.run between).check key
          (.new n) created' t').2 =
        (((RateLimiter.new.run before).check key (.new n) created t).1.check key (.new n) created'
          t').2) := by
  obtain ⟨hbeforeSorted, hafterSorted, hbeforeLe⟩ := List.pairwise_append.mp h.sorted
  obtain ⟨hlater, hrestSorted⟩ := List.pairwise_cons.mp hafterSorted
  obtain ⟨hsorted, -, hbetweenLe⟩ := List.pairwise_append.mp hrestSorted
  -- before the refused check, and right after it
  have hbefore : RateLimiter.Within 0 t before :=
    ⟨hbeforeSorted, fun _ _ => Nat.zero_le _,
      fun op hop => hbeforeLe op hop _ List.mem_cons_self⟩
  have hat : (RateLimiter.new.run before).At t :=
    (RateLimiter.at_new 0).run (Nat.zero_le t) hbefore
  obtain ⟨hone, hsixty, hgranted, hrefused⟩ := hat.level_wait herr
  have hat₁ : ((RateLimiter.new.run before).check key (.new n) created t).1.At t :=
    @RateLimiter.At.step _ _ hat (.check key (.new n) created t) (Nat.le_refl t)
  generalize ((RateLimiter.new.run before).check key (.new n) created t).1 = l₁ at *
  have hwithin : RateLimiter.Within t t' between :=
    ⟨hsorted, fun op hop => hlater op (List.mem_append_left _ hop),
      fun op hop => hbetweenLe op hop _ (List.mem_singleton_self _)⟩
  have hfits : ∀ op ∈ between, RateLimiter.Fits key (.new n) op := by
    intro op hop
    cases op with
    | check k rule created'' u =>
      rintro rfl
      exact hrule rule created'' u hop
    | pruneIdle read u =>
      apply h.read read u
      simp [hop]
  refine ⟨hone, hsixty, ?_, ?_⟩
  · intro ht'
    have hlow := hrefused t' ht'
    have hgrantless := hat₁.grantless_of_low hfits hwithin hlow
    rw [← hat₁.level_run hfits hwithin hgrantless] at hlow
    rw [RateLimiter.check_snd, if_neg (not_le.mpr hlow)]
    exact ⟨_, rfl⟩
  · intro hgrantless
    have hsame := hat₁.level_run hfits hwithin hgrantless
    refine ⟨?_, ?_⟩
    · intro ht'
      rw [RateLimiter.check_snd, hsame, if_pos (hgranted t' ht')]
    · rw [RateLimiter.check_snd, RateLimiter.check_snd, hsame]

/-- With one request a minute, a client that asks again after 30.5 seconds is told to wait 30; it
asks once more after one of them, and is granted after all. -/
theorem retry_after_half_minute :
    1 ≤ (30 : UInt64).toNat ∧ (30 : UInt64).toNat ≤ 60 ∧
    ((((RateLimiter.new.run [.check "a" (.new 1) 0 0]).check "a" (.new 1) 0 30500000000).1.run
      [.check "a" (.new 1) 0 31500000000]).check "a" (.new 1) 0 60500000000).2 = .ok () := by
  have h : RateLimiter.Orderly ([.check "a" (.new 1) 0 0] ++ .check "a" (.new 1) 0 30500000000 ::
      ([.check "a" (.new 1) 0 31500000000] ++ [.check "a" (.new 1) 0 60500000000])) := by
    refine ⟨by simp [RateLimiter.Op.now], by simp, ?_⟩
    simp only [List.cons_append, List.nil_append, List.mem_cons, List.not_mem_nil,
      RateLimiter.Op.check.injEq]
    grind
  have herr : ((RateLimiter.new.run [.check "a" (.new 1) 0 0]).check "a" (.new 1) 0
      30500000000).2 = .error 30 := by decide +kernel
  have hgrantless : RateLimiter.Grantless "a"
      ((RateLimiter.new.run [.check "a" (.new 1) 0 0]).check "a" (.new 1) 0 30500000000).1
      [.check "a" (.new 1) 0 31500000000] := by
    intro pre op post hsplit
    cases pre with
    | nil =>
      cases hsplit
      decide +kernel
    | cons op' pre => simp at hsplit
  obtain ⟨hone, hsixty, -, hfree⟩ := retry_after_exact h (by simp; grind) herr
  exact ⟨hone, hsixty, (hfree hgrantless).1 (by decide)⟩

end MontyServer
