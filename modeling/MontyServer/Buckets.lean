import MontyServer.Admission

/-!
# What the limiter keeps

Anyone can make the limiter keep a bucket, on an open server by a header. `prune_idle` is there so
that the map does not grow without limit: after it only keys that have been charged in the last ten
minutes are left, and each bucket that is there later has been paid for by a request made since
(`buckets_le_requests`).
-/

namespace MontyServer

/-- Where at most one of some distinct things is new, their number grows by one at most. -/
theorem countP_le_succ {α : Type} {p q : α → Bool} {as : List α} (hnodup : as.Nodup) {a₀ : α}
    (h : ∀ a ∈ as, a ≠ a₀ → q a = true → p a = true) : as.countP q ≤ as.countP p + 1 := by
  induction as with
  | nil => exact Nat.zero_le _
  | cons a as ih =>
    obtain ⟨hnot, htail⟩ := List.nodup_cons.mp hnodup
    obtain ⟨hhead, hrest⟩ := List.forall_mem_cons.mp h
    rw [List.countP_cons, List.countP_cons]
    by_cases ha : a = a₀
    · have hsame : as.countP q ≤ as.countP p := by
        apply List.countP_mono_left
        intro b hb
        apply hrest b hb
        rintro rfl
        exact hnot (ha ▸ hb)
      split <;> omega
    · have hless := ih htail hrest
      have hkept := hhead ha
      by_cases hq : q a = true
      · rw [if_pos hq, if_pos (hkept hq)]
        omega
      · rw [if_neg hq]
        omega

/-- A bucket used then is one that a `prune_idle` at `read` leaves alone. -/
def Recent (read last : Instant) : Prop := read < last + 600000000000

instance (read last : Instant) : Decidable (Recent read last) := Nat.decLt ..

theorem RateLimiter.pruneIdle_recent {l : RateLimiter} {read : Instant} {key : String}
    {bucket : Bucket} (h : (l.pruneIdle read).buckets key = some bucket) :
    l.buckets key = some bucket ∧ Recent read bucket.last := by
  obtain ⟨hbucket, hidle⟩ := Option.filter_eq_some_iff.mp h
  refine ⟨hbucket, ?_⟩
  have hsecs : ((read - bucket.last : Nat) : Rat) / 1000000000 < 600 := of_decide_eq_true hidle
  have hnanos : ((read - bucket.last : Nat) : Rat) < (600000000000 : Nat) := by
    rw [div_lt_iff₀ (by norm_num)] at hsecs
    exact lt_of_lt_of_eq hsecs (by norm_num)
  have hless := Nat.cast_lt.mp hnanos
  apply Nat.lt_of_not_le
  intro hle
  exact Nat.not_lt.mpr (Nat.le_sub_of_add_le' hle) hless

namespace Service

variable {config : ResolvedConfig} {s s' : Service}

/-- A request that the limiter is asked about, no longer ago than `prune_idle` looks. -/
def charges (config : ResolvedConfig) (read : Instant) (s : Service) (e : Event) : Nat :=
  match s.op config e with
  | some (.check ..) => if Recent read s.now then 1 else 0
  | _ => 0

/-- The key has a bucket that has been used no longer ago. -/
def keeps (read : Instant) (s : Service) (key : String) : Bool :=
  (s.rateLimiter.buckets key).any fun bucket => Recent read bucket.last

variable [Crates]

/-- **Step lemma**: a bucket comes to be recent by a request that is charged. -/
theorem Trans.countP_keeps_le {e : Event} (h : s.Trans config e s') (read : Instant)
    {keys : List String} (hnodup : keys.Nodup) :
    keys.countP (s'.keeps read) ≤ keys.countP (s.keeps read) + s.charges config read e := by
  rw [charges]
  have hlimiter : s'.rateLimiter = (s.op config e).elim s.rateLimiter s.rateLimiter.step :=
    h.rateLimiter
  cases hop : s.op config e with
  | none =>
    rw [hop] at hlimiter
    apply Nat.le_add_right_of_le
    apply List.countP_mono_left
    intro key _ hkey
    rw [keeps, hlimiter] at hkey
    exact hkey
  | some op =>
    rw [hop] at hlimiter
    cases op with
    | pruneIdle pruned now =>
      apply Nat.le_add_right_of_le
      apply List.countP_mono_left
      intro key _ hkey
      obtain ⟨bucket, hbucket, hrecent⟩ := (Option.any_eq_true _ _).mp hkey
      rw [hlimiter] at hbucket
      have hbefore := (RateLimiter.pruneIdle_recent hbucket).1
      exact (Option.any_eq_true _ _).mpr ⟨bucket, hbefore, hrecent⟩
    | check id rule created now =>
      have hnow : now = s.now := op_now hop
      subst hnow
      -- the other keys have the buckets they had
      have hother : ∀ key ∈ keys, key ≠ id → s'.keeps read key = true →
          s.keeps read key = true := by
        intro key _ hne hkey
        rw [keeps, hlimiter] at hkey
        rw [keeps, ← RateLimiter.check_of_ne hne s.rateLimiter rule created s.now]
        exact hkey
      dsimp only
      split
      · exact countP_le_succ hnodup hother
      · next hold =>
        apply List.countP_mono_left
        intro key hmem hkey
        by_cases hid : key = id
        · subst hid
          obtain ⟨bucket, hbucket, hrecent⟩ := (Option.any_eq_true _ _).mp hkey
          rw [hlimiter] at hbucket
          cases (s.rateLimiter.check_fst key rule created s.now).symm.trans hbucket
          exact (hold (of_decide_eq_true hrecent)).elim
        · exact hother key hmem hid hkey

/-- From a `prune_idle` on, no bucket is older than it looks back. -/
structure Pruned (read : Instant) (s : Service) : Prop where
  past : read ≤ s.now
  recent : ∀ key bucket, s.rateLimiter.buckets key = some bucket → Recent read bucket.last

theorem Pruned.step {read : Instant} (pruned : s.Pruned read) {e : Event}
    (h : s.step config e = some s') : s'.Pruned read := by
  have htrans := step_cases h
  refine ⟨pruned.past.trans htrans.now_le, ?_⟩
  intro key bucket hbucket
  have hlimiter : s'.rateLimiter = (s.op config e).elim s.rateLimiter s.rateLimiter.step :=
    htrans.rateLimiter
  rw [hlimiter] at hbucket
  cases hop : s.op config e with
  | none =>
    rw [hop] at hbucket
    exact pruned.recent key bucket hbucket
  | some op =>
    rw [hop] at hbucket
    cases op with
    | pruneIdle pruned' now =>
      exact pruned.recent key bucket (RateLimiter.pruneIdle_recent hbucket).1
    | check id rule created now =>
      have hnow : now = s.now := op_now hop
      subst hnow
      by_cases hid : key = id
      · subst hid
        cases (s.rateLimiter.check_fst key rule created s.now).symm.trans hbucket
        exact Nat.lt_of_le_of_lt pruned.past (Nat.lt_add_of_pos_right (by decide))
      · apply pruned.recent key bucket
        rw [← RateLimiter.check_of_ne hid s.rateLimiter rule created s.now]
        exact hbucket

omit [Crates] in
theorem Pruned.of_prune {read : Instant} (h : read ≤ s.now) :
    Pruned read ⟨s.server, s.rateLimiter.pruneIdle read⟩ where
  past := h
  recent _ _ hbucket := (RateLimiter.pruneIdle_recent hbucket).2

end Service

/-- **The limiter does not grow without limit.** Take any run in which the reaper prunes, with the
clock read at `read`. From then on there are never more buckets than requests have been charged
since ten minutes before, and each of them has been used since. -/
theorem buckets_le_requests [Crates] {config : ResolvedConfig} {before after : List Service.Event}
    {read : Instant} {s : Service}
    (h : Run.exec (Service.step config) (.new config) (before ++ .prune read :: after) = some s) :
    (∀ key bucket, s.rateLimiter.buckets key = some bucket → Recent read bucket.last) ∧
      ∀ keys : List String, keys.Nodup → (∀ key ∈ keys, s.rateLimiter.buckets key ≠ none) →
        keys.length ≤ Run.tally (Service.step config) (Service.charges config read) (.new config)
          (before ++ .prune read :: after) := by
  obtain ⟨u, hbefore, hrest⟩ := Run.exec_append.mp h
  obtain ⟨v, hprune, hafter⟩ := Run.exec_cons.mp hrest
  have hv : v.Pruned read := by
    cases Service.step_cases hprune with
    | prune hread => exact Service.Pruned.of_prune hread
  have pruned : s.Pruned read := Run.exec_invariant (I := Service.Pruned read)
    (fun _ _ _ hs hstep => hs.step hstep) hv hafter
  refine ⟨pruned.recent, ?_⟩
  intro keys hnodup hkeys
  have hall : keys.countP (s.keeps read) = keys.length := by
    apply List.countP_eq_length.mpr
    intro key hkey
    obtain ⟨bucket, hbucket⟩ := Option.ne_none_iff_exists'.mp (hkeys key hkey)
    exact (Option.any_eq_true _ _).mpr
      ⟨bucket, hbucket, decide_eq_true (pruned.recent key bucket hbucket)⟩
  have hnew : keys.countP ((Service.new config).keeps read) = 0 :=
    List.countP_eq_zero.mpr fun key _ hkey => Bool.noConfusion hkey
  have hbound := Run.exec_le_tally (f := fun s : Service => keys.countP (s.keeps read))
    (fun _ _ _ hstep => (Service.step_cases hstep).countP_keeps_le read hnodup) h
  rw [hall, hnew, Nat.zero_add] at hbound
  exact hbound

namespace Sample

/-- Two clients have tokens. -/
def pair : Environment := environment [("MONTY_API_TOKENS", "alice:secret:1,bob:hidden:1")]

/-- One calls, and the other a quarter of an hour later. -/
def passing : List Service.Event :=
  [compiling "secret", .inside (.tick 900000000000), compiling "hidden"]

end Sample

/-- The bucket of the first has been thrown away, and that of the second is paid for. -/
theorem buckets_le_requests_passing :
    ∃ (_ : Crates) (config : ResolvedConfig) (s : Service),
      ResolvedConfig.fromEnv Sample.pair = .ok config ∧
      Run.exec (Service.step config) (.new config) (Sample.passing ++ [.prune 900000000000]) =
        some s ∧
      s.rateLimiter.buckets "alice" = none ∧ s.rateLimiter.buckets "bob" ≠ none ∧
      Run.tally (Service.step config) (Service.charges config 900000000000) (.new config)
        (Sample.passing ++ [.prune 900000000000]) = 1 ∧
      ["bob"].length ≤ Run.tally (Service.step config) (Service.charges config 900000000000)
        (.new config) (Sample.passing ++ [.prune 900000000000]) := by
  let _ := Sample.crates
  obtain ⟨config, hconfig⟩ : ∃ config, ResolvedConfig.fromEnv Sample.pair = .ok config := ⟨_, rfl⟩
  have hgoes : (ResolvedConfig.fromEnv Sample.pair).toOption.any (fun c =>
      (Run.exec (Service.step c) (.new c) (Sample.passing ++ [.prune 900000000000])).any fun s =>
        (s.rateLimiter.buckets "alice").isNone ∧ (s.rateLimiter.buckets "bob").isSome ∧
          Run.tally (Service.step c) (Service.charges c 900000000000) (.new c)
            (Sample.passing ++ [.prune 900000000000]) = 1) = true := by
    decide +kernel
  rw [hconfig] at hgoes
  obtain ⟨_, hc, hgoes⟩ := (Option.any_eq_true _ _).mp hgoes
  cases hc
  obtain ⟨s, hrun, hs⟩ := (Option.any_eq_true _ _).mp hgoes
  obtain ⟨halice, hbob, htally⟩ := of_decide_eq_true hs
  have hpaid := (buckets_le_requests hrun).2 ["bob"] (by decide)
    (List.forall_mem_singleton.mpr (Option.ne_none_iff_isSome.mpr hbob))
  exact ⟨Sample.crates, config, s, hconfig, hrun, Option.isNone_iff_eq_none.mp halice,
    Option.ne_none_iff_isSome.mpr hbob, htally, hpaid⟩

end MontyServer
