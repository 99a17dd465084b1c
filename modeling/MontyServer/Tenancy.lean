import MontyServer.Auth
import MontyServer.Isolation
import MontyServer.RateLimit

/-!
# Tokens and tenants

The id of a caller is the name its token is configured under, and sessions and rates hang on the
id. So tokens are kept apart exactly by their names (`tokens_apart_iff`): two tokens of one name
are one tenant.
-/

namespace MontyServer

namespace RateLimiter

/-- The call is a check of `key`. -/
def Op.charges (key : String) : Op → Bool
  | .check k _ _ _ => k = key
  | .pruneIdle _ _ => false

/-- What a call answers. -/
def answer (l : RateLimiter) : Op → Except UInt64 Unit
  | .check key rule created now => (l.check key rule created now).2
  | .pruneIdle _ _ => .ok ()

/-- The answers to the checks of `key`, in their order. -/
def answers (key : String) (l : RateLimiter) : List Op → List (Except UInt64 Unit)
  | [] => []
  | op :: ops =>
    if op.charges key then l.answer op :: answers key (l.step op) ops
    else answers key (l.step op) ops

variable {l l' : RateLimiter} {key other : String}

/-- **Step lemma**: a check of another key leaves the bucket alone. -/
theorem step_of_charges {op : Op} (h : op.charges other = true) (hne : key ≠ other) :
    (l.step op).buckets key = l.buckets key := by
  cases op with
  | check k rule created now =>
    have hk : k = other := of_decide_eq_true h
    rw [hk]
    exact check_of_ne hne l rule created now
  | pruneIdle read now => cases h

/-- A check of a key is answered what its bucket says. -/
theorem answer_congr (h : l.buckets key = l'.buckets key) {op : Op} (hop : op.charges key = true) :
    l.answer op = l'.answer op := by
  cases op with
  | check k rule created now =>
    have hk : k = key := of_decide_eq_true hop
    subst hk
    simp only [answer, check, h]
    split <;> rfl
  | pruneIdle read now => cases hop

/-- **Run lemma**: the answers for a key are the same without the checks of another. -/
theorem answers_filter (hne : key ≠ other) (h : l.buckets key = l'.buckets key) (ops : List Op) :
    l.answers key ops = l'.answers key (ops.filter fun op => !op.charges other) := by
  induction ops generalizing l l' with
  | nil => rfl
  | cons op ops ih =>
    by_cases hother : op.charges other = true
    · have hkey : op.charges key = false := by
        cases op with
        | check k rule created now =>
          have hk : k = other := of_decide_eq_true hother
          exact decide_eq_false fun h => hne (h.symm.trans hk)
        | pruneIdle read now => rfl
      rw [answers, hkey, List.filter_cons_of_neg (by simp [hother])]
      exact ih ((step_of_charges hother hne).trans h)
    · rw [List.filter_cons_of_pos (by simpa using hother), answers, answers,
        ih (step_congr h op)]
      split
      · next hkey => rw [answer_congr h hkey]
      · rfl

end RateLimiter

/-! ## Two callers -/

/-- Nothing that a caller of id `other` does in any run, short of creating sessions of its own, has
to do with a session that belongs to `owner`: a lookup does not find it, a step goes as it would
without it and leaves it as it was. -/
def SessionsApart (owner other : String) : Prop :=
  ∀ (_ : Crates) (config : Config) (s : Server), s.Reachable config →
    ∀ id e, s.entry id = some e → e.principal = owner →
      s.app.sessions.get id other = none ∧
      ∀ i r m, s.requests[i]? = some r → r.caller = other →
        (∀ request phase, r.handler ≠ .create request phase) →
        (s.erase id).step (.move i m) = (s.step (.move i m)).map (·.erase id) ∧
        ∀ s', s.step (.move i m) = some s' →
          s'.entry id = some e ∧ (id ∈ s'.app.sessions.sessions ↔ id ∈ s.app.sessions.sessions) ∧
            s'.app.trail id = s.app.trail id

/-- The rate limiter answers `id` the same without the requests of `other`. -/
def RatesApart (id other : String) : Prop :=
  ∀ (l : RateLimiter) (ops : List RateLimiter.Op),
    l.answers id ops = l.answers id (ops.filter fun op => !op.charges other)

/-- Two callers that have nothing to do with each other. -/
structure CallersApart (caller other : Caller) : Prop where
  ids : caller.id ≠ other.id
  sessions : SessionsApart caller.id other.id
  rates : RatesApart caller.id other.id

theorem sessionsApart_of_ne {owner other : String} (h : owner ≠ other) :
    SessionsApart owner other := by
  rintro _ config s hs id e he rfl
  have hok : s.HandlersOk := hs.wf.handlers
  constructor
  · have howned : s.app.sessions.owned id other = false := by
      by_contra hyes
      obtain ⟨-, e', he', hp⟩ := SessionStore.owned_iff.mp (Bool.not_eq_false _ ▸ hyes)
      cases he.symm.trans he'
      exact h hp
    simp [SessionStore.get, howned]
  · intro i r m hr hother hcreate
    have hothers : s.ByOthers e.principal (.move i m) := by
      intro r' hr'
      cases hr.symm.trans hr'
      exact ⟨fun heq => h (heq.symm.trans hother), hcreate⟩
    exact ⟨Server.step_erase hok he hothers,
      fun s' hstep => (Server.step_cases hstep).leaves hok he hothers⟩

theorem callersApart_of_ne {caller other : Caller} (h : caller.id ≠ other.id) :
    CallersApart caller other where
  ids := h
  sessions := sessionsApart_of_ne h
  rates := fun _ ops => RateLimiter.answers_filter h rfl ops

/-! ## Two tokens -/

/-- A value that turns authentication on is not blank. -/
theorem trim_ne_of_loadAuth {raw : String} {defaultRate : RateRule} {tokens : TokenMap}
    (h : loadAuth (some raw) defaultRate = .ok (.Tokens tokens)) : Text.trim raw ≠ "" := by
  intro hblank
  have hunset : envStr (some raw) = none := by
    rw [envStr, Option.filter_some, if_neg (by simpa using hblank)]
  rw [loadAuth, hunset] at h
  cases h

/-- The map that `load_auth` returns is the one of the entries. -/
theorem tokens_eq_of_loadAuth {raw : String} {defaultRate : RateRule} {tokens : TokenMap}
    {entries : List (String × Principal)}
    (hload : loadAuth (some raw) defaultRate = .ok (.Tokens tokens))
    (hentries : (tokenEntries raw).mapM (tokenEntry defaultRate) = .ok entries) :
    tokens = tokensOf entries := by
  have hauth := hload.symm.trans (loadAuth_eq (trim_ne_of_loadAuth hload) defaultRate)
  rw [hentries] at hauth
  have hok : (.ok (.Tokens tokens) : Except ConfigError Auth) =
      .ok (if entries.isEmpty then .Disabled else .Tokens (tokensOf entries)) := hauth
  split at hok
  · cases hok
  · cases hok
    rfl

/-- **Tokens are kept apart exactly by their names.** Whatever value of `MONTY_API_TOKENS` is
accepted, the callers of two tokens of its map have different ids, no access to each other's
sessions and no influence on each other's rate if and only if the two are configured under
different names. -/
theorem tokens_apart_iff {raw : String} {defaultRate : RateRule} {tokens : TokenMap}
    {entries : List (String × Principal)}
    (hload : loadAuth (some raw) defaultRate = .ok (.Tokens tokens))
    (hentries : (tokenEntries raw).mapM (tokenEntry defaultRate) = .ok entries)
    {t₁ t₂ : String} {p₁ p₂ : Principal} (h₁ : lastEntry entries t₁ = some p₁)
    (h₂ : lastEntry entries t₂ = some p₂) {r₁ r₂ : HttpRequest}
    (hr₁ : bearerToken r₁ = some t₁) (hr₂ : bearerToken r₂ = some t₂) :
    (∃ c₁ c₂, authenticate (.Tokens tokens) defaultRate r₁ = .ok c₁ ∧
      authenticate (.Tokens tokens) defaultRate r₂ = .ok c₂ ∧
      CallersApart c₁ c₂ ∧ CallersApart c₂ c₁) ↔ p₁.name ≠ p₂.name := by
  rw [← get_tokensOf, ← tokens_eq_of_loadAuth hload hentries] at h₁ h₂
  have hc₁ : authenticate (.Tokens tokens) defaultRate r₁ = .ok ⟨p₁.name, p₁.rate⟩ :=
    authenticate_ok_iff.mpr ⟨t₁, p₁, hr₁, h₁, rfl⟩
  have hc₂ : authenticate (.Tokens tokens) defaultRate r₂ = .ok ⟨p₂.name, p₂.rate⟩ :=
    authenticate_ok_iff.mpr ⟨t₂, p₂, hr₂, h₂, rfl⟩
  constructor
  · rintro ⟨c₁, c₂, h₁, h₂, hapart, -⟩
    cases hc₁.symm.trans h₁
    cases hc₂.symm.trans h₂
    exact hapart.ids
  · intro hne
    exact ⟨_, _, hc₁, hc₂, callersApart_of_ne hne, callersApart_of_ne (Ne.symm hne)⟩

namespace Sample

/-- A request that bears a token. -/
def bearing (token : String) : HttpRequest :=
  ⟨[("authorization", utf8 ("Bearer ".toList ++ token.toList))], "10.0.0.1"⟩

end Sample

/-- Two tokens under two names. -/
theorem tokens_apart_iff_named :
    ∃ c₁ c₂, loadAuth (some "alice:t1,bob:t2") (.new 120) =
        .ok (.Tokens [("t2", ⟨"bob", .new 120⟩), ("t1", ⟨"alice", .new 120⟩)]) ∧
      authenticate (.Tokens [("t2", ⟨"bob", .new 120⟩), ("t1", ⟨"alice", .new 120⟩)]) (.new 120)
        (Sample.bearing "t1") = .ok c₁ ∧
      authenticate (.Tokens [("t2", ⟨"bob", .new 120⟩), ("t1", ⟨"alice", .new 120⟩)]) (.new 120)
        (Sample.bearing "t2") = .ok c₂ ∧
      CallersApart c₁ c₂ := by
  have hload : loadAuth (some "alice:t1,bob:t2") (.new 120) =
      .ok (.Tokens [("t2", ⟨"bob", .new 120⟩), ("t1", ⟨"alice", .new 120⟩)]) := by decide
  have hentries : (tokenEntries "alice:t1,bob:t2").mapM (tokenEntry (.new 120)) =
      .ok [("t1", ⟨"alice", .new 120⟩), ("t2", ⟨"bob", .new 120⟩)] := by decide
  have h₁ : lastEntry [("t1", ⟨"alice", .new 120⟩), ("t2", ⟨"bob", .new 120⟩)] "t1" =
      some ⟨"alice", .new 120⟩ := by decide
  have h₂ : lastEntry [("t1", ⟨"alice", .new 120⟩), ("t2", ⟨"bob", .new 120⟩)] "t2" =
      some ⟨"bob", .new 120⟩ := by decide
  have hr₁ : bearerToken (Sample.bearing "t1") = some "t1" := by decide
  have hr₂ : bearerToken (Sample.bearing "t2") = some "t2" := by decide
  obtain ⟨c₁, c₂, hc₁, hc₂, hapart, -⟩ :=
    (tokens_apart_iff hload hentries h₁ h₂ hr₁ hr₂).mpr (by decide)
  exact ⟨c₁, c₂, hload, hc₁, hc₂, hapart⟩

/-- Two tokens of one name have one id. -/
theorem tokens_not_apart :
    ¬ ∀ (raw : String) (defaultRate : RateRule) (tokens : TokenMap),
      loadAuth (some raw) defaultRate = .ok (.Tokens tokens) →
      ∀ (t₁ t₂ : String) (p₁ p₂ : Principal), t₁ ≠ t₂ → tokens.get t₁ = some p₁ →
        tokens.get t₂ = some p₂ → ∀ (r₁ r₂ : HttpRequest) (c₁ c₂ : Caller),
        bearerToken r₁ = some t₁ → bearerToken r₂ = some t₂ →
        authenticate (.Tokens tokens) defaultRate r₁ = .ok c₁ →
        authenticate (.Tokens tokens) defaultRate r₂ = .ok c₂ → CallersApart c₁ c₂ := by
  intro h
  have hapart := h "a:t1,a:t2" (.new 120) [("t2", ⟨"a", .new 120⟩), ("t1", ⟨"a", .new 120⟩)]
    (by decide) "t1" "t2" ⟨"a", .new 120⟩ ⟨"a", .new 120⟩ (by decide) (by decide) (by decide)
    (Sample.bearing "t1") (Sample.bearing "t2") ⟨"a", .new 120⟩ ⟨"a", .new 120⟩ (by decide)
    (by decide) (by decide) (by decide)
  exact hapart.ids rfl

end MontyServer
