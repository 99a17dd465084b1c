import MontyServer.Invariants

/-!
# Capacity

`SessionStore::create` tests the length of the map and inserts later, and nothing holds the place it
has seen. The store stays within `max_sessions` exactly if no insertion finds it full
(`capacity_kept_iff`), which is so when every create that passes the test leaves room for those
that passed it before and have not inserted yet.
-/

namespace MontyServer

variable [Crates]

omit [Crates] in
/-- Between the length check and the insertion. -/
def Handler.checked : Handler → Bool
  | .create _ (.checked ..) => true
  | _ => false

theorem Create.Quiet.not_checked {phase : Create} (h : phase.Quiet)
    (request : CreateSessionRequest) : (Handler.create request phase).checked = false := by
  cases phase with
  | checked => exact h.elim
  | _ => rfl

omit [Crates] in
theorem Create.not_checked {phase : Create}
    (h : ∀ ttl tracker step, phase ≠ .checked ttl tracker step) (request : CreateSessionRequest) :
    (Handler.create request phase).checked = false := by
  cases phase with
  | checked ttl tracker step => exact (h ttl tracker step rfl).elim
  | _ => rfl

namespace Server

omit [Crates] in
/-- How many creates are about to insert. -/
def pending (s : Server) : Nat := s.requests.countP fun r => r.handler.checked

omit [Crates] in
def WithinCapacity (s : Server) : Prop := s.app.sessions.len ≤ s.app.sessions.maxSessions

omit [Crates] in
/-- The step is a create inserting its session. -/
def Inserts (s : Server) (a : Action) : Prop :=
  ∃ i id r, a = .move i (.insert id) ∧ s.requests[i]? = some r ∧ r.handler.checked = true

omit [Crates] in
/-- The step is a create passing the length check. -/
def Passes (s : Server) (a : Action) : Prop :=
  ∃ (i : RequestId) (caller : String) (request : CreateSessionRequest) (ttl : Duration)
    (limits : ResolvedLimits) (tracker : StatsTracker) (step : SessionStep),
    a = .move i .advance ∧ s.app.sessions.hasRoom = true ∧
    s.requests[i]? = some ⟨caller, .create request
      (.executing ttl limits (.finished (some (.Started tracker step))))⟩

variable {s s' : Server} {a : Action}

omit [Crates] in
/-- A move changes the count by what its request becomes. -/
theorem advanced_pending {app : AppState} {i : RequestId} {r r₀ : Request}
    (hr : s.requests[i]? = some r₀) :
    (s.advanced app i r).pending + (if r₀.handler.checked then 1 else 0) =
      s.pending + (if r.handler.checked then 1 else 0) := by
  obtain ⟨hi, rfl⟩ := List.getElem?_eq_some_iff.mp hr
  have hset := List.countP_set (p := fun r => r.handler.checked) (a := r) hi
  simp only [pending, advanced, hset]
  split
  · next hchecked =>
    have hpos : 0 < s.requests.countP fun r => r.handler.checked :=
      List.countP_pos_iff.mpr ⟨_, List.getElem_mem hi, hchecked⟩
    omega
  · omega

omit [Crates] in
theorem advanced_pending_of_not_checked {app : AppState} {i : RequestId} {r r₀ : Request}
    (hr : s.requests[i]? = some r₀) (h₀ : r₀.handler.checked = false)
    (h : r.handler.checked = false) : (s.advanced app i r).pending = s.pending := by
  simpa [h₀, h] using @advanced_pending s app i r r₀ hr

/-- What a step does to the store's length and to the creates about to insert. -/
inductive Occupies (s : Server) (a : Action) (s' : Server) : Prop
  | leave : ¬ s.Inserts a → s'.app.sessions.len ≤ s.app.sessions.len → s'.pending = s.pending →
    Occupies s a s'
  | check : ¬ s.Inserts a → s.Passes a → s'.app.sessions.len = s.app.sessions.len →
    s'.pending = s.pending + 1 → Occupies s a s'
  | insert : s.Inserts a → s'.app.sessions.len = s.app.sessions.len + 1 →
    s'.pending + 1 = s.pending → Occupies s a s'

omit [Crates] in
theorem not_inserts {i : RequestId} {m : Move} {r : Request} (hr : s.requests[i]? = some r)
    (h : r.handler.checked = false) : ¬ s.Inserts (.move i m) := by
  rintro ⟨j, id, r', ha, hr', hchecked⟩
  cases ha
  cases hr.symm.trans hr'
  cases h.symm.trans hchecked

omit [Crates] in
theorem not_inserts_of_ne (h : ∀ i m, a ≠ .move i m) : ¬ s.Inserts a := by
  rintro ⟨i, id, r, ha, -⟩
  exact h i _ ha

omit [Crates] in
/-- A request that was not about to insert, and is not now, takes no place. -/
theorem occupies_leave {app : AppState} {i : RequestId} {m : Move} {r r₀ : Request}
    (hr : s.requests[i]? = some r₀) (h₀ : r₀.handler.checked = false)
    (h : r.handler.checked = false) (hlen : app.sessions.len ≤ s.app.sessions.len) :
    s.Occupies (.move i m) (s.advanced app i r) :=
  .leave (not_inserts hr h₀) hlen (advanced_pending_of_not_checked hr h₀ h)

omit [Crates] in
theorem removeKey_len (store : SessionStore) (id : Uuid) :
    (store.removeKey id).len ≤ store.len :=
  List.length_filter_le _ _

theorem Trans.occupies (h : s.Trans a s') : s.Occupies a s' := by
  cases h with
  | tick => exact .leave (not_inserts_of_ne nofun) (Nat.le_refl _) rfl
  | @arrive caller call =>
    refine .leave (not_inserts_of_ne nofun) (Nat.le_refl _) ?_
    cases call <;> simp [pending, Call.handler, Handler.checked]
  | @create i m caller request phase phase' app hr h =>
    cases h with
    | quiet free hnot hquiet _ =>
      exact occupies_leave hr (Create.not_checked hnot request) (hquiet.not_checked request)
        (Nat.le_refl _)
    | check hroom =>
      refine .check (not_inserts hr rfl) ⟨i, caller, request, _, _, _, _, rfl, hroom, hr⟩ rfl ?_
      exact advanced_pending hr
    | insert _ => exact .insert ⟨i, _, _, rfl, hr, rfl⟩ rfl (advanced_pending hr)
    | fetch _ => exact occupies_leave hr rfl rfl (Nat.le_refl _)
  | @resume i m caller id body phase phase' app hr h =>
    have hlen : app.sessions.len ≤ s.app.sessions.len := by
      cases h <;> simp [SessionStore.len]
    exact occupies_leave hr rfl rfl hlen
  | status hr _ => exact occupies_leave hr rfl rfl (Nat.le_refl _)
  | delete hr h =>
    cases h with
    | remove => exact occupies_leave hr rfl rfl (removeKey_len ..)
    | _ => exact occupies_leave hr rfl rfl (Nat.le_refl _)
  | @stateless i m caller handler handler' free hr h h' =>
    have hnot : ∀ {h : Handler}, h.IsStateless → h.checked = false := fun {h} hst => by
      cases h <;> first | rfl | exact hst.elim
    exact occupies_leave hr (hnot h) (hnot h') (Nat.le_refl _)
  | collect _ => exact .leave (not_inserts_of_ne nofun) (Nat.le_refl _) rfl
  | evict _ => exact .leave (not_inserts_of_ne nofun) (removeKey_len ..) rfl

/-- The capacity is fixed. -/
theorem Trans.maxSessions_eq (h : s.Trans a s') :
    s'.app.sessions.maxSessions = s.app.sessions.maxSessions := by
  cases h with
  | create _ h => cases h <;> rfl
  | resume _ h => cases h <;> simp [advanced]
  | delete _ h => cases h <;> rfl
  | _ => rfl

/-- **Step lemma**: a step within capacity stays there exactly if it does not insert into a full
store. -/
theorem Trans.withinCapacity_iff (h : s.Trans a s') (hwithin : s.WithinCapacity) :
    s'.WithinCapacity ↔ (s.Inserts a → s.app.sessions.hasRoom = true) := by
  have hmax := h.maxSessions_eq
  simp only [WithinCapacity, hmax, SessionStore.hasRoom, decide_eq_true_eq] at hwithin ⊢
  -- only an insertion can pass the bound, and it does so by one
  cases h.occupies with
  | leave hnot hlen _ => exact iff_of_true (Nat.le_trans hlen hwithin) fun h => (hnot h).elim
  | check hnot _ hlen _ => exact iff_of_true (hlen ▸ hwithin) fun h => (hnot h).elim
  | insert hinserts hlen _ =>
    rw [hlen]
    exact ⟨fun hle _ => hle, fun hroom => hroom hinserts⟩

omit [Crates] in
/-- There is room for everything stored and for every create about to insert. -/
def Reserved (s : Server) : Prop :=
  s.app.sessions.len + s.pending ≤ s.app.sessions.maxSessions

theorem Reserved.step (hreserved : s.Reserved) (h : s.Trans a s')
    (hpasses : s.Passes a → s.app.sessions.len + s.pending < s.app.sessions.maxSessions) :
    s'.Reserved := by
  unfold Reserved at *
  rw [h.maxSessions_eq]
  cases h.occupies with
  | leave _ hlen hpending => omega
  | check _ hp hlen hpending =>
    have := hpasses hp
    omega
  | insert _ hlen hpending => omega

omit [Crates] in
theorem Reserved.within (hreserved : s.Reserved) : s.WithinCapacity :=
  Nat.le_trans (Nat.le_add_right ..) hreserved

end Server

/-- **Capacity**: a run stays within `max_sessions` exactly if no create inserts into a full store.
It does so if every create that passes the length check finds room for itself and for those that
passed it before and are about to insert. -/
theorem capacity_kept_iff (config : Config) (as : List Action) :
    (Run.Throughout Server.step Server.WithinCapacity (.new config) as ↔
      Run.EveryStep Server.step (fun s a => s.Inserts a → s.app.sessions.hasRoom = true)
        (.new config) as) ∧
    (Run.EveryStep Server.step (fun s a => s.Passes a →
        s.app.sessions.len + s.pending < s.app.sessions.maxSessions) (.new config) as →
      Run.Throughout Server.step Server.WithinCapacity (.new config) as) := by
  have hnew : (Server.new config).WithinCapacity := Nat.zero_le _
  constructor
  · exact Run.throughout_iff_everyStep (I := fun _ => True) (fun _ _ _ _ _ => trivial)
      (fun _ _ _ _ hwithin hstep => (Server.step_cases hstep).withinCapacity_iff hwithin)
      trivial hnew
  · exact Run.throughout_of_everyStep (I := Server.Reserved)
      (fun _ _ _ hreserved hpasses hstep => hreserved.step (Server.step_cases hstep) hpasses)
      (fun _ hreserved => hreserved.within) (Nat.zero_le _)

section Samples

omit [Crates]

/-- Room for one session. -/
def Sample.single : Config := ⟨bounds, ⟨60000000000, 60000000000, 1⟩, 4⟩

/-- Request `i` asks for a session and passes the length check, or is turned away there. -/
def Sample.checking (i : RequestId) : List Action :=
  [.arrive "owner" (.create { source := { code := some "try: x\nexcept NameError: y" } }),
    .move i .advance] ++ executed i ++ [.move i .advance]

/-- Two creates pass the length check of a store for one session, and both insert. -/
def Sample.overshooting : List Action :=
  checking 0 ++ checking 1 ++ [.move 0 (.insert 7), .move 1 (.insert 8)]

/-- Two creates pass the length check before either inserts. -/
theorem capacity_exceeded :
    ¬ ∀ (_ : Crates) (config : Config) (as : List Action),
      Run.Throughout Server.step Server.WithinCapacity (.new config) as := by
  intro h
  let _ := Sample.crates
  have hrun : (Run.exec Server.step (.new Sample.single) Sample.overshooting).any
      (fun s => s.app.sessions.maxSessions < s.app.sessions.len) = true := by decide
  obtain ⟨s, hs, hover⟩ := Option.any_eq_true _ _ |>.mp hrun
  have hwithin : s.WithinCapacity := (h Sample.crates Sample.single _).last hs
  exact absurd hwithin (Nat.not_le.mpr (of_decide_eq_true hover))

end Samples

/-! ## How far over -/

namespace Server

omit [Crates] in
/-- With at most `k` creates about to insert at once, the store is at most `k - 1` sessions over its
capacity, those about to be inserted included. -/
def Overshot (k : Nat) (s : Server) : Prop :=
  s.app.sessions.len + s.pending ≤ s.app.sessions.maxSessions + (k - 1)

/-- **Step lemma**: the last create to pass the length check has seen a place that is free. -/
theorem Overshot.step {k : Nat} {s s' : Server} {a : Action} (hover : s.Overshot k)
    (hpending : s'.pending ≤ k) (h : s.step a = some s') : s'.Overshot k := by
  have htrans := step_cases h
  unfold Overshot at hover ⊢
  rw [htrans.maxSessions_eq]
  cases htrans.occupies with
  | leave _ hlen hsame => omega
  | check _ hpasses hlen hmore =>
    obtain ⟨i, caller, request, ttl, limits, tracker, step, -, hroom, -⟩ := hpasses
    simp only [SessionStore.hasRoom, decide_eq_true_eq] at hroom
    omega
  | insert _ hlen hless => omega

end Server

section Samples

omit [Crates]

end Samples

end MontyServer
