import MontyServer.Transitions

/-!
# What the handlers keep

How an updated state reads, and the two facts every later invariant rests on: entries, owners and
histories are never taken back (`AppState.Grows`), and what a handler has found stays true for as
long as it relies on it (`Server.HandlersOk`).
-/

namespace MontyServer

/-! ## Reading an updated state -/

section Simp

variable (app : AppState) (id j : Uuid) (e : SessionEntry)

@[simp] theorem AppState.setEntry_entries :
    (app.setEntry id e).sessions.entries j = if j = id then some e else app.sessions.entries j :=
  rfl

theorem AppState.setEntry_self : (app.setEntry id e).sessions.entries id = some e := if_pos rfl

@[simp] theorem AppState.setEntry_keys :
    (app.setEntry id e).sessions.sessions = app.sessions.sessions := rfl

@[simp] theorem AppState.setEntry_maxSessions :
    (app.setEntry id e).sessions.maxSessions = app.sessions.maxSessions := rfl

@[simp] theorem AppState.setEntry_trail : (app.setEntry id e).trail = app.trail := rfl

@[simp] theorem AppState.setEntry_applied : (app.setEntry id e).applied = app.applied := rfl

@[simp] theorem AppState.setEntry_now : (app.setEntry id e).now = app.now := rfl

@[simp] theorem AppState.setConcurrency_sessions (free : Nat) :
    (app.setConcurrency free).sessions = app.sessions := rfl

@[simp] theorem AppState.setConcurrency_trail (free : Nat) :
    (app.setConcurrency free).trail = app.trail := rfl

@[simp] theorem AppState.setConcurrency_applied (free : Nat) :
    (app.setConcurrency free).applied = app.applied := rfl

@[simp] theorem AppState.setConcurrency_now (free : Nat) :
    (app.setConcurrency free).now = app.now := rfl

@[simp] theorem AppState.extend_sessions (link : Link) :
    (app.extend id link).sessions = app.sessions := rfl

@[simp] theorem AppState.extend_trail (link : Link) :
    (app.extend id link).trail j = if j = id then link :: app.trail j else app.trail j := rfl

@[simp] theorem AppState.extend_applied (link : Link) :
    (app.extend id link).applied = app.applied := rfl

@[simp] theorem AppState.extend_now (link : Link) : (app.extend id link).now = app.now := rfl

@[simp] theorem AppState.apply_sessions (token : Token) (input : ResumeInput) :
    (app.apply id token input).sessions = app.sessions := by
  unfold AppState.apply
  split <;> rfl

@[simp] theorem AppState.apply_trail (token : Token) (input : ResumeInput) :
    (app.apply id token input).trail = app.trail := by
  unfold AppState.apply
  split <;> rfl

@[simp] theorem AppState.apply_now (token : Token) (input : ResumeInput) :
    (app.apply id token input).now = app.now := by
  unfold AppState.apply
  split <;> rfl

theorem AppState.apply_applied_error (token : Token) {input : ResumeInput} {err : ResumeMismatch}
    (h : checkResume token.1 input = .error err) :
    (app.apply id token input).applied = app.applied := by
  simp [AppState.apply, h]

theorem AppState.apply_applied_ok (token : Token) {input : ResumeInput}
    (h : checkResume token.1 input = .ok ()) :
    (app.apply id token input).applied j =
      if j = id then ((app.trail j).length, token) :: app.applied j else app.applied j := by
  simp [AppState.apply, h]

@[simp] theorem AppState.insert_entries :
    (app.insert id e).sessions.entries j = if j = id then some e else app.sessions.entries j :=
  rfl

@[simp] theorem AppState.insert_trail : (app.insert id e).trail = app.trail := rfl

@[simp] theorem AppState.insert_applied : (app.insert id e).applied = app.applied := rfl

@[simp] theorem AppState.insert_now : (app.insert id e).now = app.now := rfl

@[simp] theorem SessionStore.removeKey_entries (s : SessionStore) :
    (s.removeKey id).entries = s.entries := rfl

end Simp

/-- What the map and an entry say of an owner. -/
theorem SessionStore.owned_iff {s : SessionStore} {id : Uuid} {caller : String} :
    s.owned id caller = true ↔
      id ∈ s.sessions ∧ ∃ e, s.entries id = some e ∧ e.principal = caller := by
  simp [SessionStore.owned, Option.any_eq_true]

namespace Server

variable {s s' : Server} {a : Action}

@[simp] theorem advanced_app (app : AppState) (i : RequestId) (r : Request) :
    (s.advanced app i r).app = app := rfl

@[simp] theorem advanced_expired (app : AppState) (i : RequestId) (r : Request) :
    (s.advanced app i r).expired = s.expired := rfl

theorem advanced_request {app : AppState} {i j : RequestId} {r r₀ r' : Request}
    (hr : s.requests[i]? = some r₀) :
    (s.advanced app i r).requests[j]? = some r' ↔
      (j = i ∧ r' = r) ∨ (j ≠ i ∧ s.requests[j]? = some r') := by
  have hi : i < s.requests.length := (List.getElem?_eq_some_iff.mp hr).1
  by_cases hj : j = i
  · subst hj
    simp [advanced, hi, eq_comm]
  · simp [advanced, hj, Ne.symm hj]

theorem arrived_request {caller : String} {call : Call} {j : Nat} {r' : Request} :
    (s.requests ++ [⟨caller, call.handler⟩])[j]? = some r' ↔
      s.requests[j]? = some r' ∨ (j = s.requests.length ∧ r' = ⟨caller, call.handler⟩) := by
  rw [List.getElem?_append]
  split
  · next hj =>
    refine ⟨.inl, fun h => h.resolve_right ?_⟩
    intro h'
    omega
  · next hj =>
    have hnone : s.requests[j]? = none := List.getElem?_eq_none (by omega)
    rw [hnone]
    by_cases hlast : j = s.requests.length
    · simp [hlast, eq_comm]
    · have : j - s.requests.length ≠ 0 := by omega
      simp [hlast, this]

section Before

variable [Crates] {i : RequestId}

/-- **Step lemma**: where a request was before a step. It has not moved, it has just arrived, or it
has taken one step of its handler. -/
theorem request_before {r' : Request} (h : s.step a = some s') (hr' : s'.requests[i]? = some r') :
    s.requests[i]? = some r' ∨ (∃ caller call, r' = ⟨caller, Call.handler call⟩) ∨
      ∃ m r, a = .move i m ∧ s.requests[i]? = some r ∧ r'.caller = r.caller ∧
        r.handler.step s.app i r.caller m = some (s'.app, r'.handler) := by
  cases a with
  | tick d =>
    cases h
    exact .inl hr'
  | arrive caller call =>
    cases h
    rcases arrived_request.mp hr' with hr | ⟨-, rfl⟩
    · exact .inl hr
    · exact .inr (.inl ⟨caller, call, rfl⟩)
  | move j m =>
    obtain ⟨r, hr, h⟩ := Option.bind_eq_some_iff.mp h
    obtain ⟨⟨app, handler⟩, hstep, h⟩ := Option.bind_eq_some_iff.mp h
    cases h
    rcases (advanced_request hr).mp hr' with ⟨rfl, rfl⟩ | ⟨-, hsame⟩
    · exact .inr (.inr ⟨m, r, rfl, hr, rfl, hstep⟩)
    · exact .inl hsame
  | collect =>
    rw [step] at h
    split at h <;> cases h
    exact .inl hr'
  | evict =>
    rw [step] at h
    split at h <;> cases h
    exact .inl hr'

/-- Where a create was before a step. -/
theorem create_before {caller : String} {request : CreateSessionRequest} {phase : Create}
    (h : s.step a = some s')
    (hr' : s'.requests[i]? = some ⟨caller, .create request phase⟩) :
    s.requests[i]? = some ⟨caller, .create request phase⟩ ∨ phase = .received ∨
      ∃ m before, a = .move i m ∧ s.requests[i]? = some ⟨caller, .create request before⟩ ∧
        before.step s.app i caller request m = some (s'.app, phase) := by
  rcases request_before h hr' with hr | ⟨caller', call, heq⟩ | ⟨m, ⟨_, handler⟩, ha, hr, rfl, hstep⟩
  · exact .inl hr
  · cases call <;> cases heq
    exact .inr (.inl rfl)
  · cases handler with
    | create request' before =>
      obtain ⟨⟨app, phase'⟩, hphase, hstep⟩ := Option.bind_eq_some_iff.mp hstep
      cases hstep
      exact .inr (.inr ⟨m, before, ha, hr, hphase⟩)
    | _ =>
      obtain ⟨_, -, hstep⟩ := Option.bind_eq_some_iff.mp hstep
      injection hstep with hpair
      injection hpair with _ hhandler
      cases hhandler

end Before

end Server

/-! ## Entries stay, owners stay -/

/-- From `app` to `app'` entries, owners and histories are kept, and time does not go back. -/
structure AppState.Grows (app app' : AppState) : Prop where
  entry : ∀ id e, app.sessions.entries id = some e →
    ∃ e', app'.sessions.entries id = some e' ∧ e'.principal = e.principal ∧ e'.ttl = e.ttl
  trail : ∀ id, app.trail id <:+ app'.trail id
  now : app.now ≤ app'.now

namespace AppState.Grows

theorem of_eq {app app' : AppState} (hsessions : app'.sessions.entries = app.sessions.entries)
    (htrail : app'.trail = app.trail) (hnow : app.now ≤ app'.now) : app.Grows app' where
  entry id e he := ⟨e, by rw [hsessions]; exact he, rfl, rfl⟩
  trail id := htrail ▸ List.suffix_refl _
  now := hnow

/-- An entry is replaced by one of the same owner. -/
theorem of_setEntry {app app' : AppState} {id : Uuid} {e : SessionEntry} (e' : SessionEntry)
    (he : app.sessions.entries id = some e)
    (hentries : ∀ j, app'.sessions.entries j = if j = id then some e' else app.sessions.entries j)
    (hp : e'.principal = e.principal) (httl : e'.ttl = e.ttl)
    (htrail : ∀ j, app.trail j <:+ app'.trail j) (hnow : app.now ≤ app'.now) :
    app.Grows app' where
  entry j f hf := by
    rw [hentries]
    split
    · next hj =>
      subst hj
      cases he.symm.trans hf
      exact ⟨e', rfl, hp, httl⟩
    · exact ⟨f, hf, rfl, rfl⟩
  trail := htrail
  now := hnow

end AppState.Grows

section Growth

variable [Crates]

theorem Create.Trans.grows {app app' : AppState} {i : RequestId} {caller : String} {m : Move}
    {phase phase' : Create} (h : Create.Trans app i caller phase m app' phase') :
    app.Grows app' := by
  cases h with
  | quiet _ _ _ _ => exact .of_eq rfl rfl (Nat.le_refl _)
  | check _ => exact .of_eq rfl rfl (Nat.le_refl _)
  | fetch _ => exact .of_eq rfl rfl (Nat.le_refl _)
  | @insert ttl tracker step id hnone =>
    refine ⟨fun j e he => ⟨e, ?_, rfl, rfl⟩, fun j => ?_, Nat.le_refl _⟩
    · have hj : j ≠ id := by
        rintro rfl
        cases hnone.symm.trans he
      simpa [hj] using he
    · rw [AppState.extend_trail]
      split
      · exact List.suffix_cons ..
      · exact List.suffix_refl _

theorem Resume.Trans.grows {app app' : AppState} {i : RequestId} {caller : String} {id : Uuid}
    {body : Value} {m : Move} {phase phase' : Resume}
    (h : Resume.Trans app i caller id body phase m app' phase') : app.Grows app' := by
  cases h with
  | turnAway _ => exact .of_eq rfl rfl (Nat.le_refl _)
  | lookup _ _ => exact .of_eq rfl rfl (Nat.le_refl _)
  | refuse _ _ => exact .of_eq rfl rfl (Nat.le_refl _)
  | spawn _ => exact .of_eq rfl rfl (Nat.le_refl _)
  | fail => exact .of_eq rfl rfl (Nat.le_refl _)
  | answer _ => exact .of_eq rfl rfl (Nat.le_refl _)
  | take he _ _ =>
    exact .of_setEntry _ he (fun _ => rfl) rfl rfl (fun _ => List.suffix_refl _) (Nat.le_refl _)
  | restore he =>
    exact .of_setEntry _ he (fun _ => rfl) rfl rfl (fun _ => List.suffix_refl _) (Nat.le_refl _)
  | @ran input e p since entered lag awaited result w he _ =>
    exact .of_setEntry { e with tracker := w.tracker } he (by simp) rfl rfl (by simp) (by simp)
  | store he =>
    refine .of_setEntry _ he (fun _ => rfl) rfl rfl ?_ (Nat.le_refl _)
    intro j
    rw [AppState.extend_trail]
    split
    · exact List.suffix_cons ..
    · exact List.suffix_refl _

theorem Server.Trans.grows {s s' : Server} {a : Action} (h : s.Trans a s') :
    s.app.Grows s'.app := by
  cases h with
  | tick => exact .of_eq rfl rfl (Nat.le_add_right ..)
  | arrive => exact .of_eq rfl rfl (Nat.le_refl _)
  | create _ h => exact h.grows
  | resume _ h => exact h.grows
  | status _ _ => exact .of_eq rfl rfl (Nat.le_refl _)
  | delete _ h => cases h <;> exact .of_eq rfl rfl (Nat.le_refl _)
  | stateless _ _ _ => exact .of_eq rfl rfl (Nat.le_refl _)
  | collect _ => exact .of_eq rfl rfl (Nat.le_refl _)
  | evict _ => exact .of_eq rfl rfl (Nat.le_refl _)

end Growth

/-! ## What every handler keeps -/

section Handlers

variable [Crates]

omit [Crates] in
/-- `id` has an entry, and it is `caller`'s. -/
def AppState.Owns (app : AppState) (caller : String) (id : Uuid) : Prop :=
  ∃ e, app.sessions.entries id = some e ∧ e.principal = caller

omit [Crates] in
theorem AppState.Grows.owns {app app' : AppState} {caller : String} {id : Uuid}
    (h : app.Grows app') (howns : app.Owns caller id) : app'.Owns caller id := by
  obtain ⟨e, he, rfl⟩ := howns
  obtain ⟨e', he', hp, -⟩ := h.entry id e he
  exact ⟨e', he', hp⟩

omit [Crates] in
theorem AppState.owns_of_owned {app : AppState} {caller : String} {id : Uuid}
    (h : app.sessions.owned id caller = true) : app.Owns caller id :=
  (SessionStore.owned_iff.mp h).2

/-- What a handler has found holds as long as it relies on it: a pointer leads to an entry of the
caller, an input comes from the body, and what is about to be inserted comes from a start. -/
def Handler.Ok (app : AppState) (caller : String) : Handler → Prop
  | .create _ (.checked _ tracker step) => FromStart tracker step
  | .create _ (.inserted id) | .create _ (.fetched id) => app.Owns caller id
  | .create _ phase => phase.Quiet
  | .resume id body (.found input) | .resume id body (.executing input _) =>
    resumeInput body = some (.ok input) ∧ app.Owns caller id
  | .resume id _ .stored => app.Owns caller id
  | .status id .found => app.Owns caller id
  | .delete id .owned => app.Owns caller id
  | _ => True

theorem Handler.Ok.grows {app app' : AppState} {caller : String} {h : Handler}
    (hok : h.Ok app caller) (hgrows : app.Grows app') : h.Ok app' caller := by
  unfold Handler.Ok at hok ⊢
  split
  · exact hok
  · exact hgrows.owns hok
  · exact hgrows.owns hok
  · simp_all
  · exact ⟨hok.1, hgrows.owns hok.2⟩
  · exact ⟨hok.1, hgrows.owns hok.2⟩
  · exact hgrows.owns hok
  · exact hgrows.owns hok
  · exact hgrows.owns hok
  · trivial

theorem Handler.ok_of_quiet {app : AppState} {caller : String} {request : CreateSessionRequest}
    {phase : Create} (h : phase.Quiet) : (Handler.create request phase).Ok app caller := by
  cases phase with
  | checked => exact h.elim
  | inserted => exact h.elim
  | fetched => exact h.elim
  | _ => exact h

theorem Handler.ok_of_turnedAway {app : AppState} {caller : String} {id : Uuid} {body : Value}
    {phase : Resume} (h : phase.TurnedAway) : (Handler.resume id body phase).Ok app caller := by
  cases phase with
  | found => exact h.elim
  | executing => exact h.elim
  | stored => exact h.elim
  | _ => trivial

namespace Server

/-- Every handler of the server is in order. -/
def HandlersOk (s : Server) : Prop :=
  ∀ (i : RequestId) (r : Request), s.requests[i]? = some r → r.handler.Ok s.app r.caller

theorem HandlersOk.advanced {s : Server} {app : AppState} {i : RequestId} {r r₀ : Request}
    (hok : s.HandlersOk) (hr : s.requests[i]? = some r₀) (hgrows : s.app.Grows app)
    (h : r.handler.Ok app r.caller) : (s.advanced app i r).HandlersOk := by
  intro j r' hr'
  rcases (advanced_request hr).mp hr' with ⟨-, rfl⟩ | ⟨-, hr'⟩
  · exact h
  · exact (hok j r' hr').grows hgrows

theorem Trans.handlersOk {s s' : Server} {a : Action} (h : s.Trans a s') (hok : s.HandlersOk) :
    s'.HandlersOk := by
  have hgrows := h.grows
  cases h with
  | tick => exact fun i r hr => (hok i r hr).grows hgrows
  | arrive =>
    intro i r hr
    rcases arrived_request.mp hr with hr | ⟨-, rfl⟩
    · exact hok i r hr
    · rename_i call
      cases call <;> trivial
  | create hr h =>
    refine hok.advanced hr hgrows ?_
    cases h with
    | quiet _ _ hquiet _ => exact Handler.ok_of_quiet hquiet
    | check _ =>
      have hstart := hok _ _ hr
      exact hstart
    | @insert ttl tracker step id _ =>
      exact ⟨.new _ ttl tracker step s.app.now, by simp, rfl⟩
    | fetch howned => exact AppState.owns_of_owned howned
  | resume hr h =>
    have hr' := hok _ _ hr
    refine hok.advanced hr hgrows ?_
    cases h with
    | turnAway hturned => exact Handler.ok_of_turnedAway hturned
    | lookup hinput howned => exact ⟨hinput, AppState.owns_of_owned howned⟩
    | refuse _ _ => trivial
    | take _ _ _ => exact ⟨hr'.1, hgrows.owns hr'.2⟩
    | spawn _ => exact hr'
    | ran _ _ => exact ⟨hr'.1, hgrows.owns hr'.2⟩
    | fail => trivial
    | store _ => exact hgrows.owns hr'.2
    | restore _ => trivial
    | answer _ => trivial
  | status hr h =>
    refine hok.advanced hr hgrows ?_
    cases h with
    | lookup howned => exact AppState.owns_of_owned howned
    | _ => trivial
  | delete hr h =>
    refine hok.advanced hr hgrows ?_
    cases h with
    | lookup howned => exact AppState.owns_of_owned howned
    | _ => trivial
  | @stateless i m caller handler handler' free hr _ hstateless =>
    refine hok.advanced hr hgrows ?_
    cases handler' <;> trivial
  | collect _ => exact fun i r hr => hok i r hr
  | evict _ => exact fun i r hr => (hok i r hr).grows hgrows

end Server

end Handlers

end MontyServer
