import MontyServer.WellFormed

/-!
# Other callers' sessions

A request names a session by its id, and every handler asks the store for it together with the
caller, so that a session of someone else reads like one that is not there. `Server.erase` is the
server without a session; what other callers do commutes with it, response by response, and leaves
the session alone (`sessions_isolated`).
-/

namespace MontyServer

/-! ## The server without a session -/

/-- The store had `id` never been in it. -/
def SessionStore.erase (s : SessionStore) (id : Uuid) : SessionStore :=
  { s with
    sessions := s.sessions.filter (· ≠ id)
    entries := fun i => if i = id then none else s.entries i }

def AppState.erase (app : AppState) (id : Uuid) : AppState :=
  { app with
    sessions := app.sessions.erase id
    trail := fun i => if i = id then [] else app.trail i
    applied := fun i => if i = id then [] else app.applied i }

/-- What a handler leaves, without `id`. -/
def erased {P : Type} (id : Uuid) (r : AppState × P) : AppState × P := (r.1.erase id, r.2)

def Server.erase (s : Server) (id : Uuid) : Server :=
  { s with app := s.app.erase id, expired := s.expired.filter (· ≠ id) }

section Erase

variable {app : AppState} {id j : Uuid} {caller : String} {e : SessionEntry}

@[simp] theorem AppState.erase_now : (app.erase id).now = app.now := rfl

theorem AppState.erase_entries (hj : j ≠ id) :
    (app.erase id).sessions.entries j = app.sessions.entries j := if_neg hj

/-- A caller who does not own `id` is told the same of every session. -/
theorem AppState.erase_owned (he : app.sessions.entries id = some e)
    (hcaller : caller ≠ e.principal) (j : Uuid) :
    (app.erase id).sessions.owned j caller = app.sessions.owned j caller := by
  by_cases hj : j = id
  · subst hj
    simp [SessionStore.owned, erase, SessionStore.erase, he, Ne.symm hcaller]
  · simp [SessionStore.owned, erase, SessionStore.erase, hj]

theorem AppState.erase_get (he : app.sessions.entries id = some e) (hcaller : caller ≠ e.principal)
    (j : Uuid) : (app.erase id).sessions.get j caller = app.sessions.get j caller := by
  rw [SessionStore.get, SessionStore.get, erase_owned he hcaller]

theorem AppState.Owns.ne (howns : app.Owns caller j) (he : app.sessions.entries id = some e)
    (hcaller : caller ≠ e.principal) : j ≠ id := by
  rintro rfl
  obtain ⟨e', he', hprincipal⟩ := howns
  cases he.symm.trans he'
  exact hcaller hprincipal.symm

/-! What is written to another session is written to the rest. -/

theorem AppState.erase_setEntry (hj : j ≠ id) (e' : SessionEntry) :
    (app.erase id).setEntry j e' = (app.setEntry j e').erase id := by
  simp only [setEntry, erase, SessionStore.erase, SessionStore.setEntry, AppState.mk.injEq,
    SessionStore.mk.injEq, and_self, and_true, true_and]
  funext i
  by_cases hi : i = j
  · simp [hi, hj]
  · simp [hi]

theorem AppState.erase_extend (hj : j ≠ id) (link : Link) :
    (app.erase id).extend j link = (app.extend j link).erase id := by
  simp only [extend, erase, AppState.mk.injEq, and_true, true_and]
  funext i
  by_cases hi : i = j
  · simp [hi, hj]
  · simp [hi]

theorem AppState.erase_apply (hj : j ≠ id) (token : Token) (input : ResumeInput) :
    (app.erase id).apply j token input = (app.apply j token input).erase id := by
  unfold AppState.apply
  split
  · rfl
  · simp only [erase, AppState.mk.injEq, true_and]
    funext i
    by_cases hi : i = j
    · simp [hi, hj]
    · simp [hi]

theorem AppState.erase_removeKey (j : Uuid) :
    { app.erase id with sessions := (app.erase id).sessions.removeKey j } =
      ({ app with sessions := app.sessions.removeKey j } : AppState).erase id := by
  simp only [erase, SessionStore.erase, SessionStore.removeKey, List.filter_filter,
    Bool.and_comm]

end Erase

/-! ## Handlers commute with it -/

section Handlers

variable [Crates] {app : AppState} {id j : Uuid} {caller : String} {e : SessionEntry}

omit [Crates] in
/-- While a handler waits for its task, nothing but the permits changes. -/
theorem erased_wait {S P : Type} (moved : Option (Nat × S)) (phase : S → P) :
    (moved >>= fun r => some ((app.erase id).setConcurrency r.1, phase r.2)) =
      (moved >>= fun r => some (app.setConcurrency r.1, phase r.2)).map (erased id) := by
  cases moved <;> rfl

theorem Status.step_erase (he : app.sessions.entries id = some e) (hcaller : caller ≠ e.principal)
    (m : Move) {phase : Status} (hok : (Handler.status j phase).Ok app caller) :
    phase.step (app.erase id) caller j m =
      (phase.step app caller j m).map (erased id) := by
  cases m with
  | advance =>
    cases phase with
    | received =>
      simp only [Status.step, AppState.erase_get he hcaller]
      rfl
    | found =>
      simp only [Status.step, AppState.erase_entries (hok.ne he hcaller)]
      cases app.sessions.entries j <;> rfl
    | _ => rfl
  | drop => cases phase <;> rfl
  | _ => rfl

theorem Delete.step_erase (he : app.sessions.entries id = some e) (hcaller : caller ≠ e.principal)
    (m : Move) {phase : Delete} (hok : (Handler.delete j phase).Ok app caller) :
    phase.step (app.erase id) caller j m =
      (phase.step app caller j m).map (erased id) := by
  cases m with
  | advance =>
    cases phase with
    | received =>
      simp only [Delete.step, AppState.erase_owned he hcaller]
      rfl
    | owned =>
      have hj : j ≠ id := hok.ne he hcaller
      have hcontains : (app.erase id).sessions.sessions.contains j =
          app.sessions.sessions.contains j := by
        simp [AppState.erase, SessionStore.erase, hj]
      simp only [Delete.step, AppState.erase_removeKey, hcontains]
      rfl
    | _ => rfl
  | drop => cases phase <;> rfl
  | _ => rfl

omit [Crates] in
theorem Resume.finish_erase (hj : j ≠ id) (entered : Instant) (lag : Lag) (input : ResumeInput)
    (progress : RunProgress) (since : Instant) (awaited : Bool) :
    Resume.finish (app.erase id) j entered lag input progress since awaited =
      (Resume.finish app j entered lag input progress since awaited).map (erased id) := by
  simp only [Resume.finish, AppState.erase_entries hj]
  cases app.sessions.entries j with
  | none => rfl
  | some e' =>
    simp only [Option.bind_eq_bind, Option.bind_some, AppState.erase_setEntry hj,
      AppState.erase_apply hj, AppState.erase_now]
    split <;> rfl

theorem Resume.step_erase (he : app.sessions.entries id = some e) (hcaller : caller ≠ e.principal)
    (i : RequestId) (body : Value) (m : Move) {phase : Resume}
    (hok : (Handler.resume j body phase).Ok app caller) :
    phase.step (app.erase id) i caller j body m =
      (phase.step app i caller j body m).map (erased id) := by
  cases phase with
  | received =>
    cases m with
    | advance =>
      simp only [Resume.step, Resume.advance, AppState.erase_get he hcaller]
      rfl
    | _ => rfl
  | found input =>
    have hj : j ≠ id := hok.2.ne he hcaller
    cases m with
    | advance =>
      simp only [Resume.step, Resume.advance, AppState.erase_entries hj]
      cases app.sessions.entries j with
      | none => rfl
      | some e' =>
        simp only [Option.bind_eq_bind, Option.bind_some]
        cases e'.acquireForResume with
        | error err => rfl
        | ok taken => simp only [AppState.erase_setEntry hj]; rfl
    | _ => rfl
  | executing input spawn =>
    have hj : j ≠ id := hok.2.ne he hcaller
    cases m with
    | advance =>
      cases spawn with
      | finished result =>
        match result with
        | none => rfl
        | some (.Stepped step) =>
          simp only [Resume.step, Resume.advance, AppState.erase_entries hj]
          cases app.sessions.entries j with
          | none => rfl
          | some e' =>
            simp only [Option.bind_eq_bind, Option.bind_some, AppState.erase_setEntry hj,
              AppState.erase_extend hj]
            rfl
        | some (.Mismatch progress error) =>
          simp only [Resume.step, Resume.advance, AppState.erase_entries hj]
          cases app.sessions.entries j with
          | none => rfl
          | some e' =>
            simp only [Option.bind_eq_bind, Option.bind_some, AppState.erase_setEntry hj]
            rfl
      | _ => rfl
    | finish entered lag =>
      cases spawn with
      | running progress since awaited => exact finish_erase hj ..
      | _ => exact erased_wait ..
    | _ => exact erased_wait ..
  | stored =>
    have hj : j ≠ id := hok.ne he hcaller
    cases m with
    | advance =>
      simp only [Resume.step, Resume.advance, AppState.erase_entries hj]
      cases app.sessions.entries j <;> rfl
    | _ => rfl
  | _ => cases m <;> rfl

omit [Crates] in
theorem Stateless.step_erase {W R : Type} (work : ApiResult W)
    (run : Instant → Lag → W → Option (ApiResult R) × Instant) (m : Move) (phase : Stateless W R) :
    phase.step (app.erase id) work run m =
      (phase.step app work run m).map (erased id) := by
  cases phase with
  | executing spawn =>
    cases m with
    | advance =>
      cases spawn with
      | finished result => cases result <;> rfl
      | _ => rfl
    | _ => exact erased_wait ..
  | _ => cases m <;> rfl

theorem Handler.step_erase (he : app.sessions.entries id = some e) (hcaller : caller ≠ e.principal)
    (i : RequestId) (m : Move) {handler : Handler} (hok : handler.Ok app caller)
    (hcreate : ∀ request phase, handler ≠ .create request phase) :
    handler.step (app.erase id) i caller m = (handler.step app i caller m).map (erased id) := by
  cases handler with
  | create request phase => exact (hcreate request phase rfl).elim
  | resume j body phase =>
    simp only [Handler.step, Resume.step_erase he hcaller i body m hok]
    cases phase.step app i caller j body m <;> rfl
  | status j phase =>
    simp only [Handler.step, Status.step_erase he hcaller m hok]
    cases phase.step app caller j m <;> rfl
  | delete j phase =>
    simp only [Handler.step, Delete.step_erase he hcaller m hok]
    cases phase.step app caller j m <;> rfl
  | run fields phase =>
    have hstep : RunCode.step (app.erase id) fields m phase =
        (RunCode.step app fields m phase).map (erased id) := Stateless.step_erase ..
    simp only [Handler.step, hstep]
    cases RunCode.step app fields m phase <;> rfl
  | compile request phase =>
    have hstep : CompileCode.step (app.erase id) request m phase =
        (CompileCode.step app request m phase).map (erased id) := Stateless.step_erase ..
    simp only [Handler.step, hstep]
    cases CompileCode.step app request m phase <;> rfl

/-- A resume that changes anything owns its session. -/
theorem Resume.Trans.owns {app' : AppState} {i : RequestId} {body : Value} {m : Move}
    {phase phase' : Resume} (h : Resume.Trans app i caller j body phase m app' phase')
    (hok : (Handler.resume j body phase).Ok app caller) : app' = app ∨ app.Owns caller j := by
  cases h with
  | turnAway _ => exact .inl rfl
  | lookup _ _ => exact .inl rfl
  | answer _ => exact .inl rfl
  | _ => exact .inr hok.2

end Handlers

/-! ## What other callers can do -/

namespace Server

variable [Crates] {s s' : Server} {a : Action} {id : Uuid} {e : SessionEntry}

omit [Crates] in
/-- What callers other than `owner` do, short of creating sessions; and time passes. -/
def ByOthers (owner : String) (s : Server) : Action → Prop
  | .tick _ => True
  | .arrive caller call => caller ≠ owner ∧ ∀ request, call ≠ .create request
  | .move i _ => ∀ r, s.requests[i]? = some r →
    r.caller ≠ owner ∧ ∀ request phase, r.handler ≠ .create request phase
  | .collect | .evict => False

/-- **Step lemma**, two runs: what others do is the same without the session. -/
theorem step_erase (hok : s.HandlersOk) (he : s.entry id = some e)
    (hothers : s.ByOthers e.principal a) : (s.erase id).step a = (s.step a).map (·.erase id) := by
  cases a with
  | tick d => rfl
  | arrive caller call => rfl
  | move i m =>
    cases hr : s.requests[i]? with
    | none => simp [step, erase, hr]
    | some r =>
      obtain ⟨hcaller, hcreate⟩ := hothers r hr
      have hstep := Handler.step_erase he hcaller i m (hok i r hr) hcreate
      simp only [step, erase, hr, Option.bind_eq_bind, Option.bind_some, hstep]
      cases r.handler.step s.app i r.caller m <;> rfl
  | collect => exact hothers.elim
  | evict => exact hothers.elim

/-- **Step lemma**, frame: what others do leaves the session alone. -/
theorem Trans.leaves (h : s.Trans a s') (hok : s.HandlersOk) (he : s.entry id = some e)
    (hothers : s.ByOthers e.principal a) :
    s'.entry id = some e ∧ (id ∈ s'.app.sessions.sessions ↔ id ∈ s.app.sessions.sessions) ∧
      s'.app.trail id = s.app.trail id := by
  cases h with
  | create hr _ => exact ((hothers _ hr).2 _ _ rfl).elim
  | @resume i m caller j body phase phase' app hr h =>
    rcases h.owns (hok i _ hr) with rfl | howns
    · exact ⟨he, Iff.rfl, rfl⟩
    · have hj : id ≠ j := (howns.ne he (hothers _ hr).1).symm
      obtain ⟨hentry, htrail, -⟩ := h.other hj
      have hkeys : app.sessions.sessions = s.app.sessions.sessions := by cases h <;> simp
      exact ⟨hentry.trans he, by rw [advanced_app, hkeys], htrail⟩
  | @delete i m caller j phase phase' app hr h =>
    cases h with
    | remove =>
      have howns : s.app.Owns caller j := hok i _ hr
      have hj : id ≠ j := (howns.ne he (hothers _ hr).1).symm
      exact ⟨he, by simp [SessionStore.removeKey, hj], rfl⟩
    | _ => exact ⟨he, Iff.rfl, rfl⟩
  | collect _ => exact hothers.elim
  | evict _ => exact hothers.elim
  | _ => exact ⟨he, Iff.rfl, rfl⟩

end Server

/-- **Ownership isolation**: from every reachable state, whatever callers other than its owner ask
of a session, their requests go as they would without it, response by response, and the session is
left as it was. -/
theorem sessions_isolated [Crates] {config : Config} {s : Server} (h : s.Reachable config)
    {id : Uuid} {e : SessionEntry} (he : s.entry id = some e) {as : List Action}
    (hothers : Run.Along Server.step (Server.ByOthers e.principal) s as) :
    (Run.exec Server.step (s.erase id) as).map Server.requests =
        (Run.exec Server.step s as).map Server.requests ∧
      ∀ s', Run.exec Server.step s as = some s' →
        s'.entry id = some e ∧
        (id ∈ s'.app.sessions.sessions ↔ id ∈ s.app.sessions.sessions) ∧
        s'.app.trail id = s.app.trail id := by
  constructor
  · rw [Run.exec_map (I := fun s => s.HandlersOk ∧ s.entry id = some e) (f := (·.erase id))
      (fun _ _ _ inv hq hstep => ⟨(Server.step_cases hstep).handlersOk inv.1,
        ((Server.step_cases hstep).leaves inv.1 inv.2 hq).1⟩)
      (fun _ _ inv hq => Server.step_erase inv.1 inv.2 hq) ⟨h.wf.handlers, he⟩ hothers,
      Option.map_map]
    rfl
  · intro s' hs'
    have inv := Run.exec_invariant_of_everyStep
      (I := fun t => t.HandlersOk ∧ t.entry id = some e ∧
        (id ∈ t.app.sessions.sessions ↔ id ∈ s.app.sessions.sessions) ∧
        t.app.trail id = s.app.trail id)
      (fun _ _ _ inv hq hstep => by
        obtain ⟨hok, hentry, hkeys, htrail⟩ := inv
        obtain ⟨hentry', hkeys', htrail'⟩ := (Server.step_cases hstep).leaves hok hentry hq
        exact ⟨(Server.step_cases hstep).handlersOk hok, hentry', hkeys'.trans hkeys,
          htrail'.trans htrail⟩)
      ⟨h.wf.handlers, he, Iff.rfl, rfl⟩ hothers.everyStep hs'
    exact inv.2

/-- `ByOthers`, as a test. -/
def Server.byOthers (owner : String) (s : Server) (a : Action) : Bool :=
  match a with
  | .tick _ => true
  | .arrive caller call => caller ≠ owner && !(call matches .create _)
  | .move i _ => (s.requests[i]?).all fun r => r.caller ≠ owner && !(r.handler matches .create ..)
  | .collect | .evict => false

theorem Server.byOthers_sound (owner : String) (s : Server) (a : Action)
    (h : s.byOthers owner a = true) : s.ByOthers owner a := by
  cases a with
  | tick d => trivial
  | arrive caller call =>
    simp only [byOthers, Bool.and_eq_true, decide_eq_true_eq] at h
    refine ⟨h.1, ?_⟩
    rintro request rfl
    cases h.2
  | move i m =>
    intro r hr
    simp only [byOthers, hr, Option.all_some, Bool.and_eq_true, decide_eq_true_eq] at h
    refine ⟨h.1, ?_⟩
    intro request phase hcreate
    rw [hcreate] at h
    cases h.2
  | collect => cases h
  | evict => cases h

/-- Somebody else asks for session 7, tries to resume it and to delete it. -/
def Sample.prying : List Action :=
  [.arrive "other" (.status 7), .move 1 .advance,
    .arrive "other" (.resume 7 Sample.undefined), .move 2 .advance,
    .arrive "other" (.delete 7), .move 3 .advance]

/-- Three requests for somebody else's session. -/
theorem sessions_isolated_prying :
    ∃ (_ : Crates) (s s' : Server) (e : SessionEntry), s.Reachable Sample.config ∧
      s.entry 7 = some e ∧ Run.exec Server.step s Sample.prying = some s' ∧
      (Run.exec Server.step (s.erase 7) Sample.prying).map Server.requests = some s'.requests ∧
      s'.entry 7 = some e ∧ (7 ∈ s'.app.sessions.sessions ↔ 7 ∈ s.app.sessions.sessions) ∧
      s'.app.trail 7 = s.app.trail 7 := by
  let _ := Sample.crates
  have hrun : (Run.exec Server.step (.new Sample.config) Sample.opening).any
      (fun s => (s.entry 7).any (fun e =>
          Run.checkAlong Server.step (Server.byOthers e.principal) s Sample.prying) &&
        (Run.exec Server.step s Sample.prying).isSome) = true := by decide
  obtain ⟨s, hs, htest⟩ := Option.any_eq_true _ _ |>.mp hrun
  rw [Bool.and_eq_true, Option.any_eq_true] at htest
  obtain ⟨⟨e, he, hcheck⟩, hsome⟩ := htest
  obtain ⟨s', hs'⟩ := Option.isSome_iff_exists.mp hsome
  have hreachable : s.Reachable Sample.config := ⟨_, hs⟩
  obtain ⟨hsame, hleft⟩ := sessions_isolated hreachable he
    (Run.along_of_check (Server.byOthers_sound e.principal) hcheck)
  rw [hs', Option.map_some] at hsame
  exact ⟨Sample.crates, s, s', e, hreachable, he, hs', hsame, hleft s' hs'⟩

end MontyServer
