import MontyServer.Representation

/-!
# Answers to pending futures

`check_resume` compares the kind of the answer with the kind of the pause, and nothing else. A
`futures` answer goes to a program that waits for futures whichever calls it names; monty takes the
progress, finds a call that is not pending and raises, and the failed step is what is stored. So a
wrong call id ends the session (`unknown_call_never_rejected`), where a wrong kind of answer leaves
it as it was.
-/

namespace MontyServer

/-- What monty does with the outcome of a call that is not pending: the resume is an error. -/
def RunProgress.RefusesUnknownCalls : RunProgress → Prop
  | .ResolveFutures pendingCallIds resume =>
    ∀ results, (∃ result ∈ results, result.1 ∉ pendingCallIds) →
      ∀ w, ∃ exc w', (resume results).exec w = (some (.error exc), w')
  | _ => True

/-- The answer names a call that is not pending. -/
def NamesUnknownCall (pendingCallIds : List UInt32) (results : List (UInt32 × FutureOutcome)) :
    Prop :=
  ∃ result ∈ results, result.1 ∉ pendingCallIds

/-- **The engine turns no such answer away**: the program fails on it. -/
theorem resumeSession_unknownCall {pendingCallIds : List UInt32}
    {resume : List (UInt32 × ExtFunctionResult) → Execution RunProgress}
    {results : List (UInt32 × FutureOutcome)}
    (hlaw : (RunProgress.ResolveFutures pendingCallIds resume).RefusesUnknownCalls)
    (hunknown : NamesUnknownCall pendingCallIds results) (tracker : StatsTracker) (now : Instant)
    (lag : Lag) :
    ∃ exception breach output stats w,
      resumeSession (.ResolveFutures pendingCallIds resume) tracker (.Futures results) now lag =
        (some (.Stepped (.Failed exception breach output stats)), w) := by
  obtain ⟨result, hmem, hnot⟩ := hunknown
  let sent := results.map fun result => (result.1, result.2.into)
  have hsent : ∃ result ∈ sent, result.1 ∉ pendingCallIds :=
    ⟨(result.1, result.2.into), List.mem_map.mpr ⟨result, hmem, rfl⟩, hnot⟩
  obtain ⟨exc, w, hexec⟩ := hlaw sent hsent (World.beginSegment { tracker, now })
  have happly : applyResume (.ResolveFutures pendingCallIds resume) (.Futures results)
      (World.beginSegment { tracker, now }) = (some (.error exc), w) := hexec
  refine ⟨exc, (w.endSegment lag).tracker.breach, joinStreams (w.endSegment lag).fragments,
    (w.endSegment lag).tracker.stats (w.endSegment lag).now, w.endSegment lag, ?_⟩
  simp only [resumeSession, checkResume, happly, settle, finishStep]

variable [Crates]

omit [Crates] in
theorem orInternal_error {α : Type} {r : Except ConvertError α} {err : ApiError}
    (h : orInternal r = .error err) : err = .Internal := by
  cases r with
  | ok a => cases h
  | error e =>
    cases h
    rfl

theorem describePause_error {p : RunProgress} {err : ApiError}
    (h : describePause p = .error err) : err = .Internal := by
  cases p with
  | FunctionCall call resume resumePending =>
    rw [describePause] at h
    cases hargs : orInternal (montySliceToJson call.args) with
    | error e =>
      rw [hargs] at h
      cases h
      exact orInternal_error hargs
    | ok args =>
      cases hkwargs : orInternal (montyPairsToJson call.kwargs) with
      | error e =>
        rw [hargs, hkwargs] at h
        cases h
        exact orInternal_error hkwargs
      | ok kwargs =>
        rw [hargs, hkwargs] at h
        cases h
  | OsCall => cases h; rfl
  | NameLookup => cases h
  | ResolveFutures => cases h
  | Complete => cases h; rfl

/-- An entry that cannot be rendered is an internal error. -/
theorem render_error {id : Uuid} {e : SessionEntry} {now : Instant} {err : ApiError}
    (h : render id e now = .error err) : err = .Internal := by
  rw [render] at h
  cases hstate : renderState e.snapshot e.progress with
  | ok st =>
    rw [hstate] at h
    cases h
  | error err' =>
    rw [hstate] at h
    cases h
    cases hs : e.snapshot with
    | Paused output stats =>
      cases hp : e.progress with
      | none =>
        rw [hs, hp] at hstate
        cases hstate
        rfl
      | some p =>
        rw [hs, hp, renderState] at hstate
        cases hpause : describePause p with
        | ok pause =>
          rw [hpause] at hstate
          cases hstate
        | error e' =>
          rw [hpause] at hstate
          cases hstate
          exact describePause_error hpause
    | Completed result output stats =>
      rw [hs, renderState] at hstate
      cases hresult : orInternal (montyToJson result) with
      | ok v =>
        rw [hresult] at hstate
        cases hstate
      | error e' =>
        rw [hresult] at hstate
        cases hstate
        exact orInternal_error hresult
    | Failed exception breach output stats =>
      rw [hs] at hstate
      cases hstate

/-! ## From the answer to the end of the session -/

namespace Server

omit [Crates] in
/-- The session has failed: its progress is gone for good. -/
def Failed (s : Server) (id : Uuid) : Prop :=
  ∃ e, s.entry id = some e ∧ e.terminal = true ∧ e.progress = none ∧
    ∃ exception breach output stats, e.snapshot = .Failed exception breach output stats

theorem Wf.failed_step {s s' : Server} {a : Action} {id : Uuid} (wf : s.Wf)
    (h : s.step a = some s') (hfailed : s.Failed id) : s'.Failed id := by
  obtain ⟨e, he, hterminal, hrest⟩ := hfailed
  exact ⟨e, wf.terminal_step h he hterminal, hterminal, hrest⟩

omit [Crates] in
/-- How far a resume can get that has taken `p` and answers it with `results`: it still has `p` as
its work, or the program has failed, or the runtime has cancelled the task or the request is gone;
once a step is stored the session has failed, and a `400` is never the answer. -/
inductive Doomed (s : Server) (id : Uuid) (p : RunProgress)
    (results : List (UInt32 × FutureOutcome)) : Resume → Prop
  | held {spawn : Spawn RunProgress ResumeResult} {awaited : Bool} :
    spawn.work = some (p, awaited) → Doomed s id p results (.executing (.Futures results) spawn)
  | failed {input : ResumeInput} {exception : MontyException} {breach : Option Breach}
    {output : Output} {stats : ExecStats} :
    Doomed s id p results (.executing input
      (.finished (some (.Stepped (.Failed exception breach output stats)))))
  | lost {input : ResumeInput} {spawn : Spawn RunProgress ResumeResult} :
    spawn = .finished none ∨ spawn = .dropped → Doomed s id p results (.executing input spawn)
  | stored : s.Failed id → Doomed s id p results .stored
  | answered {response : ApiResult SessionView} : s.Failed id →
    (∀ message, response ≠ .error (.BadRequest message)) → Doomed s id p results (.done response)
  | cancelled : Doomed s id p results (.done (.error .Internal))

variable {s s' : Server} {a : Action} {i : RequestId} {caller : String} {id : Uuid} {body : Value}
  {phase : Resume} {results : List (UInt32 × FutureOutcome)}

omit [Crates] in
theorem Doomed.mono {p : RunProgress} (h : s.Doomed id p results phase)
    (hfailed : s.Failed id → s'.Failed id) : s'.Doomed id p results phase := by
  cases h with
  | held hwork => exact .held hwork
  | failed => exact .failed
  | lost hspawn => exact .lost hspawn
  | stored h => exact .stored (hfailed h)
  | answered h hresponse => exact .answered (hfailed h) hresponse
  | cancelled => exact .cancelled

/-- **Step lemma**: whatever happens next, the resume stays doomed. -/
theorem Wf.doomed_step (wf : s.Wf) (h : s.step a = some s') {pendingCallIds : List UInt32}
    {resume : List (UInt32 × ExtFunctionResult) → Execution RunProgress}
    (hlaw : (RunProgress.ResolveFutures pendingCallIds resume).RefusesUnknownCalls)
    (hunknown : NamesUnknownCall pendingCallIds results)
    (hr : s.requests[i]? = some ⟨caller, .resume id body phase⟩)
    (hdoomed : s.Doomed id (.ResolveFutures pendingCallIds resume) results phase) :
    ∃ phase', s'.requests[i]? = some ⟨caller, .resume id body phase'⟩ ∧
      s'.Doomed id (.ResolveFutures pendingCallIds resume) results phase' := by
  have hkeep : s.Failed id → s'.Failed id := wf.failed_step h
  rcases (step_cases h).resume_cases hr with hr' | ⟨m, phase', -, htrans, hr'⟩
  · exact ⟨phase, hr', hdoomed.mono hkeep⟩
  refine ⟨phase', hr', ?_⟩
  generalize happ : s'.app = app at htrans
  cases hdoomed with
  | @held _ waiting hwork =>
    cases htrans with
    | spawn hm =>
      cases hm with
      | wait _ hbefore hafter =>
        cases hbefore.symm.trans hwork
        exact .held hafter
      | leave _ hbefore hafter =>
        cases hbefore.symm.trans hwork
        exact .held hafter
      | gone _ _ hgone => exact .lost hgone
    | @ran _ e _ _ entered lag _ _ _ _ hrun =>
      cases hwork
      obtain ⟨exc, breach, output, stats, w', hfail⟩ :=
        resumeSession_unknownCall hlaw hunknown e.tracker entered lag
      cases hrun.symm.trans hfail
      cases waiting
      · exact .lost (.inr rfl)
      · exact .failed
    | fail => cases hwork
    | store => cases hwork
    | restore => cases hwork
  | @failed _ exception breach output stats =>
    cases htrans with
    | spawn hm =>
      cases hm with
      | wait _ hbefore _ => cases hbefore
      | leave _ hbefore _ => cases hbefore
      | gone _ _ hgone => exact .lost hgone
    | @store _ e _ he =>
      let after := e.storeStep (.Failed exception breach output stats) s.app.now
      refine .stored ⟨after, ?_, rfl, rfl, exception, breach, output, stats, rfl⟩
      rw [entry, happ, AppState.extend_sessions]
      exact AppState.setEntry_self ..
  | lost hspawn =>
    cases htrans with
    | spawn hm =>
      cases hm with
      | wait _ hbefore _ => rcases hspawn with rfl | rfl <;> cases hbefore
      | leave _ hbefore _ => rcases hspawn with rfl | rfl <;> cases hbefore
      | gone _ _ hgone => exact .lost hgone
    | ran => rcases hspawn with h | h <;> cases h
    | fail => exact .cancelled
    | store => rcases hspawn with h | h <;> cases h
    | restore => rcases hspawn with h | h <;> cases h
  | stored hfailed =>
    cases htrans with
    | answer he =>
      refine .answered (hkeep hfailed) ?_
      intro message heq
      cases render_error heq
  | answered => cases htrans
  | cancelled => cases htrans

/-- **Run lemma**: and it stays so. -/
theorem Wf.doomed_run (wf : s.Wf) {as : List Action} (h : Run.exec Server.step s as = some s')
    {pendingCallIds : List UInt32}
    {resume : List (UInt32 × ExtFunctionResult) → Execution RunProgress}
    (hlaw : (RunProgress.ResolveFutures pendingCallIds resume).RefusesUnknownCalls)
    (hunknown : NamesUnknownCall pendingCallIds results)
    (hr : s.requests[i]? = some ⟨caller, .resume id body phase⟩)
    (hdoomed : s.Doomed id (.ResolveFutures pendingCallIds resume) results phase) :
    ∃ phase', s'.requests[i]? = some ⟨caller, .resume id body phase'⟩ ∧
      s'.Doomed id (.ResolveFutures pendingCallIds resume) results phase' := by
  induction as generalizing s phase with
  | nil =>
    cases h
    exact ⟨phase, hr, hdoomed⟩
  | cons a as ih =>
    obtain ⟨t, hstep, hrest⟩ := Run.exec_cons.mp h
    obtain ⟨phase', hr', hdoomed'⟩ := wf.doomed_step hstep hlaw hunknown hr hdoomed
    exact ih (wf.step hstep) hrest hr' hdoomed'

end Server

/-! ## A resume nobody disturbs -/

/-- The moves of one resume, its server held still. -/
def Resume.alone (i : RequestId) (caller : String) (id : Uuid) (body : Value)
    (st : AppState × Resume) (m : Move) : Option (AppState × Resume) :=
  st.2.step st.1 i caller id body m

theorem Server.exec_resume {i : RequestId} {caller : String} {id : Uuid} {body : Value}
    {s : Server} {phase phase' : Resume} {app : AppState} {ms : List Move}
    (hr : s.requests[i]? = some ⟨caller, .resume id body phase⟩)
    (h : Run.exec (Resume.alone i caller id body) (s.app, phase) ms = some (app, phase')) :
    ∃ s', Run.exec step s (ms.map (Action.move i)) = some s' ∧ s'.app = app ∧
      s'.requests[i]? = some ⟨caller, .resume id body phase'⟩ ∧
      s'.requests.length = s.requests.length := by
  induction ms generalizing s phase with
  | nil =>
    cases h
    exact ⟨s, rfl, rfl, hr, rfl⟩
  | cons m ms ih =>
    obtain ⟨⟨app₁, phase₁⟩, hstep, hrest⟩ := Run.exec_cons.mp h
    have hserver : s.step (.move i m) =
        some (s.advanced app₁ i ⟨caller, .resume id body phase₁⟩) := by
      have hphase : phase.step s.app i caller id body m = some (app₁, phase₁) := hstep
      simp [step, hr, Handler.step, hphase, advanced]
    obtain ⟨s', hs', happ, hr', hlength⟩ :=
      ih (s := s.advanced app₁ i ⟨caller, .resume id body phase₁⟩)
        ((advanced_request hr).mpr (.inl ⟨rfl, rfl⟩)) hrest
    exact ⟨s', Run.exec_cons.mpr ⟨_, hserver, hs'⟩, happ, hr', hlength.trans (by simp [advanced])⟩

/-- All the moves of a resume that has found its session, if nobody disturbs it. -/
def Resume.moves : List Move :=
  [.advance, .acquire, .spawn, .start, .finish 0 {}, .advance, .advance]

/-- What a session is after a resume nobody has disturbed. -/
theorem Resume.alone_moves {app : AppState} (i : RequestId) (caller : String) (body : Value)
    {id : Uuid} {e : SessionEntry} {p : RunProgress} {input : ResumeInput} {step : SessionStep}
    {w : World} (he : app.sessions.entries id = some e)
    (hterminal : e.terminal = false) (hp : e.progress = some p) (hfree : 0 < app.concurrency)
    (hnow : app.now = 0)
    (hstep : resumeSession p e.tracker input 0 {} = (some (.Stepped step), w)) (hw : w.now = 0) :
    ∃ app' response,
      Run.exec (Resume.alone i caller id body) (app, .found input) Resume.moves =
        some (app', .done response) ∧
      app'.sessions.entries id = some ({ e with tracker := w.tracker }.storeStep step 0) ∧
      app'.sessions.sessions = app.sessions.sessions ∧ app'.concurrency = app.concurrency ∧
      app'.now = 0 := by
  have hacquire := SessionEntry.acquireForResume_ok.mpr ⟨hterminal, hp, rfl⟩
  let taken : SessionEntry := { e with progress := none }
  let app₁ := app.setEntry id taken
  let app₂ := app₁.setConcurrency (app.concurrency - 1)
  let app₃ := ((app₂.setEntry id { taken with tracker := w.tracker }).apply id (p, e.tracker)
    input).setConcurrency (app₂.concurrency + 1)
  let after : SessionEntry := { taken with tracker := w.tracker }.storeStep step app₃.now
  let app₄ := (app₃.setEntry id after).extend id ⟨i, some input, step, w.tracker⟩
  have h₃ : app₃.sessions.entries id = some { taken with tracker := w.tracker } := by
    simp [app₃]
  have hnow₃ : app₃.now = 0 := by simp [app₃, app₂, app₁, hnow]
  have hafter : after = { e with tracker := w.tracker }.storeStep step 0 := by
    simp only [after, hnow₃]
    rfl
  have htake : Resume.alone i caller id body (app, .found input) .advance =
      some (app₁, .executing input (.queued p)) := by
    simp [Resume.alone, Resume.step, Resume.advance, he, hacquire, app₁, taken]
  have hpermit : Resume.alone i caller id body (app₁, .executing input (.queued p)) .acquire =
      some (app₂, .executing input (.admitted p)) := by
    have hfree₁ : 0 < app₁.concurrency := hfree
    simp only [Resume.alone, Resume.step, Spawn.move, if_pos hfree₁]
    rfl
  have hfinish : Resume.alone i caller id body (app₂, .executing input (.running p 0 true))
      (.finish 0 {}) = some (app₃, .executing input (.finished (some (.Stepped step)))) := by
    have he₂ : app₂.sessions.entries id = some taken := AppState.setEntry_self ..
    have hrun : resumeSession p taken.tracker input 0 {} = (some (.Stepped step), w) := hstep
    have htime : w.now ≤ app₂.now := by simp [hw]
    simp [Resume.alone, Resume.step, Resume.finish, he₂, hrun, htime, app₃, Spawn.settled]
    rfl
  have hstore : Resume.alone i caller id body
      (app₃, .executing input (.finished (some (.Stepped step)))) .advance =
        some (app₄, .stored) := by
    simp [Resume.alone, Resume.step, Resume.advance, h₃, app₄, after]
  have hanswer : Resume.alone i caller id body (app₄, .stored) .advance =
      some (app₄, .done (render id after app₄.now)) := by
    have he₄ : app₄.sessions.entries id = some after := AppState.setEntry_self ..
    simp [Resume.alone, Resume.step, Resume.advance, he₄]
  refine ⟨app₄, render id after app₄.now, ?_, ?_, ?_, ?_, ?_⟩
  · refine Run.exec_cons.mpr ⟨_, htake, Run.exec_cons.mpr ⟨_, hpermit, Run.exec_cons.mpr
      ⟨(app₂, .executing input (.spawned p true)), rfl, Run.exec_cons.mpr
        ⟨(app₂, .executing input (.running p 0 true)), ?_, Run.exec_cons.mpr
          ⟨_, hfinish, Run.exec_cons.mpr ⟨_, hstore, Run.exec_cons.mpr ⟨_, hanswer, rfl⟩⟩⟩⟩⟩⟩⟩
    have hnow₂ : app₂.now = 0 := hnow
    simp [Resume.alone, Resume.step, Spawn.move, hnow₂]
    rfl
  · rw [← hafter]
    exact AppState.setEntry_self ..
  · simp [app₄, app₃, app₂, app₁]
  · show app₂.concurrency + 1 = app.concurrency
    show app.concurrency - 1 + 1 = app.concurrency
    omega
  · exact hnow₃

/-- A resume of the owner finds its session. -/
theorem Server.resume_lookup {s : Server} {i : RequestId} {caller : String} {id : Uuid}
    {body : Value} {input : ResumeInput}
    (hr : s.requests[i]? = some ⟨caller, .resume id body .received⟩)
    (hinput : resumeInput body = some (.ok input))
    (howned : s.app.sessions.owned id caller = true) :
    s.step (.move i .advance) =
      some (s.advanced s.app i ⟨caller, .resume id body (.found input)⟩) := by
  have hget : s.app.sessions.get id caller = some id :=
    SessionStore.get_eq_some.mpr ⟨howned, rfl⟩
  simp [step, hr, Handler.step, Resume.step, Resume.advance, hinput, hget, advanced]

/-! ## A wrong call id in a sample run -/

namespace Sample

/-- Session 7 is paused on `p`, and nothing else is going on. -/
structure PausedOn (s : Server) (p : RunProgress) : Prop where
  reachable : Server.Reachable config s
  entry : ∃ e, s.entry 7 = some e ∧ e.progress = some p ∧ e.terminal = false ∧
    e.principal = "owner"
  key : 7 ∈ s.app.sessions.sessions
  free : 0 < s.app.concurrency
  now : s.app.now = 0

/-- Whatever the session's tracker, answering `p` with `input` at once gives `step`. -/
def Gives (p : RunProgress) (input : ResumeInput) (P : SessionStep → Prop) : Prop :=
  ∀ tracker, ∃ step w, resumeSession p tracker input 0 {} = (some (.Stepped step), w) ∧
    w.now = 0 ∧ P step

variable {s : Server} {p : RunProgress} {body : Value} {input : ResumeInput}

theorem PausedOn.owned (h : PausedOn s p) : s.app.sessions.owned 7 "owner" = true := by
  obtain ⟨e, he, -, -, hprincipal⟩ := h.entry
  exact SessionStore.owned_iff.mpr ⟨h.key, e, he, hprincipal⟩

/-- The owner sends a resume, which finds the session. -/
theorem PausedOn.found (h : PausedOn s p) (hinput : resumeInput body = some (.ok input)) :
    ∃ s', PausedOn s' p ∧ s'.entry 7 = s.entry 7 ∧
      s'.requests[s.requests.length]? = some ⟨"owner", .resume 7 body (.found input)⟩ := by
  let arrived : Server := { s with requests := s.requests ++ [⟨"owner", .resume 7 body .received⟩] }
  have harrive : s.step (.arrive "owner" (.resume 7 body)) = some arrived := rfl
  have hr : arrived.requests[s.requests.length]? = some ⟨"owner", .resume 7 body .received⟩ := by
    simp [arrived]
  have hlookup := Server.resume_lookup hr hinput h.owned
  obtain ⟨as, has⟩ := h.reachable
  refine ⟨_, ⟨⟨as ++ [_, _], Run.exec_append.mpr ⟨s, has, Run.exec_cons.mpr ⟨_, harrive,
    Run.exec_cons.mpr ⟨_, hlookup, rfl⟩⟩⟩⟩, h.entry, h.key, h.free, h.now⟩, rfl, ?_⟩
  exact (Server.advanced_request hr).mpr (.inl ⟨rfl, rfl⟩)

/-- A resume that has found the session takes it one step on. -/
theorem PausedOn.resumed (h : PausedOn s p) {P : SessionStep → Prop} (hgives : Gives p input P)
    {i : RequestId} (hr : s.requests[i]? = some ⟨"owner", .resume 7 body (.found input)⟩) :
    ∃ s' step e response, Run.exec Server.step s (Resume.moves.map (.move i)) = some s' ∧ P step ∧
      s'.entry 7 = some e ∧ e.progress = (splitStep step).1 ∧ e.terminal = (splitStep step).2.1 ∧
      e.principal = "owner" ∧ 7 ∈ s'.app.sessions.sessions ∧ 0 < s'.app.concurrency ∧
      s'.app.now = 0 ∧ s'.requests[i]? = some ⟨"owner", .resume 7 body (.done response)⟩ := by
  obtain ⟨e, he, hp, hterminal, hprincipal⟩ := h.entry
  obtain ⟨step, w, hstep, hw, hP⟩ := hgives e.tracker
  obtain ⟨app, response, hrun, hentry, hkeys, hfree, hnow⟩ :=
    Resume.alone_moves i "owner" body he hterminal hp h.free h.now
      hstep hw
  obtain ⟨s', hs', rfl, hr', -⟩ := Server.exec_resume hr hrun
  exact ⟨s', step, _, response, hs', hP, hentry, rfl, rfl, hprincipal, hkeys ▸ h.key,
    hfree ▸ h.free, hnow, hr'⟩

/-- The owner answers a pause, and the next one is `q`. -/
theorem PausedOn.next (h : PausedOn s p) (hinput : resumeInput body = some (.ok input))
    {q : RunProgress}
    (hgives : Gives p input fun step => ∃ output stats, step = .Paused q output stats) :
    ∃ s', PausedOn s' q := by
  obtain ⟨s₁, h₁, -, hr⟩ := h.found hinput
  obtain ⟨s₂, step, e, response, hrun, ⟨output, stats, rfl⟩, he, hp, hterminal, hprincipal, hkey,
    hfree, hnow, -⟩ := h₁.resumed hgives hr
  obtain ⟨as, has⟩ := h₁.reachable
  exact ⟨s₂, ⟨as ++ _, Run.exec_append.mpr ⟨s₁, has, hrun⟩⟩, ⟨e, he, hp, hterminal, hprincipal⟩,
    hkey, hfree, hnow⟩

/-- What an execution returns at once. -/
def returned : Execution RunProgress → RunProgress
  | .ret p => p
  | _ => .Complete .None

/-- The pauses of `await add(2, 3)`: on the name, on the call, and, where the call is answered
`pending`, on its future. -/
def onName : RunProgress := returned lookupAdd
def onCall : RunProgress := returned callAdd
def onFuture : RunProgress :=
  match onCall with
  | .FunctionCall _ _ resumePending => returned resumePending
  | p => p

/-- Request 0 creates session 7, which awaits a call of `add`. -/
def calling : List Action :=
  [.arrive "owner" (.create { source := { code := some "await add(2, 3)" } }), .move 0 .advance] ++
  executed 0 ++ [.move 0 .advance, .move 0 (.insert 7), .move 0 .advance, .move 0 .advance]

omit [Crates] in
theorem paused_onName :
    let _ := crates
    ∃ s, PausedOn s onName := by
  intro _
  have hrun : (Run.exec Server.step (.new config) calling).any (fun s =>
      ((s.entry 7).any fun e => !e.terminal && e.principal = "owner") &&
        (s.app.sessions.sessions.contains 7 && (0 < s.app.concurrency && s.app.now = 0))) =
      true := by
    decide
  have hprogress : (Run.exec Server.step (.new config) calling).bind
      (fun s => (s.entry 7).bind fun e => e.progress) = some onName := rfl
  obtain ⟨s, hs, htest⟩ := Option.any_eq_true _ _ |>.mp hrun
  simp only [Bool.and_eq_true, decide_eq_true_eq, List.contains_eq_mem] at htest
  obtain ⟨hentry, hkey, hfree, hnow⟩ := htest
  obtain ⟨e, he, hterminal⟩ := Option.any_eq_true _ _ |>.mp hentry
  simp only [Bool.and_eq_true, Bool.not_eq_true', decide_eq_true_eq] at hterminal
  rw [hs, Option.bind_some, he, Option.bind_some] at hprogress
  exact ⟨s, ⟨calling, hs⟩, ⟨e, he, hprogress, hterminal.1, hterminal.2⟩, hkey, hfree, hnow⟩

omit [Crates] in
theorem onName_gives : Gives onName (.Name (.Function "add" none))
    fun step => ∃ output stats, step = .Paused onCall output stats :=
  fun _ => ⟨_, _, rfl, rfl, _, _, rfl⟩

omit [Crates] in
theorem onCall_gives : Gives onCall .Pending
    fun step => ∃ output stats, step = .Paused onFuture output stats :=
  fun _ => ⟨_, _, rfl, rfl, _, _, rfl⟩

omit [Crates] in
/-- It takes the outcome of call 0 and of no other. -/
theorem onFuture_refuses : onFuture.RefusesUnknownCalls := by
  intro results hunknown w
  obtain ⟨result, hmem, hnot⟩ := hunknown
  refine ⟨.new ⟨"RuntimeError"⟩ none, w, ?_⟩
  beta_reduce
  split
  · cases List.mem_singleton.mp hmem
    exact (hnot (List.mem_singleton.mpr rfl)).elim
  · cases List.mem_singleton.mp hmem
    exact (hnot (List.mem_singleton.mpr rfl)).elim
  · rfl

/-- The host function `add`. -/
def hostFunction : Value := .object [("value", .object [("$function", .string "add")])]

/-- An outcome for call 5. -/
def wrongCall : Value :=
  .object [("futures",
    .array [FutureAnswer.body (.raised 5 (.object [("type", .string "ValueError")]))])]

/-- The input it is. -/
def wrongOutcome : List (UInt32 × FutureOutcome) := [(5, .Raise (.new ⟨"ValueError"⟩ none))]

omit [Crates] in
/-- The owner looks `add` up, says that the call is pending, and answers call 5. -/
theorem wrongCall_run :
    let _ := crates
    ∃ s s₁ s₂ i e e' resume as response, Server.Reachable config s ∧
      s.requests[i]? = some ⟨"owner", .resume 7 wrongCall (.found (.Futures wrongOutcome))⟩ ∧
      s.entry 7 = some e ∧ e.progress = some (.ResolveFutures [0] resume) ∧
      (RunProgress.ResolveFutures [0] resume).RefusesUnknownCalls ∧
      s.step (.move i .advance) = some s₁ ∧ Run.exec Server.step s₁ as = some s₂ ∧
      s₂.requests[i]? = some ⟨"owner", .resume 7 wrongCall (.done response)⟩ ∧
      s₂.entry 7 = some e' ∧ e'.progress = none := by
  intro _
  obtain ⟨s₀, h₀⟩ := paused_onName
  have hhost : resumeInput hostFunction = some (.ok (.Name (.Function "add" none))) := by
    rw [hostFunction, resumeInput_value (v := .object [("$function", .string "add")]) nofun]
    simp [jsonToMonty, objectToMonty, singleDollarTag, taggedToMonty, functionTagToMonty,
      Value.asStr]
    rfl
  obtain ⟨s₁, h₁⟩ := h₀.next hhost onName_gives
  have hpending : resumeInput (.object [("pending", .bool true)]) = some (.ok .Pending) := rfl
  obtain ⟨s₂, h₂⟩ := h₁.next hpending onCall_gives
  have hwrong : resumeInput wrongCall = some (.ok (.Futures wrongOutcome)) := rfl
  obtain ⟨s, hs, -, hr⟩ := h₂.found hwrong
  have hgives : Gives onFuture (.Futures wrongOutcome) fun step => (splitStep step).1 = none :=
    fun _ => ⟨_, _, rfl, rfl, rfl⟩
  obtain ⟨s', step, e', response, hrun, hnone, he', hp', -, -, -, -, -, hdone⟩ :=
    hs.resumed hgives hr
  obtain ⟨s₁, htake, hrest⟩ := Run.exec_cons.mp hrun
  obtain ⟨e, he, hp, -⟩ := hs.entry
  exact ⟨s, s₁, s', _, e, e', _, _, response, hs.reachable, hr, he, hp, onFuture_refuses, htake,
    hrest, hdone, he', hp'.trans hnone⟩

omit [Crates] in
theorem wrongCall_unknown : NamesUnknownCall [0] wrongOutcome :=
  ⟨_, List.mem_singleton.mpr rfl, by decide⟩

end Sample

/-- The promise of the guard, for one answer to pending futures: a resume of session `id` by request
`i` that is about to take the progress is turned away with a `400` whenever it is answered, and the
session then has its progress, its snapshot and its expiry as before. -/
def Server.SparedBy (s : Server) (i : RequestId) (id : Uuid) : Prop :=
  ∀ (s₁ s₂ : Server) (as : List Action) (r : Request) (body : Value)
    (response : ApiResult SessionView),
    s.step (.move i .advance) = some s₁ → Run.exec Server.step s₁ as = some s₂ →
    s₂.requests[i]? = some r → r.handler = .resume id body (.done response) →
    (∃ message, response = .error (.BadRequest message)) ∧
      ∃ e e', s.entry id = some e ∧ s₂.entry id = some e' ∧ e'.progress = e.progress ∧
        e'.snapshot = e.snapshot ∧ e'.expiresAt = e.expiresAt

/-- **A wrong call id is never rejected.** A resume that finds its session paused on futures and
names a call that is not pending takes the progress; from then on, whatever happens, its answer is
not a `400`, and unless the runtime has cancelled its task the session has failed by the time it is
answered. -/
theorem unknown_call_never_rejected {config : Config} {s s₁ s₂ : Server} {i : RequestId}
    {caller : String} {id : Uuid} {body : Value} {e : SessionEntry} {pendingCallIds : List UInt32}
    {resume : List (UInt32 × ExtFunctionResult) → Execution RunProgress}
    {results : List (UInt32 × FutureOutcome)} {as : List Action} {response : ApiResult SessionView}
    (h : Server.Reachable config s)
    (hr : s.requests[i]? = some ⟨caller, .resume id body (.found (.Futures results))⟩)
    (he : s.entry id = some e)
    (hpaused : e.progress = some (.ResolveFutures pendingCallIds resume))
    (hlaw : (RunProgress.ResolveFutures pendingCallIds resume).RefusesUnknownCalls)
    (hunknown : NamesUnknownCall pendingCallIds results)
    (htake : s.step (.move i .advance) = some s₁)
    (hrun : Run.exec Server.step s₁ as = some s₂)
    (hdone : s₂.requests[i]? = some ⟨caller, .resume id body (.done response)⟩) :
    (∀ message, response ≠ .error (.BadRequest message)) ∧
      (response = .error .Internal ∨ s₂.Failed id) := by
  obtain ⟨phase₁, htrans, hr₁⟩ := (Server.step_cases htake).resume_move hr
  generalize s₁.app = app at htrans
  -- the progress is there, so it is taken
  have hdoomed : s₁.Doomed id (.ResolveFutures pendingCallIds resume) results phase₁ := by
    cases htrans with
    | refuse he' herr =>
      cases he.symm.trans he'
      have hok := SessionEntry.acquireForResume_ok.mpr
        ⟨Bool.eq_false_iff.mpr fun hterminal => ?_, hpaused, rfl⟩
      · cases herr.symm.trans hok
      · cases ((h.wf.represented he).progress_none hterminal).symm.trans hpaused
    | take he' _ hp =>
      cases he.symm.trans he'
      cases hp.symm.trans hpaused
      exact .held rfl
  obtain ⟨phase₂, hr₂, hdoomed₂⟩ := (h.wf.step htake).doomed_run hrun hlaw hunknown hr₁ hdoomed
  cases hdone.symm.trans hr₂
  cases hdoomed₂ with
  | answered hfailed hresponse => exact ⟨hresponse, .inr hfailed⟩
  | cancelled => exact ⟨nofun, .inl rfl⟩

omit [Crates] in
/-- The answer to call 5, while call 0 is pending. -/
theorem unknown_call_never_rejected_add :
    ∃ (_ : Crates) (s₂ : Server) (response : ApiResult SessionView),
      (∀ message, response ≠ .error (.BadRequest message)) ∧
        (response = .error .Internal ∨ s₂.Failed 7) := by
  let _ := Sample.crates
  obtain ⟨s, s₁, s₂, i, e, e', resume, as, response, hreach, hr, he, hp, hlaw, htake, hrun, hdone,
    -, -⟩ := Sample.wrongCall_run
  exact ⟨Sample.crates, s₂, response, unknown_call_never_rejected hreach hr he hp hlaw
    Sample.wrongCall_unknown htake hrun hdone⟩

omit [Crates] in
/-- Naming call 5 while call 0 is pending costs the session its progress. -/
theorem unknown_call_not_rejected :
    ¬ ∀ (_ : Crates) (config : Config) (s : Server) (i : RequestId) (caller : String) (id : Uuid)
      (body : Value) (e : SessionEntry) (pendingCallIds : List UInt32)
      (resume : List (UInt32 × ExtFunctionResult) → Execution RunProgress)
      (results : List (UInt32 × FutureOutcome)),
      Server.Reachable config s →
      s.requests[i]? = some ⟨caller, .resume id body (.found (.Futures results))⟩ →
      s.entry id = some e → e.progress = some (.ResolveFutures pendingCallIds resume) →
      (RunProgress.ResolveFutures pendingCallIds resume).RefusesUnknownCalls →
      NamesUnknownCall pendingCallIds results → s.SparedBy i id := by
  intro h
  let _ := Sample.crates
  obtain ⟨s, s₁, s₂, i, e, e', resume, as, response, hreach, hr, he, hp, hlaw, htake, hrun, hdone,
    he', hnone⟩ := Sample.wrongCall_run
  have hspared := h Sample.crates Sample.config s i "owner" 7 _ e [0] resume _ hreach hr he hp hlaw
    Sample.wrongCall_unknown
  obtain ⟨-, e₁, e₂, he₁, he₂, hsame, -⟩ := hspared s₁ s₂ as _ _ response htake hrun hdone rfl
  cases he.symm.trans he₁
  cases he'.symm.trans he₂
  rw [hnone, hp] at hsame
  cases hsame

end MontyServer
