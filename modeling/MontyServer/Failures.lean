import MontyServer.Alone
import MontyServer.Answers
import MontyServer.Completion
import MontyServer.Futures

/-!
# What a 500 means

`ApiError::Internal` is written in a dozen places, some of which nothing is meant to reach. Judging
what a client sends never leads to one of them. A request is told that the server failed exactly if
its task panicked or was cancelled, if the session it has just created is gone again, if the entry
it is to show cannot be rendered (its progress being out for another resume, say), or if monty
cannot encode what the program has come to (`internal_error_iff`).
-/

namespace MontyServer

/-! ## The client's mistakes -/

/-- The client's mistake, not the server's. -/
def ApiError.IsBadRequest (err : ApiError) : Prop := ∃ message, err = .BadRequest message

section Mistakes

variable [Crates]

open Rounds

theorem decodeSnapshot_badRequest (snapshot : String) :
    FailsWith ApiError.IsBadRequest (decodeSnapshot snapshot) := by
  intro err h
  unfold decodeSnapshot at h
  split at h
  · cases h
    exact ⟨_, rfl⟩
  · split at h <;> cases h
    exact ⟨_, rfl⟩

theorem namedInputs_badRequest (map : List (String × Value)) :
    FailsWith ApiError.IsBadRequest (namedInputs map) := by
  induction map with
  | nil => exact .ok _
  | cons member map ih =>
    have hvalue : FailsWith ApiError.IsBadRequest ((jsonToMonty member.2).mapError badInput) :=
      FailsWith.mapError fun _ => ⟨_, rfl⟩
    exact hvalue.bind fun _ => ih.bind fun _ => .ok _

theorem inputsForCode_badRequest (inputs : Option Value) :
    FailsWith ApiError.IsBadRequest (inputsForCode inputs) := by
  unfold inputsForCode
  split
  · exact .ok _
  · exact namedInputs_badRequest _
  · exact .ok _
  · intro err h
    cases h
    exact ⟨_, rfl⟩

theorem inputsForSnapshot_badRequest (inputs : Option Value) :
    FailsWith ApiError.IsBadRequest (inputsForSnapshot inputs) := by
  unfold inputsForSnapshot
  split
  · exact .ok _
  · exact FailsWith.mapM (fun _ => FailsWith.mapError fun _ => ⟨_, rfl⟩) _
  · exact .ok _
  · intro err h
    cases h
    exact ⟨_, rfl⟩

/-- What is to be executed is only ever refused as a mistake of the client. -/
theorem SourceFields.intoSpec_badRequest (fields : SourceFields) :
    FailsWith ApiError.IsBadRequest fields.intoSpec := by
  unfold intoSpec
  split
  · intro err h
    cases h
    exact ⟨_, rfl⟩
  · intro err h
    cases h
    exact ⟨_, rfl⟩
  · exact (inputsForCode_badRequest _).bind fun _ => .ok _
  · exact (decodeSnapshot_badRequest _).bind fun _ => (inputsForSnapshot_badRequest _).bind
      fun _ => .ok _

theorem ExceptionInput.intoException_badRequest (e : ExceptionInput) :
    FailsWith ApiError.IsBadRequest e.intoException :=
  FailsWith.mapError fun _ => ⟨_, rfl⟩

theorem FutureInput.intoOutcome_badRequest (f : FutureInput) :
    FailsWith ApiError.IsBadRequest f.intoOutcome := by
  unfold intoOutcome
  split
  · exact (FailsWith.mapError fun _ => ⟨_, rfl⟩).bind fun _ => .ok _
  · exact (ExceptionInput.intoException_badRequest _).bind fun _ => .ok _
  · intro err h
    cases h
    exact ⟨_, rfl⟩

/-- So is an answer to a pause: the last arm of `into_input` is never reached. -/
theorem ResumeRequest.intoInput_badRequest (r : ResumeRequest) :
    FailsWith ApiError.IsBadRequest r.intoInput := by
  unfold intoInput
  split
  · intro err h
    cases h
    exact ⟨_, rfl⟩
  · next hset =>
    split
    · exact (FailsWith.mapError fun _ => ⟨_, rfl⟩).bind fun _ => .ok _
    · exact (ExceptionInput.intoException_badRequest _).bind fun _ => .ok _
    · exact .ok _
    · exact (FailsWith.mapError fun _ => ⟨_, rfl⟩).bind fun _ => .ok _
    · exact .ok _
    · exact (FailsWith.mapM FutureInput.intoOutcome_badRequest _).bind fun _ => .ok _
    · -- one of the six is set
      next hreturn hexception hpending hvalue hundefined hfutures =>
      obtain ⟨returnValue, exception, pending, value, undefined, futures⟩ := r
      have hpending' : pending ≠ some true := by
        rintro rfl
        exact hpending _ _ _ _ _ rfl
      have hundefined' : undefined ≠ some true := by
        rintro rfl
        exact hundefined _ _ _ _ _ rfl
      cases returnValue with
      | some v => exact (hreturn _ _ _ _ _ _ rfl).elim
      | none =>
      cases exception with
      | some e => exact (hexception _ _ _ _ _ _ rfl).elim
      | none =>
      cases value with
      | some v => exact (hvalue _ _ _ _ _ _ rfl).elim
      | none =>
      cases futures with
      | some fs => exact (hfutures _ _ _ _ _ _ rfl).elim
      | none => simp [ResumeRequest.set, hpending', hundefined'] at hset

theorem resumeInput_badRequest {body : Value} {err : ApiError}
    (h : resumeInput body = some (.error err)) : err.IsBadRequest := by
  obtain ⟨r, -, hr⟩ := Option.map_eq_some_iff.mp h
  exact r.intoInput_badRequest err hr

end Mistakes

/-! ## The server's failures -/

section Answers

def Create.error : Create → Option ApiError
  | .done (.error err) => some err
  | _ => none

def Resume.error : Resume → Option ApiError
  | .done (.error err) => some err
  | _ => none

def Status.error : Status → Option ApiError
  | .done (.error err) => some err
  | _ => none

def Delete.error : Delete → Option ApiError
  | .done (.error err) => some err
  | _ => none

def Stateless.error {W R : Type} : Stateless W R → Option ApiError
  | .done (.error err) => some err
  | _ => none

/-- The error the client has been answered. -/
def Handler.error : Handler → Option ApiError
  | .create _ phase => phase.error
  | .resume _ _ phase => phase.error
  | .status _ phase => phase.error
  | .delete _ phase => phase.error
  | .run _ phase => phase.error
  | .compile _ phase => phase.error

end Answers

section Causes

variable [Crates]

/-- The entry cannot be rendered as it is: it is paused and its progress is out, or it holds what
cannot be written as JSON. -/
def AppState.Unshown (app : AppState) (id : Uuid) : Prop :=
  ∃ e, app.sessions.entries id = some e ∧ ¬ e.Shows

/-- The program comes to a value that monty cannot encode. -/
def SourceFields.Unencoded (fields : SourceFields) (bounds : LimitBounds) : Prop :=
  ∃ spec run inputs entered lag value output stats,
    fields.intoSpec = .ok spec ∧ spec.program = .ok (run, inputs) ∧
    (runToCompletion run inputs (resolveLimits fields.limits bounds) entered lag).1 =
      some (.Completed value output stats) ∧ ∀ v, Crates.toValue value ≠ .ok v

/-- The source compiles to what monty cannot dump. -/
def CompileRequest.Undumped (request : CompileRequest) : Prop :=
  ∃ run, Crates.compile request.code (request.filename.getD DEFAULT_FILENAME)
    (request.inputs.getD []) = .ok run ∧ ∀ bytes, Crates.dump run ≠ .ok bytes

/-- The server is about to fail a request: its task panicked or was cancelled, the session it has
created is gone, or what it has to show cannot be shown. -/
def Handler.Breaks (app : AppState) : Handler → Prop
  | .create _ (.executing _ _ (.finished none)) | .resume _ _ (.executing _ (.finished none))
  | .run _ (.executing (.finished none)) | .compile _ (.executing (.finished none)) => True
  | .create _ (.inserted id) => id ∉ app.sessions.sessions
  | .create _ (.fetched id) | .resume id _ .stored | .status id .found => app.Unshown id
  | .run fields (.executing (.finished (some (.error _)))) => fields.Unencoded app.config.limits
  | .compile request (.executing (.finished (some (.error _)))) => request.Undumped
  | _ => False

theorem SourceSpec.run_error {spec : SourceSpec} {limits : ResolvedLimits} {now : Instant}
    {lag : Lag} {err : ApiError} (h : (spec.run limits now lag).1 = some (.error err)) :
    err = .Internal ∧ ∃ run inputs value output stats, spec.program = .ok (run, inputs) ∧
      (runToCompletion run inputs limits now lag).1 = some (.Completed value output stats) ∧
      ∀ v, Crates.toValue value ≠ .ok v := by
  unfold run at h
  split at h
  · cases h
  · next run inputs hprogram =>
    obtain ⟨result, hresult, hencode⟩ := Option.map_eq_some_iff.mp h
    cases result with
    | Completed value output stats =>
      unfold Outcome.fromExecResult at hencode
      dsimp only at hencode
      split at hencode
      · next hvalue =>
        cases hencode
        refine ⟨rfl, run, inputs, value, output, stats, hprogram, hresult, ?_⟩
        intro v hv
        obtain ⟨v', hv'⟩ := montyToJson_ok_iff.mpr ⟨v, hv⟩
        cases hvalue.symm.trans hv'
      · cases hencode
    | Failed exception breach output stats => cases hencode

theorem CompileRequest.work_error {request : CompileRequest} {err : ApiError}
    (h : request.work = .error err) : err = .Internal ∧ request.Undumped := by
  unfold work at h
  dsimp only at h
  split at h
  · cases h
  · next run hrun =>
    split at h
    · next hdump =>
      cases h
      refine ⟨rfl, run, hrun, ?_⟩
      intro bytes hbytes
      cases hdump.symm.trans hbytes
    · cases h

/-- What `run` is asked for is only refused as a mistake of the client. -/
theorem RunCode.work_badRequest (fields : SourceFields) (limits : ResolvedLimits) :
    Rounds.FailsWith ApiError.IsBadRequest
      (do return (← fields.intoSpec, limits) : ApiResult (SourceSpec × ResolvedLimits)) :=
  fields.intoSpec_badRequest.bind fun _ => .ok _

theorem RunCode.unencoded {config : Config} {cancelled : Prop} {fields : SourceFields}
    {err : ApiError}
    (hown : (Handler.run fields (.executing (.finished (some (.error err))))).Own config
      cancelled) : fields.Unencoded config.limits := by
  obtain ⟨⟨spec, limits⟩, hwork, -, hresult⟩ := hown
  rcases hresult _ rfl with ⟨-, hnone⟩ | ⟨entered, lag, hrun⟩
  · cases hnone
  · obtain ⟨-, run, inputs, value, output, stats, hprogram, hcompleted, hnot⟩ :=
      SourceSpec.run_error hrun
    cases hspec : fields.intoSpec with
    | error err =>
      rw [hspec] at hwork
      cases hwork
    | ok spec' =>
      rw [hspec] at hwork
      cases hwork
      exact ⟨spec, run, inputs, entered, lag, value, output, stats, hspec, hprogram, hcompleted,
        hnot⟩

theorem CompileCode.undumped {config : Config} {cancelled : Prop} {request : CompileRequest}
    {err : ApiError}
    (hown : (Handler.compile request (.executing (.finished (some (.error err))))).Own config
      cancelled) : request.Undumped := by
  obtain ⟨request', hwork, -, hresult⟩ := hown
  cases hwork
  rcases hresult _ rfl with ⟨-, hnone⟩ | ⟨entered, lag, hrun⟩
  · cases hnone
  · exact (CompileRequest.work_error (Option.some.inj hrun)).2

/-- **A stored entry fails to render** exactly if it does not show. -/
theorem render_internal_iff {id : Uuid} {e : SessionEntry} {now : Instant} (he : e.Consistent) :
    render id e now = .error .Internal ↔ ¬ e.Shows := by
  rw [← SessionEntry.shows_iff he, ← render_ok_iff id e now]
  cases hrender : render id e now with
  | ok view => simp
  | error err =>
    rw [render_error hrender]
    simp

variable {app app' : AppState} {i : RequestId} {caller : String} {m : Move}

/-- What cannot be shown is answered with a 500. -/
theorem AppState.unshown_iff {id : Uuid} {e : SessionEntry} {now : Instant}
    (hconsistent : ∀ id e, app.sessions.entries id = some e → e.Consistent)
    (he : app.sessions.entries id = some e) :
    render id e now = .error .Internal ↔ app.Unshown id := by
  rw [render_internal_iff (hconsistent id e he)]
  constructor
  · intro hnot
    exact ⟨e, he, hnot⟩
  · rintro ⟨e', he', hnot⟩
    cases he.symm.trans he'
    exact hnot

omit [Crates] in
theorem Create.error_map {x : ApiResult SessionView} {err : ApiError} :
    (Create.done (x.map .Created)).error = some err ↔ x = .error err := by
  cases x <;> simp [Create.error, Except.map]

omit [Crates] in
theorem Resume.error_done {x : ApiResult SessionView} {err : ApiError} :
    (Resume.done x).error = some err ↔ x = .error err := by
  cases x <;> simp [Resume.error]

omit [Crates] in
theorem Status.error_done {x : ApiResult SessionView} {err : ApiError} :
    (Status.done x).error = some err ↔ x = .error err := by
  cases x <;> simp [Status.error]

theorem Create.error_step {request : CreateSessionRequest} {phase phase' : Create}
    (hok : (Handler.create request phase).Ok app caller)
    (hconsistent : ∀ id e, app.sessions.entries id = some e → e.Consistent)
    (h : phase.step app i caller request m = some (app', phase')) :
    phase'.error = some .Internal ↔
      m = .advance ∧ (Handler.create request phase).Breaks app := by
  unfold Create.step at h
  split at h
  · -- `advance`
    rw [and_iff_right rfl]
    unfold Create.advance at h
    split at h
    · cases h
      show _ ↔ False
      split
      · next err hspec =>
        obtain ⟨message, rfl⟩ := request.source.intoSpec_badRequest err hspec
        simp [Create.error]
      · simp [Create.error]
    · cases h
      exact iff_of_true rfl trivial
    · cases h
      exact iff_of_false nofun not_false
    · cases h
      refine iff_of_false ?_ not_false
      split
      · nofun
      · nofun
    · next id =>
      cases h
      obtain ⟨e, he, hprincipal⟩ := hok
      show _ ↔ id ∉ app.sessions.sessions
      split
      · next hget =>
        apply iff_of_true rfl
        intro hmem
        have howned := SessionStore.owned_iff.mpr ⟨hmem, e, he, hprincipal⟩
        cases hget.symm.trans (if_pos howned)
      · next hget =>
        obtain ⟨howned, -⟩ := SessionStore.get_eq_some.mp hget
        exact iff_of_false nofun (not_not_intro (SessionStore.owned_iff.mp howned).1)
    · next id =>
      obtain ⟨e, he, h⟩ := Option.bind_eq_some_iff.mp h
      cases h
      rw [error_map]
      exact AppState.unshown_iff hconsistent he
    · cases h
  · -- `insert`
    unfold Create.insert at h
    split at h
    · split at h <;> cases h
      exact iff_of_false nofun fun h => nomatch h.1
    · cases h
  · cases h
    exact iff_of_false nofun fun h => nomatch h.1
  · obtain ⟨_, -, h⟩ := Option.bind_eq_some_iff.mp h
    cases h
    exact iff_of_false nofun fun h => nomatch h.1
  · next hadvance _ _ =>
    obtain ⟨_, -, h⟩ := Option.bind_eq_some_iff.mp h
    cases h
    exact iff_of_false nofun fun h => hadvance h.1
  · cases h

theorem Resume.error_step {id : Uuid} {body : Value} {phase phase' : Resume}
    (hconsistent : ∀ id e, app.sessions.entries id = some e → e.Consistent)
    (h : phase.step app i caller id body m = some (app', phase')) :
    phase'.error = some .Internal ↔
      m = .advance ∧ (Handler.resume id body phase).Breaks app := by
  unfold Resume.step at h
  split at h
  · -- `advance`
    rw [and_iff_right rfl]
    unfold Resume.advance at h
    split at h
    · cases h
      refine iff_of_false ?_ not_false
      split
      · nofun
      · next err hinput =>
        obtain ⟨message, rfl⟩ := resumeInput_badRequest hinput
        nofun
      · split
        · nofun
        · nofun
    · obtain ⟨e, he, h⟩ := Option.bind_eq_some_iff.mp h
      split at h
      · next err _ =>
        cases h
        refine iff_of_false ?_ not_false
        cases err <;> nofun
      · cases h
        exact iff_of_false nofun not_false
    · cases h
      exact iff_of_true rfl trivial
    · obtain ⟨e, he, h⟩ := Option.bind_eq_some_iff.mp h
      cases h
      exact iff_of_false nofun not_false
    · obtain ⟨e, he, h⟩ := Option.bind_eq_some_iff.mp h
      cases h
      exact iff_of_false nofun not_false
    · obtain ⟨e, he, h⟩ := Option.bind_eq_some_iff.mp h
      cases h
      rw [error_done]
      exact AppState.unshown_iff hconsistent he
    · cases h
  · cases h
    exact iff_of_false nofun fun h => nomatch h.1
  · unfold Resume.finish at h
    obtain ⟨e, he, h⟩ := Option.bind_eq_some_iff.mp h
    dsimp only at h
    split at h <;> cases h
    exact iff_of_false nofun fun h => nomatch h.1
  · next hadvance _ =>
    obtain ⟨_, -, h⟩ := Option.bind_eq_some_iff.mp h
    cases h
    exact iff_of_false nofun fun h => hadvance h.1
  · cases h

theorem Status.error_step {id : Uuid} {phase phase' : Status}
    (hconsistent : ∀ id e, app.sessions.entries id = some e → e.Consistent)
    (h : phase.step app caller id m = some (app', phase')) :
    phase'.error = some .Internal ↔ m = .advance ∧ (Handler.status id phase).Breaks app := by
  unfold Status.step at h
  split at h
  · cases h
    refine iff_of_false ?_ And.right
    split
    · nofun
    · nofun
  · obtain ⟨e, he, h⟩ := Option.bind_eq_some_iff.mp h
    cases h
    rw [error_done, and_iff_right rfl]
    exact AppState.unshown_iff hconsistent he
  · cases h
    exact iff_of_false nofun And.right
  · cases h

omit [Crates] in
theorem Delete.error_step {id : Uuid} {phase phase' : Delete}
    (h : phase.step app caller id m = some (app', phase')) : phase'.error ≠ some .Internal := by
  unfold Delete.step at h
  split at h
  · cases h
    split
    · nofun
    · nofun
  · cases h
    split
    · nofun
    · nofun
  · cases h
    nofun
  · cases h

omit [Crates] in
/-- A stateless endpoint fails where its task has, or where its work has come to an error. -/
theorem Stateless.error_step {W R : Type} {cancelled : Prop} {work : ApiResult W}
    {run : Instant → Lag → W → Option (ApiResult R) × Instant} {phase phase' : Stateless W R}
    (hwork : ∀ err, work = .error err → err.IsBadRequest) (hown : phase.Own cancelled work run)
    (hrun : ∀ entered lag w err, (run entered lag w).1 = some (.error err) → err = .Internal)
    (h : phase.step app work run m = some (app', phase')) :
    phase'.error = some .Internal ↔ m = .advance ∧
      (phase = .executing (.finished none) ∨
        ∃ err, phase = .executing (.finished (some (.error err)))) := by
  unfold Stateless.step at h
  split at h
  · cases h
    refine iff_of_false ?_ (by simp)
    split
    · next err =>
      obtain ⟨message, rfl⟩ := hwork err rfl
      nofun
    · nofun
  · cases h
    exact iff_of_true rfl ⟨rfl, .inl rfl⟩
  · next result =>
    cases h
    obtain ⟨w, -, -, hresult⟩ := hown
    rcases hresult (some result) rfl with ⟨-, hnone⟩ | ⟨entered, lag, hcame⟩
    · cases hnone
    · cases result with
      | ok r => exact iff_of_false nofun (by simp)
      | error err =>
        cases hrun entered lag w err hcame
        exact iff_of_true rfl ⟨rfl, .inr ⟨_, rfl⟩⟩
  · cases h
    exact iff_of_false nofun fun h => nomatch h.1
  · obtain ⟨_, -, h⟩ := Option.bind_eq_some_iff.mp h
    cases h
    exact iff_of_false nofun fun h => nomatch h.1
  · next spawn _ _ _ =>
    obtain ⟨_, hmove, h⟩ := Option.bind_eq_some_iff.mp h
    cases h
    refine iff_of_false nofun ?_
    rintro ⟨rfl, -⟩
    cases spawn <;> cases hmove
  · cases h

/-- A step of a handler answers with a 500 exactly if the handler breaks. -/
theorem Handler.error_step {config : Config} {cancelled : Prop} {handler handler' : Handler}
    (hok : handler.Ok app caller)
    (hconsistent : ∀ id e, app.sessions.entries id = some e → e.Consistent)
    (hown : handler.Own config cancelled) (hconfig : app.config = config)
    (h : handler.step app i caller m = some (app', handler')) :
    handler'.error = some .Internal ↔ m = .advance ∧ handler.Breaks app := by
  subst hconfig
  cases handler with
  | create request phase =>
    obtain ⟨⟨app'', phase'⟩, hstep, h⟩ := Option.bind_eq_some_iff.mp h
    cases h
    exact Create.error_step hok hconsistent hstep
  | resume id body phase =>
    obtain ⟨⟨app'', phase'⟩, hstep, h⟩ := Option.bind_eq_some_iff.mp h
    cases h
    exact Resume.error_step hconsistent hstep
  | status id phase =>
    obtain ⟨⟨app'', phase'⟩, hstep, h⟩ := Option.bind_eq_some_iff.mp h
    cases h
    exact Status.error_step hconsistent hstep
  | delete id phase =>
    obtain ⟨⟨app'', phase'⟩, hstep, h⟩ := Option.bind_eq_some_iff.mp h
    cases h
    exact iff_of_false (Delete.error_step hstep) And.right
  | run fields phase =>
    obtain ⟨⟨app'', phase'⟩, hstep, h⟩ := Option.bind_eq_some_iff.mp h
    cases h
    have hfails := Stateless.error_step (RunCode.work_badRequest fields _) hown
      (fun _ _ _ _ hrun => (SourceSpec.run_error hrun).1) hstep
    refine hfails.trans (and_congr_right fun _ => ⟨?_, ?_⟩)
    · rintro (rfl | ⟨err, rfl⟩)
      · trivial
      · exact RunCode.unencoded hown
    · intro hbreaks
      cases phase with
      | executing spawn =>
        cases spawn with
        | finished result =>
          cases result with
          | none => exact .inl rfl
          | some result =>
            cases result with
            | ok outcome => exact hbreaks.elim
            | error err => exact .inr ⟨err, rfl⟩
        | _ => exact hbreaks.elim
      | _ => exact hbreaks.elim
  | compile request phase =>
    obtain ⟨⟨app'', phase'⟩, hstep, h⟩ := Option.bind_eq_some_iff.mp h
    cases h
    have hrun : ∀ (entered : Instant) (lag : Lag) (request : CompileRequest) (err : ApiError),
        some request.work = some (.error err) → err = .Internal := by
      intro _ _ request err hwork
      exact (CompileRequest.work_error (Option.some.inj hwork)).1
    have hwork : ∀ err, (.ok request : ApiResult CompileRequest) = .error err →
        err.IsBadRequest := nofun
    have hfails := Stateless.error_step hwork hown hrun hstep
    refine hfails.trans (and_congr_right fun _ => ⟨?_, ?_⟩)
    · rintro (rfl | ⟨err, rfl⟩)
      · trivial
      · exact CompileCode.undumped hown
    · intro hbreaks
      cases phase with
      | executing spawn =>
        cases spawn with
        | finished result =>
          cases result with
          | none => exact .inl rfl
          | some result =>
            cases result with
            | ok response => exact hbreaks.elim
            | error err => exact .inr ⟨err, rfl⟩
        | _ => exact hbreaks.elim
      | _ => exact hbreaks.elim

end Causes

/-! ## When a 500 is sent -/

/-- What has been answered is over. -/
theorem Handler.rank_of_error {handler : Handler} {err : ApiError}
    (h : handler.error = some err) : handler.rank = handler.budget := by
  cases handler with
  | create request phase =>
    cases phase with
    | done response => rfl
    | _ => cases h
  | resume id body phase =>
    cases phase with
    | done response => rfl
    | _ => cases h
  | status id phase =>
    cases phase with
    | done response => rfl
    | _ => cases h
  | delete id phase =>
    cases phase with
    | done response => rfl
    | _ => cases h
  | run fields phase =>
    cases phase with
    | done response => rfl
    | _ => cases h
  | compile request phase =>
    cases phase with
    | done response => rfl
    | _ => cases h

namespace Server

variable [Crates]

omit [Crates] in
/-- Request `i` has been answered with a 500. -/
def AnsweredInternal (s : Server) (i : RequestId) : Prop :=
  ∃ r, s.requests[i]? = some r ∧ r.handler.error = some .Internal

/-- An answer stays. -/
theorem AnsweredInternal.step {s s' : Server} {i : RequestId} {a : Action}
    (answered : s.AnsweredInternal i) (h : s.step a = some s') : s'.AnsweredInternal i := by
  obtain ⟨r, hr, herror⟩ := answered
  cases a with
  | tick d =>
    cases h
    exact ⟨r, hr, herror⟩
  | arrive caller call =>
    cases h
    exact ⟨r, arrived_request.mpr (.inl hr), herror⟩
  | move j m =>
    obtain ⟨r', hr', h⟩ := Option.bind_eq_some_iff.mp h
    obtain ⟨⟨app, handler⟩, hstep, h⟩ := Option.bind_eq_some_iff.mp h
    cases h
    by_cases hij : i = j
    · subst hij
      cases hr.symm.trans hr'
      -- a handler that has answered has nowhere to go
      obtain ⟨hrank, hbudget⟩ := Handler.step_rank hstep
      have hle := handler.rank_le_budget
      rw [hbudget, ← Handler.rank_of_error herror] at hle
      exact (Nat.not_lt.mpr hle hrank).elim
    · exact ⟨r, (advanced_request hr').mpr (.inr ⟨hij, hr⟩), herror⟩
  | collect =>
    cases step_cases h with
    | collect _ => exact ⟨r, hr, herror⟩
  | evict =>
    cases step_cases h with
    | evict _ => exact ⟨r, hr, herror⟩

/-- **Step lemma**: a request that is not answered yet is answered with a 500 in the step in which
its handler breaks. -/
theorem answeredInternal_step {config : Config} {before : List Action} {s s' : Server}
    (h : Run.exec step (.new config) before = some s) {i : RequestId} {m : Move} {r : Request}
    (hr : s.requests[i]? = some r) (hstep : s.step (.move i m) = some s') :
    s'.AnsweredInternal i ↔ m = .advance ∧ r.handler.Breaks s.app := by
  have hreachable : s.Reachable config := ⟨before, h⟩
  have wf := hreachable.wf
  have hown := own_of_exec True h (fun _ _ _ => trivial) hr
  obtain ⟨r', hr', hmove⟩ := Option.bind_eq_some_iff.mp hstep
  cases hr.symm.trans hr'
  obtain ⟨⟨app, handler⟩, hhandler, hmove⟩ := Option.bind_eq_some_iff.mp hmove
  cases hmove
  have hconfig : s.app.config = config := hreachable.resolved.fixed
  rw [← Handler.error_step (wf.handlers i r hr) (fun id e he => wf.consistent he) hown hconfig
    hhandler]
  constructor
  · rintro ⟨r', hr', herror⟩
    rcases (advanced_request hr).mp hr' with ⟨-, rfl⟩ | ⟨hne, -⟩
    · exact herror
    · exact (hne rfl).elim
  · intro herror
    exact ⟨_, (advanced_request hr).mpr (.inl ⟨rfl, rfl⟩), herror⟩

end Server

/-- **Exactly when a 500 is sent.** In every run, a request has been answered with an internal
error if and only if some step took its handler on from where it breaks: its task had panicked or
been cancelled; the session it had just created was gone from the store; the entry it was to show
could not be rendered, being paused without its progress or holding what cannot be written as JSON;
or its program came to a value monty cannot encode, or its source to what monty cannot dump. No body
and no other state of the server leads to one, and none of the arms that nothing is meant to reach
is reached. -/
theorem internal_error_iff [Crates] (config : Config) {as : List Action} {s : Server}
    (h : Run.exec Server.step (.new config) as = some s) (i : RequestId) :
    s.AnsweredInternal i ↔ ∃ before after u r, as = before ++ .move i .advance :: after ∧
      Run.exec Server.step (.new config) before = some u ∧ u.requests[i]? = some r ∧
      r.handler.Breaks u.app := by
  constructor
  · intro hanswered
    have hnew : ¬ (Server.new config).AnsweredInternal i := by
      rintro ⟨r, hr, -⟩
      simp [Server.new] at hr
    obtain ⟨before, a, after, u, v, rfl, hbefore, hstep, -, hnot, hv⟩ :=
      Run.exists_turn (P := fun s => s.AnsweredInternal i) h hnew hanswered
    obtain ⟨r', hr', herror⟩ := id hv
    rcases Server.request_before hstep hr' with hr | ⟨caller, call, rfl⟩ | ⟨m, r, rfl, hr, -, -⟩
    · exact (hnot ⟨r', hr, herror⟩).elim
    · cases call <;> cases herror
    · obtain ⟨rfl, hbreaks⟩ := (Server.answeredInternal_step hbefore hr hstep).mp hv
      exact ⟨before, after, u, r, rfl, hbefore, hr, hbreaks⟩
  · rintro ⟨before, after, u, r, rfl, hbefore, hr, hbreaks⟩
    obtain ⟨u', hu', hrest⟩ := Run.exec_append.mp h
    cases hbefore.symm.trans hu'
    obtain ⟨v, hstep, hafter⟩ := Run.exec_cons.mp hrest
    have hv := (Server.answeredInternal_step hbefore hr hstep).mpr ⟨rfl, hbreaks⟩
    exact Run.exec_invariant (I := fun s => s.AnsweredInternal i)
      (fun _ _ _ hanswered hstep => hanswered.step hstep) hv hafter

/-- Session 7 is read while request 1 resumes it. -/
def Sample.readWhileTaken : List Action :=
  opening ++ taking 1 ++ [.arrive "owner" (.status 7), .move 2 .advance, .move 2 .advance]

/-- The progress is out when the session is read. -/
theorem internal_error_iff_read :
    ∃ (_ : Crates) (s : Server),
      Run.exec Server.step (.new Sample.config) Sample.readWhileTaken = some s ∧
      ∃ before after u r, Sample.readWhileTaken = before ++ .move 2 .advance :: after ∧
        Run.exec Server.step (.new Sample.config) before = some u ∧ u.requests[2]? = some r ∧
        r.handler.Breaks u.app := by
  let _ := Sample.crates
  have hrun : (Run.exec Server.step (.new Sample.config) Sample.readWhileTaken).any
      (fun s => s.requests[2]?.any fun r => r.handler.error = some .Internal) = true := by decide
  obtain ⟨s, hs, hrun⟩ := (Option.any_eq_true _ _).mp hrun
  obtain ⟨r, hr, herror⟩ := (Option.any_eq_true _ _).mp hrun
  exact ⟨Sample.crates, s, hs,
    (internal_error_iff Sample.config hs 2).mp ⟨r, hr, of_decide_eq_true herror⟩⟩

end MontyServer
