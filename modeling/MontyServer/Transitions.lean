import MontyServer.Server

/-!
# What each step can do

One inversion for every handler: the ways its step function can succeed, with the guards that held.
The invariants are proved from these and never unfold a step function again.
-/

namespace MontyServer

/-! ## `spawn_execution` -/

namespace Spawn

variable {W R : Type}

/-- The work a call still carries, and whether its handler waits for it. -/
def work : Spawn W R → Option (W × Bool)
  | .queued work | .admitted work => some (work, true)
  | .spawned work awaited | .running work _ awaited => some (work, awaited)
  | .finished _ | .dropped => none

/-- What a move other than a return does to a call: the work is passed on, or goes on without its
handler, or is gone. -/
inductive Moved (m : Move) : Spawn W R → Spawn W R → Prop
  | wait {s s' : Spawn W R} {work : W} {awaited : Bool} : m = .acquire ∨ m = .spawn ∨ m = .start →
    s.work = some (work, awaited) → s'.work = some (work, awaited) → Moved m s s'
  | leave {s s' : Spawn W R} {work : W} : m = .drop →
    s.work = some (work, true) → s'.work = some (work, false) → Moved m s s'
  | gone {s s' : Spawn W R} : m = .drop ∨ m = .abort → s ≠ .dropped →
    s' = .finished none ∨ s' = .dropped → Moved m s s'

theorem Moved.ne_advance {m : Move} {s s' : Spawn W R} (h : Moved m s s') : m ≠ .advance := by
  rintro rfl
  cases h with
  | wait hm => rcases hm with hm | hm | hm <;> cases hm
  | leave hm => cases hm
  | gone hm => rcases hm with hm | hm <;> cases hm

theorem settled_none (awaited : Bool) :
    (settled awaited none : Spawn W R) = .finished none ∨
      (settled awaited none : Spawn W R) = .dropped := by
  cases awaited
  · exact .inr rfl
  · exact .inl rfl

theorem move_cases {s s' : Spawn W R} {m : Move} {free free' : Nat} {now : Instant}
    (h : s.move free now m = some (free', s')) : Moved m s s' := by
  unfold move at h
  split at h
  · split at h
    · cases h; exact .wait (.inl rfl) rfl rfl
    · cases h
  · cases h; exact .wait (.inr (.inl rfl)) rfl rfl
  · cases h; exact .wait (.inr (.inr rfl)) rfl rfl
  · cases h; exact .gone (.inr rfl) nofun (settled_none _)
  · cases h; exact .gone (.inl rfl) nofun (.inr rfl)
  · cases h; exact .gone (.inl rfl) nofun (.inr rfl)
  · cases h; exact .leave rfl rfl rfl
  · cases h; exact .leave rfl rfl rfl
  · cases h; exact .gone (.inl rfl) nofun (.inr rfl)
  · cases h

theorem finish_cases {s s' : Spawn W R} {free free' : Nat} {now entered : Instant}
    {run : W → Option R × Instant} (h : s.finish free now entered run = some (free', s')) :
    ∃ work since awaited result ended, s = .running work since awaited ∧
      run work = (result, ended) ∧ since ≤ entered ∧ ended ≤ now ∧ s' = settled awaited result := by
  unfold finish at h
  split at h
  · next work since awaited =>
    rcases hrun : run work with ⟨result, ended⟩
    simp only [hrun] at h
    split at h
    · next htime =>
      cases h
      exact ⟨work, since, awaited, result, ended, rfl, hrun, htime.1, htime.2, rfl⟩
    · cases h
  · cases h

end Spawn

variable [Crates]

/-! ## `create` -/

/-- A tracker and a step that a start has returned. -/
def FromStart (tracker : StatsTracker) (step : SessionStep) : Prop :=
  ∃ (spec : SourceSpec) (limits : ResolvedLimits) (now : Instant) (lag : Lag) (ended : Instant),
    spec.start limits now lag = (some (.Started tracker step), ended)

/-- The phases of a `create` that has not passed the length check or has nothing left to do. -/
def Create.Quiet : Create → Prop
  | .checked .. | .inserted _ | .fetched _ => False
  | .executing _ _ (.finished (some (.Started tracker step))) => FromStart tracker step
  | _ => True

/-- The phases of a `create` that has inserted its session. -/
def Create.Past : Create → Prop
  | .inserted _ | .fetched _ | .done _ => True
  | _ => False

inductive Create.Trans (app : AppState) (i : RequestId) (caller : String) :
    Create → Move → AppState → Create → Prop
  | quiet {phase phase' : Create} {m : Move} (free : Nat) :
    (∀ ttl tracker step, phase ≠ .checked ttl tracker step) → phase'.Quiet →
    (phase.Past → phase'.Past) →
    Trans app i caller phase m (app.setConcurrency free) phase'
  | check {ttl : Duration} {limits : ResolvedLimits} {tracker : StatsTracker} {step : SessionStep} :
    app.sessions.hasRoom = true →
    Trans app i caller (.executing ttl limits (.finished (some (.Started tracker step)))) .advance
      app (.checked ttl tracker step)
  | insert {ttl : Duration} {tracker : StatsTracker} {step : SessionStep} {id : Uuid} :
    app.sessions.entries id = none →
    Trans app i caller (.checked ttl tracker step) (.insert id)
      ((app.insert id (.new caller ttl tracker step app.now)).extend id ⟨i, none, step, tracker⟩)
      (.inserted id)
  | fetch {id : Uuid} : app.sessions.owned id caller = true →
    Trans app i caller (.inserted id) .advance app (.fetched id)

omit [Crates] in
theorem SessionStore.get_eq_some {s : SessionStore} {id id' : Uuid} {caller : String} :
    s.get id caller = some id' ↔ s.owned id caller = true ∧ id' = id := by
  unfold SessionStore.get
  split
  · next howned => exact ⟨fun h => ⟨howned, (Option.some.inj h).symm⟩, fun h => by rw [h.2]⟩
  · next howned => exact ⟨fun h => (nomatch h), fun h => absurd h.1 howned⟩

theorem Create.step_cases {app app' : AppState} {i : RequestId} {caller : String}
    {request : CreateSessionRequest} {m : Move} {phase phase' : Create}
    (h : phase.step app i caller request m = some (app', phase')) :
    Create.Trans app i caller phase m app' phase' := by
  unfold Create.step at h
  split at h
  · -- `advance`
    unfold Create.advance at h
    split at h
    · cases h
      refine .quiet app.concurrency (by simp) ?_ (fun h => h.elim)
      split <;> trivial
    · cases h
      exact .quiet app.concurrency (by simp) trivial (fun h => h.elim)
    · cases h
      exact .quiet app.concurrency (by simp) trivial (fun h => h.elim)
    · cases h
      split
      · next hroom => exact .check hroom
      · exact .quiet app.concurrency (by simp) trivial (fun h => h.elim)
    · next id =>
      cases h
      cases hget : app.sessions.get id caller with
      | none => exact .quiet app.concurrency (by simp) trivial (fun _ => trivial)
      | some id' =>
        obtain ⟨howned, rfl⟩ := SessionStore.get_eq_some.mp hget
        exact .fetch howned
    · obtain ⟨e, he, h⟩ := Option.bind_eq_some_iff.mp h
      cases h
      exact .quiet app.concurrency (by simp) trivial (fun _ => trivial)
    · cases h
  · -- `insert`
    unfold Create.insert at h
    split at h
    · split at h
      · cases h
      · next hnone =>
        cases h
        exact .insert hnone
    · cases h
  · cases h
    exact .quiet app.concurrency (by simp) trivial (fun h => h.elim)
  · obtain ⟨⟨free, spawn'⟩, hs, h⟩ := Option.bind_eq_some_iff.mp h
    cases h
    obtain ⟨spec, since, awaited, result, ended, rfl, hrun, -, -, rfl⟩ := Spawn.finish_cases hs
    refine .quiet free (by simp) ?_ (fun h => h.elim)
    match awaited, result with
    | false, _ => trivial
    | true, none => trivial
    | true, some (.CompileFailed _) => trivial
    | true, some (.Started tracker step) => exact ⟨_, _, _, _, _, hrun⟩
  · obtain ⟨⟨free, spawn'⟩, hs, h⟩ := Option.bind_eq_some_iff.mp h
    cases h
    refine .quiet free (by simp) ?_ (fun h => h.elim)
    cases Spawn.move_cases hs with
    | wait _ _ hw => cases spawn' <;> trivial
    | leave _ _ hw => cases spawn' <;> trivial
    | gone _ _ hg => rcases hg with rfl | rfl <;> trivial
  · cases h

/-! ## `resume` -/

/-- The phases of a resume that is turned away before it looks at a session. -/
def Resume.TurnedAway : Resume → Prop
  | .done (.error _) | .rejected | .dropped => True
  | _ => False

inductive Resume.Trans (app : AppState) (i : RequestId) (caller : String) (id : Uuid)
    (body : Value) : Resume → Move → AppState → Resume → Prop
  | turnAway {phase' : Resume} {m : Move} : phase'.TurnedAway →
    Trans app i caller id body .received m app phase'
  | lookup {input : ResumeInput} : resumeInput body = some (.ok input) →
    app.sessions.owned id caller = true →
    Trans app i caller id body .received .advance app (.found input)
  | refuse {input : ResumeInput} {e : SessionEntry} {err : AcquireError} :
    app.sessions.entries id = some e → e.acquireForResume = .error err →
    Trans app i caller id body (.found input) .advance app (.done (.error (acquireError err)))
  | take {input : ResumeInput} {e : SessionEntry} {p : RunProgress} :
    app.sessions.entries id = some e → e.terminal = false → e.progress = some p →
    Trans app i caller id body (.found input) .advance
      (app.setEntry id { e with progress := none }) (.executing input (.queued p))
  | spawn {input : ResumeInput} {spawn spawn' : Spawn RunProgress ResumeResult} {m : Move}
    {free : Nat} : spawn.Moved m spawn' →
    Trans app i caller id body (.executing input spawn) m (app.setConcurrency free)
      (.executing input spawn')
  | ran {input : ResumeInput} {e : SessionEntry} {p : RunProgress} {since entered : Instant}
    {lag : Lag} {awaited : Bool} {result : Option ResumeResult} {w : World} :
    app.sessions.entries id = some e →
    resumeSession p e.tracker input entered lag = (result, w) →
    Trans app i caller id body (.executing input (.running p since awaited)) (.finish entered lag)
      (((app.setEntry id { e with tracker := w.tracker }).apply id (p, e.tracker)
        input).setConcurrency (app.concurrency + 1))
      (.executing input (.settled awaited result))
  | fail {input : ResumeInput} :
    Trans app i caller id body (.executing input (.finished none)) .advance app
      (.done (.error .Internal))
  | store {input : ResumeInput} {e : SessionEntry} {step : SessionStep} :
    app.sessions.entries id = some e →
    Trans app i caller id body (.executing input (.finished (some (.Stepped step)))) .advance
      ((app.setEntry id (e.storeStep step app.now)).extend id ⟨i, some input, step, e.tracker⟩)
      .stored
  | restore {input : ResumeInput} {e : SessionEntry} {p : RunProgress} {error : ResumeMismatch} :
    app.sessions.entries id = some e →
    Trans app i caller id body (.executing input (.finished (some (.Mismatch p error)))) .advance
      (app.setEntry id (e.restore p)) (.done (.error (.BadRequest error.message)))
  | answer {e : SessionEntry} : app.sessions.entries id = some e →
    Trans app i caller id body .stored .advance app (.done (render id e app.now))

omit [Crates] in
theorem SessionEntry.acquireForResume_ok {e e' : SessionEntry} {p : RunProgress} :
    e.acquireForResume = .ok (p, e') ↔
      e.terminal = false ∧ e.progress = some p ∧ e' = { e with progress := none } := by
  unfold SessionEntry.acquireForResume
  cases e.terminal with
  | true => simp
  | false =>
    cases e.progress with
    | none => simp
    | some q => simp [eq_comm]

theorem Resume.step_cases {app app' : AppState} {i : RequestId} {caller : String} {id : Uuid}
    {body : Value} {m : Move} {phase phase' : Resume}
    (h : phase.step app i caller id body m = some (app', phase')) :
    Resume.Trans app i caller id body phase m app' phase' := by
  unfold Resume.step at h
  split at h
  · -- `advance`
    unfold Resume.advance at h
    split at h
    · cases h
      split
      · exact .turnAway trivial
      · exact .turnAway trivial
      · next input hinput =>
        split
        · exact .turnAway trivial
        · next id' hget => exact .lookup hinput (SessionStore.get_eq_some.mp hget).1
    · obtain ⟨e, he, h⟩ := Option.bind_eq_some_iff.mp h
      split at h
      · next err herr =>
        cases h
        exact .refuse he herr
      · next p e' hok =>
        cases h
        obtain ⟨hterminal, hp, rfl⟩ := SessionEntry.acquireForResume_ok.mp hok
        exact .take he hterminal hp
    · cases h
      exact .fail
    · obtain ⟨e, he, h⟩ := Option.bind_eq_some_iff.mp h
      cases h
      exact .store he
    · obtain ⟨e, he, h⟩ := Option.bind_eq_some_iff.mp h
      cases h
      exact .restore he
    · obtain ⟨e, he, h⟩ := Option.bind_eq_some_iff.mp h
      cases h
      exact .answer he
    · cases h
  · cases h
    exact .turnAway trivial
  · -- `finish`
    unfold Resume.finish at h
    obtain ⟨e, he, h⟩ := Option.bind_eq_some_iff.mp h
    dsimp only at h
    split at h
    · cases h
      exact .ran he rfl
    · cases h
  · obtain ⟨⟨free, spawn'⟩, hs, h⟩ := Option.bind_eq_some_iff.mp h
    cases h
    exact .spawn (Spawn.move_cases hs)
  · cases h

/-! ## The other handlers -/

inductive Status.Trans (app : AppState) (caller : String) (id : Uuid) :
    Status → Move → Status → Prop
  | drop : Trans app caller id .received .drop .dropped
  | unknown : app.sessions.owned id caller = false →
    Trans app caller id .received .advance (.done (.error .SessionNotFound))
  | lookup : app.sessions.owned id caller = true →
    Trans app caller id .received .advance .found
  | answer {e : SessionEntry} : app.sessions.entries id = some e →
    Trans app caller id .found .advance (.done (render id e app.now))

/-- A status request changes nothing but itself. -/
theorem Status.step_cases {app app' : AppState} {caller : String} {id : Uuid} {m : Move}
    {phase phase' : Status} (h : phase.step app caller id m = some (app', phase')) :
    app' = app ∧ Status.Trans app caller id phase m phase' := by
  unfold Status.step at h
  split at h
  · cases h
    cases hget : app.sessions.get id caller with
    | none =>
      refine ⟨rfl, .unknown (Bool.eq_false_iff.mpr ?_)⟩
      intro howned
      rw [SessionStore.get_eq_some.mpr ⟨howned, rfl⟩] at hget
      cases hget
    | some id' => exact ⟨rfl, .lookup (SessionStore.get_eq_some.mp hget).1⟩
  · obtain ⟨e, he, h⟩ := Option.bind_eq_some_iff.mp h
    cases h
    exact ⟨rfl, .answer he⟩
  · cases h
    exact ⟨rfl, .drop⟩
  · cases h

inductive Delete.Trans (app : AppState) (caller : String) (id : Uuid) :
    Delete → Move → AppState → Delete → Prop
  | drop : Trans app caller id .received .drop app .dropped
  | unknown : app.sessions.owned id caller = false →
    Trans app caller id .received .advance app (.done (.error .SessionNotFound))
  | lookup : app.sessions.owned id caller = true →
    Trans app caller id .received .advance app .owned
  | remove {response : ApiResult Unit} :
    Trans app caller id .owned .advance { app with sessions := app.sessions.removeKey id }
      (.done response)

omit [Crates] in
theorem Delete.step_cases {app app' : AppState} {caller : String} {id : Uuid} {m : Move}
    {phase phase' : Delete} (h : phase.step app caller id m = some (app', phase')) :
    Delete.Trans app caller id phase m app' phase' := by
  unfold Delete.step at h
  split at h
  · cases h
    cases howned : app.sessions.owned id caller with
    | true => exact .lookup howned
    | false => exact .unknown howned
  · cases h
    exact .remove
  · cases h
    exact .drop
  · cases h

omit [Crates] in
/-- A stateless endpoint changes nothing but the semaphore. -/
theorem Stateless.step_cases {W R : Type} {app app' : AppState} {work : ApiResult W}
    {run : Instant → Lag → W → Option (ApiResult R) × Instant} {m : Move}
    {phase phase' : Stateless W R} (h : phase.step app work run m = some (app', phase')) :
    ∃ free, app' = app.setConcurrency free := by
  unfold Stateless.step at h
  split at h
  · cases h; exact ⟨app.concurrency, rfl⟩
  · cases h; exact ⟨app.concurrency, rfl⟩
  · cases h; exact ⟨app.concurrency, rfl⟩
  · cases h; exact ⟨app.concurrency, rfl⟩
  · obtain ⟨⟨free, spawn'⟩, -, h⟩ := Option.bind_eq_some_iff.mp h
    cases h
    exact ⟨free, rfl⟩
  · obtain ⟨⟨free, spawn'⟩, -, h⟩ := Option.bind_eq_some_iff.mp h
    cases h
    exact ⟨free, rfl⟩
  · cases h

/-! ## The server -/

/-- The handlers that have nothing to do with sessions. -/
def Handler.IsStateless : Handler → Prop
  | .run .. | .compile .. => True
  | _ => False

namespace Server

def advanced (s : Server) (app : AppState) (i : RequestId) (r : Request) : Server :=
  { s with app, requests := s.requests.set i r }

inductive Trans (s : Server) : Action → Server → Prop
  | tick {d : Duration} : Trans s (.tick d) { s with app := { s.app with now := s.app.now + d } }
  | arrive {caller : String} {call : Call} :
    Trans s (.arrive caller call) { s with requests := s.requests ++ [⟨caller, call.handler⟩] }
  | create {i : RequestId} {m : Move} {caller : String} {request : CreateSessionRequest}
    {phase phase' : Create} {app : AppState} :
    s.requests[i]? = some ⟨caller, .create request phase⟩ →
    Create.Trans s.app i caller phase m app phase' →
    Trans s (.move i m) (s.advanced app i ⟨caller, .create request phase'⟩)
  | resume {i : RequestId} {m : Move} {caller : String} {id : Uuid} {body : Value}
    {phase phase' : Resume} {app : AppState} :
    s.requests[i]? = some ⟨caller, .resume id body phase⟩ →
    Resume.Trans s.app i caller id body phase m app phase' →
    Trans s (.move i m) (s.advanced app i ⟨caller, .resume id body phase'⟩)
  | status {i : RequestId} {m : Move} {caller : String} {id : Uuid} {phase phase' : Status} :
    s.requests[i]? = some ⟨caller, .status id phase⟩ →
    Status.Trans s.app caller id phase m phase' →
    Trans s (.move i m) (s.advanced s.app i ⟨caller, .status id phase'⟩)
  | delete {i : RequestId} {m : Move} {caller : String} {id : Uuid} {phase phase' : Delete}
    {app : AppState} :
    s.requests[i]? = some ⟨caller, .delete id phase⟩ →
    Delete.Trans s.app caller id phase m app phase' →
    Trans s (.move i m) (s.advanced app i ⟨caller, .delete id phase'⟩)
  | stateless {i : RequestId} {m : Move} {caller : String} {handler handler' : Handler}
    {free : Nat} :
    s.requests[i]? = some ⟨caller, handler⟩ → handler.IsStateless → handler'.IsStateless →
    Trans s (.move i m) (s.advanced (s.app.setConcurrency free) i ⟨caller, handler'⟩)
  | collect : s.expired = [] →
    Trans s .collect { s with expired := s.app.sessions.expired s.app.now }
  | evict {id : Uuid} {expired : List Uuid} : s.expired = id :: expired →
    Trans s .evict
      { s with app := { s.app with sessions := s.app.sessions.removeKey id }, expired }

theorem step_cases {s s' : Server} {a : Action} (h : s.step a = some s') : s.Trans a s' := by
  unfold step at h
  split at h
  · cases h
    exact .tick
  · cases h
    exact .arrive
  · next i m =>
    obtain ⟨⟨caller, handler⟩, hr, h⟩ := Option.bind_eq_some_iff.mp h
    obtain ⟨⟨app, handler'⟩, hstep, h⟩ := Option.bind_eq_some_iff.mp h
    cases h
    cases handler with
    | create request phase =>
      obtain ⟨⟨app', phase'⟩, hphase, hstep⟩ := Option.bind_eq_some_iff.mp hstep
      cases hstep
      exact .create hr (Create.step_cases hphase)
    | resume id body phase =>
      obtain ⟨⟨app', phase'⟩, hphase, hstep⟩ := Option.bind_eq_some_iff.mp hstep
      cases hstep
      exact .resume hr (Resume.step_cases hphase)
    | status id phase =>
      obtain ⟨⟨app', phase'⟩, hphase, hstep⟩ := Option.bind_eq_some_iff.mp hstep
      cases hstep
      obtain ⟨rfl, htrans⟩ := Status.step_cases hphase
      exact .status hr htrans
    | delete id phase =>
      obtain ⟨⟨app', phase'⟩, hphase, hstep⟩ := Option.bind_eq_some_iff.mp hstep
      cases hstep
      exact .delete hr (Delete.step_cases hphase)
    | run fields phase =>
      obtain ⟨⟨app', phase'⟩, hphase, hstep⟩ := Option.bind_eq_some_iff.mp hstep
      cases hstep
      obtain ⟨free, rfl⟩ := Stateless.step_cases hphase
      exact .stateless hr trivial trivial
    | compile request phase =>
      obtain ⟨⟨app', phase'⟩, hphase, hstep⟩ := Option.bind_eq_some_iff.mp hstep
      cases hstep
      obtain ⟨free, rfl⟩ := Stateless.step_cases hphase
      exact .stateless hr trivial trivial
  · split at h
    · next hnil =>
      cases h
      exact .collect hnil
    · cases h
  · split at h
    · cases h
    · next id expired hcons =>
      cases h
      exact .evict hcons

end Server

end MontyServer
