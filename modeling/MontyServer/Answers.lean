import MontyServer.History
import MontyServer.Api.Render
import Mathlib.Data.List.Nodup

/-!
# What status reads and resumes answer

`render_state` relies on a paused snapshot having its progress alongside, and `acquire_for_resume`
takes the progress out of a paused entry. A status read is therefore answered `200` exactly while
no resume has the progress (`status_ok_iff`). A resume stores its step and locks its session again
to render it; what it renders then is its own step exactly if no other resume has come in between
(`own_step_answered`).
-/

namespace MontyServer

variable [Crates]

/-! ## Stored entries are consistent -/

theorem FromStart.answerable {tracker : StatsTracker} {step : SessionStep}
    (h : FromStart tracker step) : step.Answerable := by
  obtain ⟨spec, limits, now, lag, ended, h⟩ := h
  unfold SourceSpec.start at h
  split at h
  · cases h
  · next run inputs _ =>
    cases hstart : startSession run inputs limits now lag with
    | mk result w =>
      rw [hstart] at h
      cases result with
      | none => cases h
      | some step' =>
        cases h
        exact startSession_answerable hstart

/-- The latest step of a linked history is one a client can answer, if it is a pause at all. -/
theorem answerable_of_linked {link : Link} {rest : List Link}
    (h : rules.Linked (link :: rest)) : link.step.Answerable := by
  cases rest with
  | nil => exact FromStart.answerable h.2
  | cons link' rest =>
    obtain ⟨⟨token, -, input, now, lag, w, -, hstep, -⟩, -⟩ := h
    rcases resumeSession_cases hstep with ⟨error, -, heq, -⟩ | ⟨step, -, heq, hanswerable⟩
    · cases heq
    · cases heq
      exact hanswerable

namespace Server

variable {s s' : Server} {a : Action} {id : Uuid}

theorem Wf.consistent (wf : s.Wf) {e : SessionEntry} (he : s.entry id = some e) :
    e.Consistent := by
  have hhistory := wf.linearHistory id
  obtain ⟨link, rest, htrail, hsplit, hprogress⟩ := hhistory.shown e he
  have hanswerable : link.step.Answerable := by
    have hlinked := hhistory.linked
    rw [htrail] at hlinked
    exact answerable_of_linked hlinked
  have hterminal : (splitStep link.step).2.1 = e.terminal := congrArg Prod.fst hsplit
  have hsnapshot : (splitStep link.step).2.2 = e.snapshot := congrArg Prod.snd hsplit
  constructor
  · intro p hp
    have hleft := hprogress p hp
    cases hstep : link.step with
    | Paused progress output stats =>
      rw [hstep] at hleft hanswerable
      cases hleft
      exact hanswerable
    | _ =>
      rw [hstep] at hleft
      cases hleft
  · rw [← hsnapshot]
    cases hstep : link.step with
    | _ =>
      rw [hstep] at hterminal
      exact hterminal.symm

end Server

/-! ## Status reads -/

namespace Server

variable {s s' : Server} {i : RequestId} {caller : String} {id : Uuid}

/-- The owner of a stored session finds it. -/
theorem status_lookup (hr : s.requests[i]? = some ⟨caller, .status id .received⟩)
    (howned : s.app.sessions.owned id caller = true) :
    s.step (.move i .advance) = some (s.advanced s.app i ⟨caller, .status id .found⟩) := by
  have hget : s.app.sessions.get id caller = some id :=
    SessionStore.get_eq_some.mpr ⟨howned, rfl⟩
  simp [step, hr, Handler.step, Status.step, hget, advanced]

/-- A status request that has found its session is answered from the entry. -/
theorem status_answer (hr : s.requests[i]? = some ⟨caller, .status id .found⟩) {e : SessionEntry}
    (he : s.entry id = some e) :
    s.step (.move i .advance) =
      some (s.advanced s.app i ⟨caller, .status id (.done (render id e s.app.now))⟩) := by
  simp [step, hr, Handler.step, Status.step, show s.app.sessions.entries id = some e from he,
    advanced]

end Server

/-- **A status read succeeds exactly while the progress is at home.** In every reachable state the
owner of a stored session finds it; and when its entry is locked, the answer is the entry as it is
now, nothing is changed, and (monty encoding the values) it is a `200` if and only if the session
has finished or has its progress alongside, its keyword arguments named by strings. -/
theorem status_ok_iff {config : Config} {s : Server} (h : s.Reachable config) (i : RequestId)
    (caller : String) (id : Uuid) :
    (s.requests[i]? = some ⟨caller, .status id .received⟩ →
      s.app.sessions.owned id caller = true →
      s.step (.move i .advance) = some (s.advanced s.app i ⟨caller, .status id .found⟩)) ∧
    (s.requests[i]? = some ⟨caller, .status id .found⟩ →
      ∃ e, s.entry id = some e ∧ e.principal = caller ∧
        s.step (.move i .advance) =
          some (s.advanced s.app i ⟨caller, .status id (.done (render id e s.app.now))⟩) ∧
        (e.Encodes → ((∃ view, render id e s.app.now = .ok view) ↔
          e.terminal = true ∨ ∃ p, e.progress = some p ∧ p.StringKeys))) := by
  refine ⟨Server.status_lookup, ?_⟩
  intro hr
  obtain ⟨e, he, hp⟩ := h.wf.handlers i _ hr
  refine ⟨e, he, hp, Server.status_answer hr he, ?_⟩
  intro henc
  rw [render_ok_iff]
  exact SessionEntry.renders_iff (h.wf.consistent he) henc

/-- The request is a status read of `id` by `caller` that has found its session. -/
def Request.reads (r : Request) (caller : String) (id : Uuid) : Bool :=
  match r.handler with
  | .status id' .found => id' = id && r.caller = caller
  | _ => false

/-- The request is a resume of `id` that has been answered with an error. -/
def Request.refused (r : Request) (id : Uuid) : Bool :=
  match r.handler with
  | .resume id' _ (.done (.error _)) => id' = id
  | _ => false

omit [Crates] in
theorem Request.eq_of_refused {r : Request} {id : Uuid} (h : r.refused id = true) :
    ∃ body err, r = ⟨r.caller, .resume id body (.done (.error err))⟩ := by
  obtain ⟨caller, handler⟩ := r
  unfold refused at h
  split at h
  · next id' body err heq =>
    cases of_decide_eq_true h
    exact ⟨body, err, by simp_all⟩
  · cases h

/-- The request has been answered with a view. -/
def Request.viewed (r : Request) : Bool :=
  match r.handler with
  | .status _ (.done (.ok _)) | .resume _ _ (.done (.ok _)) => true
  | _ => false

omit [Crates] in
theorem Request.eq_of_reads {r : Request} {caller : String} {id : Uuid}
    (h : r.reads caller id = true) : r = ⟨caller, .status id .found⟩ := by
  obtain ⟨caller', handler⟩ := r
  unfold reads at h
  split at h
  · next heq =>
    simp only [Bool.and_eq_true, decide_eq_true_eq] at h
    obtain ⟨rfl, rfl⟩ := h
    simp_all
  · cases h

omit [Crates] in
/-- A status read of a paused session nobody is resuming. -/
theorem status_ok_idle :
    ∃ (_ : Crates) (s : Server) (e : SessionEntry), s.Reachable Sample.config ∧
      s.entry 7 = some e ∧ e.principal = "owner" ∧
      s.step (.move 1 .advance) =
        some (s.advanced s.app 1 ⟨"owner", .status 7 (.done (render 7 e s.app.now))⟩) ∧
      (e.Encodes → ((∃ view, render 7 e s.app.now = .ok view) ↔
        e.terminal = true ∨ ∃ p, e.progress = some p ∧ p.StringKeys)) := by
  let _ := Sample.crates
  have hrun : (Run.exec Server.step (.new Sample.config)
      (Sample.opening ++ [.arrive "owner" (.status 7), .move 1 .advance])).any
        (fun s => s.requests[1]?.any (·.reads "owner" 7)) = true := by decide
  obtain ⟨s, hs, hreads⟩ := Option.any_eq_true _ _ |>.mp hrun
  obtain ⟨r, hr, hreads⟩ := Option.any_eq_true _ _ |>.mp hreads
  have hreachable : s.Reachable Sample.config := ⟨_, hs⟩
  obtain ⟨e, he, hp, hstep, hiff⟩ :=
    (status_ok_iff hreachable 1 "owner" 7).2 (Request.eq_of_reads hreads ▸ hr)
  exact ⟨Sample.crates, s, e, hreachable, he, hp, hstep, hiff⟩

omit [Crates] in
/-- A status read while a resume of the session is queued is an internal error. -/
theorem busy_status_not_ok :
    ¬ ∀ (_ : Crates) (config : Config) (s : Server) (i : RequestId) (caller : String) (id : Uuid),
      (∀ object, ∃ v, Crates.toValue object = .ok v) →
      (∀ objects, ∃ v, Crates.toValueArray objects = .ok v) → s.Reachable config →
      id ∈ s.app.sessions.sessions →
      s.requests[i]? = some ⟨caller, .status id .found⟩ →
      ∃ s' view, s.step (.move i .advance) = some s' ∧
        s'.requests[i]? = some ⟨caller, .status id (.done (.ok view))⟩ := by
  intro h
  let _ := Sample.crates
  have hrun : (Run.exec Server.step (.new Sample.config)
      (Sample.opening ++ Sample.taking 1 ++ [.arrive "owner" (.status 7), .move 2 .advance])).any
        (fun s => s.app.sessions.sessions.contains 7 &&
          s.requests[2]?.any (·.reads "owner" 7) &&
          (s.step (.move 2 .advance)).all fun s' => !s'.requests[2]?.any (·.viewed)) = true := by
    decide
  obtain ⟨s, hs, htest⟩ := Option.any_eq_true _ _ |>.mp hrun
  simp only [Bool.and_eq_true, List.contains_eq_mem, decide_eq_true_eq] at htest
  obtain ⟨⟨hid, hreads⟩, hnot⟩ := htest
  obtain ⟨r, hr, hreads⟩ := Option.any_eq_true _ _ |>.mp hreads
  obtain ⟨s', view, hstep, hr'⟩ := h Sample.crates Sample.config s 2 "owner" 7
    Sample.toValue_ok (fun _ => ⟨_, rfl⟩) ⟨_, hs⟩ hid (Request.eq_of_reads hreads ▸ hr)
  simp [hstep, hr', Request.viewed] at hnot

/-! ## Resumes -/

/-- monty encodes the values a step shows. -/
def SessionStep.Encodes (step : SessionStep) : Prop :=
  (splitStep step).2.2.Encodes ∧ ∀ p, (splitStep step).1 = some p → p.Encodes

namespace Server

/-- Every resume that has stored a step and been answered got a view of that very step. -/
def OwnAnswers (s : Server) : Prop :=
  ∀ (i : RequestId) (caller : String) (id : Uuid) (body : Value) (response : ApiResult SessionView)
    (link : Link),
    s.requests[i]? = some ⟨caller, .resume id body (.done response)⟩ →
    link ∈ s.app.trail id → link.request = i → link.step.Encodes →
    ∃ view, response = .ok view ∧ view.sessionId = id ∧
      renderState (splitStep link.step).2.2 (splitStep link.step).1 = .ok view.state

omit [Crates] in
/-- When a resume that has stored its step locks its session again to answer, the step is still the
latest, and its progress, if it left one, is still there, its keyword arguments named by strings. -/
def Undisturbed (s : Server) (a : Action) : Prop :=
  ∀ (i : RequestId) (caller : String) (id : Uuid) (body : Value) (e : SessionEntry),
    a = .move i .advance → s.requests[i]? = some ⟨caller, .resume id body .stored⟩ →
    s.entry id = some e →
    (∃ link, (s.app.trail id).head? = some link ∧ link.request = i) ∧
      (e.terminal = true ∨ ∃ p, e.progress = some p ∧ p.StringKeys)

variable {s s' : Server} {a : Action}

/-- A resume that has not stored its step is not credited with one. -/
theorem Wf.past_of_credited (wf : s.Wf) {caller : String} {id : Uuid} {body : Value}
    {phase : Resume} {link : Link} (hlink : link ∈ s.app.trail id)
    (hr : s.requests[link.request]? = some ⟨caller, .resume id body phase⟩) : phase.Past := by
  obtain ⟨r, hr', hstored, -⟩ := wf.credited.request id link hlink
  cases hr.symm.trans hr'
  exact hstored.2.1

/-- A link is the only one of its request in its history. -/
theorem Wf.link_unique (wf : s.Wf) {id : Uuid} {link link' : Link}
    (hlink : link ∈ s.app.trail id) (hlink' : link' ∈ s.app.trail id)
    (heq : link.request = link'.request) : link = link' :=
  List.inj_on_of_nodup_map (wf.credited.once id) hlink hlink' heq

/-- **Step lemma**: an undisturbed step gives no wrong answer. -/
theorem Wf.ownAnswers_step (wf : s.Wf) (hown : s.OwnAnswers) (hq : s.Undisturbed a)
    (h : s.step a = some s') : s'.OwnAnswers := by
  intro i caller id body response link hr' hlink hi henc
  -- the link was there before: a request that has just stored one is not done
  have hlink₀ : link ∈ s.app.trail id := by
    rcases (step_cases h).trail_new hlink with hlink | ⟨_, _, hr₂⟩ | ⟨_, _, hr₂⟩
    · exact hlink
    · rw [hi] at hr₂
      cases hr'.symm.trans hr₂
    · rw [hi] at hr₂
      cases hr'.symm.trans hr₂
  rcases (step_cases h).resume_before hr' with hr | hreceived | ⟨m, before, ha, hr, htrans⟩
  · exact hown i caller id body response link hr hlink₀ hi henc
  · cases hreceived
  · have hpast : before.Past := wf.past_of_credited hlink₀ (hi ▸ hr)
    generalize s'.app = app at htrans
    cases htrans with
    | turnAway => exact hpast.elim
    | refuse => exact hpast.elim
    | fail => exact hpast.elim
    | restore => exact hpast.elim
    | @answer e he =>
      obtain ⟨⟨link', hhead, hi'⟩, hrenders⟩ := hq i caller id body e ha hr he
      have hshown := (wf.linearHistory id).shown e he
      obtain ⟨link'', rest, htrail, hsplit, hprogress⟩ := hshown
      rw [htrail] at hhead
      cases hhead
      have hsame : link = link' :=
        wf.link_unique hlink₀ (by rw [htrail]; exact List.mem_cons_self) (hi.trans hi'.symm)
      subst hsame
      have hterminal : (splitStep link.step).2.1 = e.terminal := congrArg Prod.fst hsplit
      have hsnapshot : (splitStep link.step).2.2 = e.snapshot := congrArg Prod.snd hsplit
      -- the entry shows the link, with its progress alongside where it is a pause
      have hstate : renderState (splitStep link.step).2.2 (splitStep link.step).1 =
          renderState e.snapshot e.progress := by
        rw [hsnapshot]
        rcases hrenders with hdone | ⟨p, hp, -⟩
        · exact renderState_terminal (wf.consistent he) hdone _ _
        · rw [hp, hprogress p hp]
      have hencodes : e.Encodes :=
        ⟨hsnapshot ▸ henc.1, fun p hp => henc.2 p (hprogress p hp)⟩
      obtain ⟨view, hview⟩ := (render_ok_iff id e s.app.now).mpr
        ((SessionEntry.renders_iff (wf.consistent he) hencodes).mpr hrenders)
      obtain ⟨hid, -, hst⟩ := render_ok hview
      exact ⟨view, hview, hid, hstate.trans hst⟩

end Server

/-- **A resume is answered with its own step, undisturbed.** In every run in which no other resume
takes the progress of a session, or stores a further step, between a resume's `store_step` and its
lock for the answer (and pauses name keyword arguments by strings), every resume that has stored a
step and been answered got `200` and exactly that step. -/
theorem own_step_answered (config : Config) (as : List Action)
    (h : Run.EveryStep Server.step Server.Undisturbed (.new config) as) :
    Run.Throughout Server.step Server.OwnAnswers (.new config) as := by
  have hnew : (Server.new config).OwnAnswers := fun _ _ _ _ _ _ hr => by simp [Server.new] at hr
  exact Run.throughout_of_everyStep (I := fun s => s.Wf ∧ s.OwnAnswers) (P := Server.OwnAnswers)
    (fun _ _ _ inv hq hstep => ⟨inv.1.step hstep, inv.1.ownAnswers_step inv.2 hq hstep⟩)
    (fun _ inv => inv.2) ⟨Server.Wf.new config, hnew⟩ h

omit [Crates] in
/-- `Undisturbed`, as a test. -/
def Server.undisturbed (s : Server) (a : Action) : Bool :=
  match a with
  | .move i .advance =>
    match s.requests[i]? with
    | some ⟨_, .resume id _ .stored⟩ =>
      (s.app.trail id).head?.any (fun link => link.request = i) &&
      (s.entry id).all fun e => e.terminal || e.progress.any fun p => decide p.StringKeys
    | _ => true
  | _ => true

omit [Crates] in
theorem Server.undisturbed_sound (s : Server) (a : Action) (h : s.undisturbed a = true) :
    s.Undisturbed a := by
  rintro i caller id body e rfl hr he
  simp only [undisturbed, hr, he, Bool.and_eq_true, Option.all_some, Bool.or_eq_true,
    Option.any_eq_true, decide_eq_true_eq] at h
  exact h

omit [Crates] in
/-- Two resumes of one session, one after the other. -/
theorem own_step_answered_in_turn :
    ∃ (_ : Crates), Run.Throughout Server.step Server.OwnAnswers (.new Sample.config)
      (Sample.opening ++ Sample.resuming 1 ++ Sample.resuming 2) := by
  let _ := Sample.crates
  have hcheck : Run.checkSteps Server.step Server.undisturbed (.new Sample.config)
      (Sample.opening ++ Sample.resuming 1 ++ Sample.resuming 2) = true := by decide
  exact ⟨Sample.crates, own_step_answered Sample.config _
    (Run.everyStep_of_check Server.undisturbed_sound hcheck)⟩

omit [Crates] in
/-- A second resume that takes the progress before the first has answered turns the first one's
answer into an internal error. -/
theorem overtaken_resume_not_answered :
    ¬ ∀ (_ : Crates) (config : Config) (as : List Action),
      (∀ object, ∃ v, Crates.toValue object = .ok v) →
      (∀ objects, ∃ v, Crates.toValueArray objects = .ok v) →
      Run.Throughout Server.step Server.OwnAnswers (.new config) as := by
  intro h
  let _ := Sample.crates
  have hrun : (Run.exec Server.step (.new Sample.config)
      (Sample.opening ++ Sample.taking 1 ++ Sample.executed 1 ++ [.move 1 .advance] ++
        Sample.taking 2 ++ [.move 1 .advance])).any
        (fun s => s.requests[1]?.any (·.refused 7) &&
          (s.app.trail 7).any fun link => link.request = 1) = true := by
    decide
  obtain ⟨s, hs, htest⟩ := Option.any_eq_true _ _ |>.mp hrun
  simp only [Bool.and_eq_true, List.any_eq_true, decide_eq_true_eq] at htest
  obtain ⟨hrefused, link, hlink, hi⟩ := htest
  obtain ⟨r, hr, hrefused⟩ := Option.any_eq_true _ _ |>.mp hrefused
  obtain ⟨body, err, hdone⟩ := Request.eq_of_refused hrefused
  have hown : s.OwnAnswers :=
    (h Sample.crates Sample.config _ Sample.toValue_ok fun _ => ⟨_, rfl⟩).last hs
  obtain ⟨view, hview, -⟩ := hown 1 r.caller 7 body (.error err) link (hdone ▸ hr) hlink hi
    ⟨StepSnapshot.encodes Sample.toValue_ok _,
      fun p _ => RunProgress.encodes Sample.toValue_ok (fun _ => ⟨_, rfl⟩) p⟩
  cases hview

end MontyServer
