import MontyServer.WellFormed

/-!
# A session's history is one line

However requests interleave, a session's progress is with one request at a time, no progress value
is used twice, and the steps an entry shows are one chain, each computed from the one before it and
the input of one request (`history_linear`). A resume that is turned away as a mismatch leaves no
trace, and a finished session never changes.
-/

namespace MontyServer

variable [Crates]

namespace Server

variable {s s' : Server} {a : Action} {id : Uuid}

/-! ## One step -/

/-- A step leaves the history of a session alone or adds one step to it. -/
theorem Wf.trail_step (wf : s.Wf) (h : s.step a = some s') (id : Uuid) :
    s'.app.trail id = s.app.trail id ∨ ∃ link, s'.app.trail id = link :: s.app.trail id := by
  cases wf.effect h id with
  | same _ hcell _ => exact .inl (congrArg Checkout.Cell.log hcell)
  | step e hstep _ => exact hstep.log_eq

/-- Nothing changes a finished session. -/
theorem Wf.terminal_step (wf : s.Wf) (h : s.step a = some s') {e : SessionEntry}
    (he : s.entry id = some e) (hterminal : e.terminal = true) : s'.entry id = some e := by
  cases wf.effect h id with
  | same hentry _ _ => rw [hentry, he]
  | step ev hstep _ =>
    have hlatest := (wf.latest_eq_none_iff he).mpr hterminal
    obtain ⟨link, rest, htrail, -⟩ := (wf.head id).2 e he
    have hne : (s.cell id).log ≠ [] := by
      rw [show (s.cell id).log = _ from htrail]
      simp
    exact (hstep.not_of_closed (wf.cell id) hne hlatest).elim

/-- While a resume has its progress in hand unused, nothing happens to its session. -/
theorem Wf.pending_step (wf : s.Wf) (h : s.step a = some s') {i : RequestId} {t t' : Token}
    (hbefore : s.hand id i = some (.pending t)) (hafter : s'.hand id i = some (.pending t')) :
    s'.entry id = s.entry id ∧ s'.app.trail id = s.app.trail id := by
  cases wf.effect h id with
  | same hentry hcell _ => exact ⟨hentry, congrArg Checkout.Cell.log hcell⟩
  | step ev hstep _ => exact (hstep.not_pending (wf.cell id) hbefore t' hafter).elim

end Server

/-! ## A mismatch -/

omit [Crates] in
/-- The phases of a resume once it has been let in. -/
def Resume.Entered : Resume → Prop
  | .received | .found _ => False
  | _ => True

omit [Crates] in
/-- The progress a resume has in hand, as long as it may still give it back. -/
def Resume.unused : Resume → Option RunProgress
  | .executing _ (.queued p) | .executing _ (.admitted p) | .executing _ (.spawned p true)
  | .executing _ (.running p _ true) | .executing _ (.finished (some (.Mismatch p _))) => some p
  | _ => none

omit [Crates] in
theorem Resume.hand_of_unused {phase : Resume} {p : RunProgress} (h : phase.unused = some p)
    (i : RequestId) (t : StatsTracker) : phase.hand i t = some (.pending (p, t)) := by
  unfold Resume.unused at h
  split at h <;> first | (cases h; rfl) | cases h

omit [Crates] in
theorem Resume.unused_work {spawn : Spawn RunProgress ResumeResult} {p : RunProgress}
    {awaited : Bool} (h : spawn.work = some (p, awaited)) (input : ResumeInput) :
    (Resume.executing input spawn).unused = if awaited then some p else none := by
  match spawn, awaited with
  | .queued _, _ => cases h; rfl
  | .admitted _, _ => cases h; rfl
  | .spawned _ true, _ => cases h; rfl
  | .spawned _ false, _ => cases h; rfl
  | .running _ _ true, _ => cases h; rfl
  | .running _ _ false, _ => cases h; rfl
  | .finished _, _ => cases h
  | .dropped, _ => cases h

theorem Resume.Trans.entered {app app' : AppState} {i : RequestId} {caller : String} {id : Uuid}
    {body : Value} {m : Move} {phase phase' : Resume}
    (h : Resume.Trans app i caller id body phase m app' phase') (hentered : phase.Entered) :
    phase'.Entered := by
  cases h <;> trivial

/-- A resume that has been let in has an unused progress in hand only if it had one before. -/
theorem Resume.Trans.unused_before {app app' : AppState} {i : RequestId} {caller : String}
    {id : Uuid} {body : Value} {m : Move} {phase phase' : Resume} {p : RunProgress}
    (h : Resume.Trans app i caller id body phase m app' phase') (hentered : phase.Entered)
    (hafter : phase'.unused = some p) : ∃ q, phase.unused = some q := by
  cases h with
  | turnAway _ => exact hentered.elim
  | lookup _ _ => exact hentered.elim
  | refuse _ _ => exact hentered.elim
  | take _ _ _ => exact hentered.elim
  | fail => cases hafter
  | store _ => cases hafter
  | restore _ => cases hafter
  | answer _ => cases hafter
  | spawn hm =>
    cases hm with
    | wait _ hwork hwork' =>
      rw [unused_work hwork'] at hafter
      exact ⟨p, by rw [unused_work hwork, hafter]⟩
    | leave _ hwork hwork' =>
      rw [unused_work hwork'] at hafter
      cases hafter
    | gone _ _ hgone => rcases hgone with rfl | rfl <;> cases hafter
  | @ran input e q since entered lag awaited result w _ _ =>
    cases awaited with
    | true => exact ⟨q, rfl⟩
    | false => cases hafter

namespace Server

variable {s s' : Server} {a : Action} {id : Uuid} {i : RequestId} {caller : String} {body : Value}
  {phase : Resume}

/-- A move of a resume is a step of it. -/
theorem Trans.resume_move {m : Move} (h : s.Trans (.move i m) s')
    (hr : s.requests[i]? = some ⟨caller, .resume id body phase⟩) :
    ∃ phase', Resume.Trans s.app i caller id body phase m s'.app phase' ∧
      s'.requests[i]? = some ⟨caller, .resume id body phase'⟩ := by
  cases h with
  | resume hj htrans =>
    cases hj.symm.trans hr
    exact ⟨_, htrans, (advanced_request hj).mpr (.inl ⟨rfl, rfl⟩)⟩
  | create hj _ => cases hj.symm.trans hr
  | status hj _ => cases hj.symm.trans hr
  | delete hj _ => cases hj.symm.trans hr
  | stateless hj hst _ =>
    cases hj.symm.trans hr
    exact hst.elim

/-- A step either leaves a resume where it is or is a step of it. -/
theorem Trans.resume_cases (h : s.Trans a s')
    (hr : s.requests[i]? = some ⟨caller, .resume id body phase⟩) :
    s'.requests[i]? = some ⟨caller, .resume id body phase⟩ ∨
      ∃ m phase', a = .move i m ∧ Resume.Trans s.app i caller id body phase m s'.app phase' ∧
        s'.requests[i]? = some ⟨caller, .resume id body phase'⟩ := by
  cases a with
  | move j m =>
    by_cases hji : j = i
    · subst hji
      obtain ⟨phase', htrans, hr'⟩ := h.resume_move hr
      exact .inr ⟨m, phase', rfl, htrans, hr'⟩
    · have hij : i ≠ j := Ne.symm hji
      cases h <;> exact .inl ((advanced_request ‹_›).mpr (.inr ⟨hij, hr⟩))
  | arrive => cases h; exact .inl (arrived_request.mpr (.inl hr))
  | _ => cases h; exact .inl hr

/-- Where a resume was before a step. -/
theorem Trans.resume_before (h : s.Trans a s')
    (hr' : s'.requests[i]? = some ⟨caller, .resume id body phase⟩) :
    s.requests[i]? = some ⟨caller, .resume id body phase⟩ ∨ phase = .received ∨
      ∃ m before, a = .move i m ∧ s.requests[i]? = some ⟨caller, .resume id body before⟩ ∧
        Resume.Trans s.app i caller id body before m s'.app phase := by
  cases h with
  | tick => exact .inl hr'
  | arrive =>
    rename_i call
    rcases arrived_request.mp hr' with hr | ⟨-, heq⟩
    · exact .inl hr
    · cases call <;> cases heq
      exact .inr (.inl rfl)
  | collect _ => exact .inl hr'
  | evict _ => exact .inl hr'
  | @resume j m caller' id' body' before phase' app hj htrans =>
    rcases (advanced_request hj).mp hr' with ⟨rfl, heq⟩ | ⟨-, hr⟩
    · cases heq
      exact .inr (.inr ⟨m, before, rfl, hj, htrans⟩)
    · exact .inl hr
  | create hj _ =>
    rcases (advanced_request hj).mp hr' with ⟨rfl, heq⟩ | ⟨-, hr⟩
    · cases heq
    · exact .inl hr
  | status hj _ =>
    rcases (advanced_request hj).mp hr' with ⟨rfl, heq⟩ | ⟨-, hr⟩
    · cases heq
    · exact .inl hr
  | delete hj _ =>
    rcases (advanced_request hj).mp hr' with ⟨rfl, heq⟩ | ⟨-, hr⟩
    · cases heq
    · exact .inl hr
  | stateless hj _ hst =>
    rcases (advanced_request hj).mp hr' with ⟨rfl, heq⟩ | ⟨-, hr⟩
    · cases heq
      exact hst.elim
    · exact .inl hr

/-- A step that was not in the history before has just been stored by its request. -/
theorem Trans.trail_new (h : s.Trans a s') {link : Link} (hlink : link ∈ s'.app.trail id) :
    link ∈ s.app.trail id ∨
      (∃ caller request,
        s'.requests[link.request]? = some ⟨caller, .create request (.inserted id)⟩) ∨
      ∃ caller body, s'.requests[link.request]? = some ⟨caller, .resume id body .stored⟩ := by
  cases h with
  | create hr h =>
    cases h with
    | insert _ =>
      rw [advanced_app, AppState.extend_trail] at hlink
      split at hlink
      · next hid =>
        subst hid
        rcases List.mem_cons.mp hlink with rfl | hlink
        · exact .inr (.inl ⟨_, _, (advanced_request hr).mpr (.inl ⟨rfl, rfl⟩)⟩)
        · exact .inl hlink
      · exact .inl hlink
    | _ => exact .inl hlink
  | resume hr h =>
    cases h with
    | store _ =>
      rw [advanced_app, AppState.extend_trail] at hlink
      split at hlink
      · next hid =>
        subst hid
        rcases List.mem_cons.mp hlink with rfl | hlink
        · exact .inr (.inr ⟨_, _, (advanced_request hr).mpr (.inl ⟨rfl, rfl⟩)⟩)
        · exact .inl hlink
      · exact .inl hlink
    | _ => exact .inl (by simpa using hlink)
  | delete _ h => cases h <;> exact .inl hlink
  | _ => exact .inl hlink

theorem Wf.hand_of_unused (wf : s.Wf)
    (hr : s.requests[i]? = some ⟨caller, .resume id body phase⟩) {p : RunProgress}
    (h : phase.unused = some p) : ∃ t, s.hand id i = some (.pending (p, t)) := by
  have hok := wf.handlers i _ hr
  cases phase with
  | executing input spawn =>
    obtain ⟨e, he, -⟩ := hok.2
    exact ⟨e.tracker, (hand_of_request hr he).trans
      ((hand_own ..).trans (Resume.hand_of_unused h ..))⟩
  | _ => cases h

/-- **Frame of a resume**: from when it was let in to when it may still give its progress back, its
session has not changed. -/
theorem Wf.unused_run (wf : s.Wf) (hr : s.requests[i]? = some ⟨caller, .resume id body phase⟩)
    (hentered : phase.Entered) {as : List Action} (h : Run.exec Server.step s as = some s')
    {phase' : Resume} (hr' : s'.requests[i]? = some ⟨caller, .resume id body phase'⟩)
    {p : RunProgress} (hunused : phase'.unused = some p) :
    s'.entry id = s.entry id ∧ s'.app.trail id = s.app.trail id ∧
      ∃ q, phase.unused = some q := by
  induction as generalizing s phase with
  | nil =>
    cases h
    cases hr.symm.trans hr'
    exact ⟨rfl, rfl, p, hunused⟩
  | cons a as ih =>
    obtain ⟨t, hstep, hrest⟩ := Run.exec_cons.mp h
    have wft := wf.step hstep
    -- in the state after the first step the resume is still in, and has an unused progress
    obtain ⟨phaset, hrt, hin, hback⟩ : ∃ phaset : Resume,
        t.requests[i]? = some ⟨caller, .resume id body phaset⟩ ∧ phaset.Entered ∧
          ∀ q, phaset.unused = some q → ∃ q', phase.unused = some q' := by
      rcases (step_cases hstep).resume_cases hr with hrt | ⟨m, phaset, -, htrans, hrt⟩
      · exact ⟨phase, hrt, hentered, fun q hq => ⟨q, hq⟩⟩
      · exact ⟨phaset, hrt, htrans.entered hentered, fun q => htrans.unused_before hentered⟩
    obtain ⟨he, htrail, q, hq⟩ := ih wft hrt hin hrest
    obtain ⟨q', hq'⟩ := hback q hq
    obtain ⟨_, hbefore⟩ := wf.hand_of_unused hr hq'
    obtain ⟨_, hafter⟩ := wft.hand_of_unused hrt hq
    obtain ⟨he', htrail'⟩ := wf.pending_step hstep hbefore hafter
    exact ⟨he.trans he', htrail.trans htrail', q', hq'⟩

/-- **A mismatch leaves no trace**: from when a resume takes the progress to when it gives it back
on a mismatch, whatever happens in between, its session has not changed. -/
theorem Wf.mismatch_run (wf : s.Wf) {input : ResumeInput}
    (hr : s.requests[i]? = some ⟨caller, .resume id body (.found input)⟩)
    {s₁ s₂ s₃ : Server} {as : List Action} {input' : ResumeInput} {p : RunProgress}
    {error : ResumeMismatch} (htake : s.step (.move i .advance) = some s₁)
    (hrun : Run.exec Server.step s₁ as = some s₂)
    (hr₂ : s₂.requests[i]? =
      some ⟨caller, .resume id body (.executing input' (.finished (some (.Mismatch p error))))⟩)
    (hgive : s₂.step (.move i .advance) = some s₃) :
    s₃.requests[i]? =
        some ⟨caller, .resume id body (.done (.error (.BadRequest error.message)))⟩ ∧
      s₃.entry id = s.entry id ∧ s₃.app.trail id = s.app.trail id := by
  have wf₁ := wf.step htake
  have wf₂ := Run.exec_invariant (fun _ _ _ wf hstep => wf.step hstep) wf₁ hrun
  obtain ⟨phase₁, htrans₁, hr₁⟩ := (step_cases htake).resume_move hr
  obtain ⟨phase₃, htrans₃, hr₃⟩ := (step_cases hgive).resume_move hr₂
  generalize happ₁ : s₁.app = app₁ at htrans₁
  generalize happ₃ : s₃.app = app₃ at htrans₃
  cases htrans₁ with
  | refuse _ _ =>
    obtain ⟨-, -, q, hq⟩ := wf₁.unused_run hr₁ trivial hrun hr₂ rfl
    cases hq
  | @take input e q he hterminal hq =>
    obtain ⟨hentry, htrail, -⟩ := wf₁.unused_run hr₁ trivial hrun hr₂ rfl
    have htrail₁ : s₁.app.trail id = s.app.trail id := by rw [happ₁, AppState.setEntry_trail]
    have hentry₂ : s₂.entry id = some { e with progress := none } := by
      rw [hentry, entry, happ₁, AppState.setEntry_self]
    cases htrans₃ with
    | spawn hm => exact (hm.ne_advance rfl).elim
    | @restore _ e₂ _ _ he₂ =>
      cases hentry₂.symm.trans he₂
      -- both `q` and `p` are what the latest step left behind
      have hp : p = q := by
        obtain ⟨t, hhand⟩ := wf₂.hand_of_unused hr₂ rfl
        have hlatest₂ := ((wf₂.cell id).located_of_hand hhand).fits
        have hhome : (s.cell id).home = some (q, e.tracker) := by
          rw [Server.cell, show s.entry id = some e from he, Option.bind_some, hq]
          rfl
        have hlatest := (wf.cell id).latest_of_home hhome
        have hlog : (s₂.cell id).log = (s.cell id).log := htrail.trans htrail₁
        rw [hlog] at hlatest₂
        cases hlatest.symm.trans hlatest₂
        rfl
      refine ⟨hr₃, ?_, ?_⟩
      · rw [entry, happ₃, AppState.setEntry_self, show s.entry id = some e from he]
        simp [SessionEntry.restore, hp, ← hq]
      · rw [AppState.setEntry_trail, htrail, htrail₁]

/-! ## The whole history -/

/-- The history of a session is one line. -/
structure LinearHistory (s : Server) (id : Uuid) : Prop where
  /-- At most one request has the progress, and then it is not in the entry. -/
  single : ∀ i j h h', s.hand id i = some h → s.hand id j = some h' → i = j
  exclusive : ∀ i h e, s.hand id i = some h → s.entry id = some e → e.progress = none
  /-- No progress value is consumed twice: `apply_resume` has had the one the `n`-th step left at
  most once for every `n`. -/
  applied_once : ((s.app.applied id).map Prod.fst).Nodup
  applied_left : ∀ n p t, (n, (p, t)) ∈ s.app.applied id →
    ∃ link output stats, (s.app.trail id).reverse[n - 1]? = some link ∧
      link.step = .Paused p output stats ∧ link.tracker = t
  /-- The stored steps are a chain from a start, each computed by `resume_session` from the progress
  the one before it left. -/
  linked : rules.Linked (s.app.trail id)
  /-- Each was stored by another request, on the input of that request's body. -/
  requests_once : ((s.app.trail id).map Link.request).Nodup
  accepted : ∀ link ∈ s.app.trail id, ∃ r, s.requests[link.request]? = some r ∧
    r.handler.Stored id link ∧ s.app.Owns r.caller id
  /-- The entry shows the latest of them, and the steps are added one at a time. -/
  shown : ∀ e, s.entry id = some e → ∃ link rest, s.app.trail id = link :: rest ∧
    (splitStep link.step).2 = (e.terminal, e.snapshot) ∧
    ∀ p, e.progress = some p → (splitStep link.step).1 = some p
  extended : ∀ a s', s.step a = some s' →
    s'.app.trail id = s.app.trail id ∨ ∃ link, s'.app.trail id = link :: s.app.trail id
  /-- A resume that takes the progress and ends as a mismatch has changed nothing. -/
  mismatch : ∀ (i : RequestId) (caller : String) (body : Value) (input input' : ResumeInput)
    (s₁ s₂ s₃ : Server) (as : List Action) (p : RunProgress) (error : ResumeMismatch),
    s.requests[i]? = some ⟨caller, .resume id body (.found input)⟩ →
    s.step (.move i .advance) = some s₁ → Run.exec Server.step s₁ as = some s₂ →
    s₂.requests[i]? =
      some ⟨caller, .resume id body (.executing input' (.finished (some (.Mismatch p error))))⟩ →
    s₂.step (.move i .advance) = some s₃ →
    s₃.requests[i]? =
        some ⟨caller, .resume id body (.done (.error (.BadRequest error.message)))⟩ ∧
      s₃.entry id = s.entry id ∧ s₃.app.trail id = s.app.trail id
  /-- A finished session never changes again. -/
  final : ∀ (e : SessionEntry) (as : List Action) (s' : Server), s.entry id = some e →
    e.terminal = true → Run.exec Server.step s as = some s' → s'.entry id = some e

/-- The progress a step leaves, read off the step. -/
theorem next_eq_some {link : Link} {p : RunProgress} {t : StatsTracker}
    (h : rules.next link = some (p, t)) :
    ∃ output stats, link.step = .Paused p output stats ∧ link.tracker = t := by
  obtain ⟨request, input, step, tracker⟩ := link
  cases step with
  | Paused progress output stats =>
    cases h
    exact ⟨output, stats, rfl, rfl⟩
  | _ => cases h

theorem Wf.linearHistory (wf : s.Wf) (id : Uuid) : LinearHistory s id where
  single i j h h' hi hj := (wf.cell id).single hi hj
  exclusive i h e hi he := by
    have hhome := (wf.cell id).home_none_of_hand hi
    simpa [Server.cell, he] using hhome
  applied_once := (wf.cell id).spent_once
  applied_left n p t hmem := by
    obtain ⟨-, -, hleft⟩ := (wf.cell id).spent_left (n, (p, t)) hmem
    obtain ⟨link, hlink, hnext⟩ := Option.bind_eq_some_iff.mp hleft
    obtain ⟨output, stats, hstep, htracker⟩ := next_eq_some hnext
    exact ⟨link, output, stats, hlink, hstep, htracker⟩
  linked := (wf.cell id).linked
  requests_once := wf.credited.once id
  accepted := wf.credited.request id
  shown e he := by
    obtain ⟨link, rest, htrail, hsplit⟩ := (wf.head id).2 e he
    refine ⟨link, rest, htrail, hsplit, ?_⟩
    intro p hp
    have hhome : (s.cell id).home = some (p, e.tracker) := by simp [Server.cell, he, hp]
    have hlatest := (wf.cell id).latest_of_home hhome
    rw [show (s.cell id).log = _ from htrail] at hlatest
    obtain ⟨output, stats, hstep, -⟩ := next_eq_some hlatest
    rw [hstep]
    rfl
  extended a s' h := wf.trail_step h id
  mismatch i caller body input input' s₁ s₂ s₃ as p error hr htake hrun hr₂ hgive :=
    wf.mismatch_run hr htake hrun hr₂ hgive
  final e as s' he hterminal h := by
    induction as generalizing s with
    | nil => cases h; exact he
    | cons a as ih =>
      obtain ⟨t, hstep, hrest⟩ := Run.exec_cons.mp h
      exact ih (wf.step hstep) (wf.terminal_step hstep he hterminal) hrest

end Server

/-- **Single flight and linear history**: after every interleaving, for every session. -/
theorem history_linear {config : Config} {as : List Action} {s : Server}
    (h : Run.exec Server.step (.new config) as = some s) (id : Uuid) :
    Server.LinearHistory s id :=
  (Server.wf_of_exec h).linearHistory id

omit [Crates] in
/-- Two resumes of one session, the second of which finishes it. -/
theorem history_linear_fallback :
    ∃ (_ : Crates) (s : Server),
      Run.exec Server.step (.new Sample.config)
        (Sample.opening ++ Sample.resuming 1 ++ Sample.resuming 2) = some s ∧
      (s.app.trail 7).map Link.request = [2, 1, 0] ∧ Server.LinearHistory s 7 := by
  let _ := Sample.crates
  have hrun : (Run.exec Server.step (.new Sample.config)
      (Sample.opening ++ Sample.resuming 1 ++ Sample.resuming 2)).any
        (fun s => (s.app.trail 7).map Link.request = [2, 1, 0]) = true := by decide
  obtain ⟨s, hs, htrail⟩ := Option.any_eq_true _ _ |>.mp hrun
  exact ⟨Sample.crates, s, hs, of_decide_eq_true htrail, history_linear hs 7⟩

end MontyServer
