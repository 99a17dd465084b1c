import MontyServer.Answers

/-!
# The reaper

`reap_expired` collects the sessions past their expiry in one pass and removes them in another. It
asks neither whether a resume of a session is in flight, nor, in the second pass, whether the
session has been resumed since. In every run in which neither happens, no session is removed before
its time and what an answer says about the expiry holds (`reaper_spares_sessions`).
-/

namespace MontyServer

variable [Crates]

/-! ## Resumes in flight -/

omit [Crates] in
/-- From finding its session to its answer; the execution of a client that has gone is in flight
until it ends. -/
def Resume.inFlight : Resume → Bool
  | .found _ | .stored => true
  | .executing _ .dropped => false
  | .executing _ _ => true
  | _ => false

omit [Crates] in
def Handler.resuming (id : Uuid) : Handler → Bool
  | .resume id' _ phase => id' = id && phase.inFlight
  | _ => false

namespace Server

omit [Crates] in
/-- A resume of session `id` is in flight. -/
def resuming (s : Server) (id : Uuid) : Bool := s.requests.any fun r => r.handler.resuming id

variable {s s' : Server} {a : Action} {id : Uuid}

omit [Crates] in
theorem resuming_iff :
    s.resuming id = true ↔ ∃ (i : RequestId) (caller : String) (body : Value) (phase : Resume),
      s.requests[i]? = some ⟨caller, .resume id body phase⟩ ∧ phase.inFlight = true := by
  rw [resuming, List.any_eq_true]
  constructor
  · rintro ⟨⟨caller, handler⟩, hmem, hresuming⟩
    obtain ⟨i, hr⟩ := List.mem_iff_getElem?.mp hmem
    cases handler with
    | resume id' body phase =>
      simp only [Handler.resuming, Bool.and_eq_true, decide_eq_true_eq] at hresuming
      obtain ⟨rfl, hin⟩ := hresuming
      exact ⟨i, caller, body, phase, hr, hin⟩
    | _ => cases hresuming
  · rintro ⟨i, caller, body, phase, hr, hin⟩
    exact ⟨_, List.mem_of_getElem? hr, by simp [Handler.resuming, hin]⟩

end Server

omit [Crates] in
theorem Resume.inFlight_of_turnedAway {phase : Resume} (h : phase.TurnedAway) :
    phase.inFlight = false := by
  cases phase with
  | found => exact h.elim
  | executing => exact h.elim
  | stored => exact h.elim
  | _ => rfl

omit [Crates] in
theorem Resume.inFlight_of_work {input : ResumeInput} {spawn : Spawn RunProgress ResumeResult}
    {w : RunProgress × Bool} (h : spawn.work = some w) :
    (Resume.executing input spawn).inFlight = true := by
  cases spawn with
  | dropped => cases h
  | _ => rfl

/-- A resume in flight was in flight before, or has just found its session. -/
theorem Resume.Trans.inFlight_before {app app' : AppState} {i : RequestId} {caller : String}
    {id : Uuid} {body : Value} {m : Move} {phase phase' : Resume}
    (h : Resume.Trans app i caller id body phase m app' phase') (hin : phase'.inFlight = true) :
    phase.inFlight = true ∨ (phase = .received ∧ m = .advance ∧
      (∃ input, resumeInput body = some (.ok input)) ∧ app.sessions.owned id caller = true) := by
  cases h with
  | turnAway hturned =>
    rw [inFlight_of_turnedAway hturned] at hin
    cases hin
  | lookup hinput howned => exact .inr ⟨rfl, rfl, ⟨_, hinput⟩, howned⟩
  | refuse _ _ => cases hin
  | take _ _ _ => exact .inl rfl
  | @spawn input spawn spawn' m free hmoved =>
    cases hmoved with
    | wait _ hwork _ => exact .inl (inFlight_of_work hwork)
    | leave _ hwork _ => exact .inl (inFlight_of_work hwork)
    | gone _ hbefore _ =>
      cases spawn with
      | dropped => exact (hbefore rfl).elim
      | _ => exact .inl rfl
  | ran _ _ => exact .inl rfl
  | fail => cases hin
  | store _ => exact .inl rfl
  | restore _ => cases hin
  | answer _ => cases hin

/-! ## What a step does to an expiry -/

namespace Server

variable {s s' : Server} {a : Action} {id : Uuid}

/-- A step finds session `id` for a resume. -/
def Finds (s : Server) (a : Action) (id : Uuid) : Prop :=
  ∃ (i : RequestId) (caller : String) (body : Value), a = .move i .advance ∧
    s.requests[i]? = some ⟨caller, .resume id body .received⟩ ∧
    (∃ input, resumeInput body = some (.ok input)) ∧ s.app.sessions.owned id caller = true

theorem Trans.resuming_before (h : s.Trans a s') (hin : s'.resuming id = true) :
    s.resuming id = true ∨ s.Finds a id := by
  obtain ⟨i, caller, body, phase, hr', hin⟩ := resuming_iff.mp hin
  rcases h.resume_before hr' with hr | rfl | ⟨m, before, rfl, hr, htrans⟩
  · exact .inl (resuming_iff.mpr ⟨i, caller, body, phase, hr, hin⟩)
  · cases hin
  · rcases htrans.inFlight_before hin with hin | ⟨rfl, rfl, hinput, howned⟩
    · exact .inl (resuming_iff.mpr ⟨i, caller, body, before, hr, hin⟩)
    · exact .inr ⟨i, caller, body, rfl, hr, hinput, howned⟩

/-- **What moves an expiry**: the insertion of the session, and a resume in flight that stores its
step. -/
theorem Trans.expiry (h : s.Trans a s') {e' : SessionEntry} (he' : s'.entry id = some e') :
    (∃ e, s.entry id = some e ∧ e'.expiresAt = e.expiresAt ∧ e'.ttl = e.ttl) ∨
      (e'.expiresAt = s.app.now + e'.ttl ∧ (s.entry id = none ∨ s.resuming id = true)) := by
  cases h with
  | @create i m caller request phase phase' app hr h =>
    cases h with
    | @insert ttl tracker step j hnone =>
      by_cases hid : id = j
      · subst hid
        have heq : SessionEntry.new caller ttl tracker step s.app.now = e' := by
          simpa [entry] using he'
        subst heq
        exact .inr ⟨rfl, .inl hnone⟩
      · exact .inl ⟨e', by simpa [entry, hid] using he', rfl, rfl⟩
    | _ => exact .inl ⟨e', he', rfl, rfl⟩
  | @resume i m caller j body phase phase' app hr h =>
    by_cases hid : id = j
    · subst hid
      cases h with
      | @take input e p he _ _ =>
        have heq : { e with progress := none } = e' := by simpa [entry] using he'
        subst heq
        exact .inl ⟨e, he, rfl, rfl⟩
      | @ran input e p since entered lag awaited result w he _ =>
        have heq : { e with tracker := w.tracker } = e' := by simpa [entry] using he'
        subst heq
        exact .inl ⟨e, he, rfl, rfl⟩
      | @store input e step he =>
        have heq : e.storeStep step s.app.now = e' := by simpa [entry] using he'
        subst heq
        exact .inr ⟨rfl, .inr (resuming_iff.mpr ⟨i, caller, body, _, hr, rfl⟩)⟩
      | @restore input e p error he =>
        have heq : e.restore p = e' := by simpa [entry] using he'
        subst heq
        exact .inl ⟨e, he, rfl, rfl⟩
      | _ => exact .inl ⟨e', he', rfl, rfl⟩
    · have hother : app.sessions.entries id = s.app.sessions.entries id := (h.other hid).1
      exact .inl ⟨e', hother.symm.trans he', rfl, rfl⟩
  | delete _ h => cases h <;> exact .inl ⟨e', he', rfl, rfl⟩
  | _ => exact .inl ⟨e', he', rfl, rfl⟩

/-- Only the sweep collects. -/
theorem Trans.collected (h : s.Trans a s') (hid : id ∈ s'.expired) :
    id ∈ s.expired ∨ (a = .collect ∧ s' = { s with expired := s.app.sessions.expired s.app.now } ∧
      id ∈ s.app.sessions.expired s.app.now) := by
  cases h with
  | collect _ => exact .inr ⟨rfl, rfl, hid⟩
  | evict hcons => exact .inl (hcons ▸ List.mem_cons_of_mem _ hid)
  | _ => exact .inl hid

omit [Crates] in
/-- The step is the owner's `DELETE` removing session `id`. -/
def Deletes (s : Server) (a : Action) (id : Uuid) : Prop :=
  ∃ (i : RequestId) (caller : String),
    a = .move i .advance ∧ s.requests[i]? = some ⟨caller, .delete id .owned⟩

/-- A key is lost to the reaper or to its owner. -/
theorem Trans.key_lost (h : s.Trans a s') (hid : id ∈ s.app.sessions.sessions) :
    id ∈ s'.app.sessions.sessions ∨ (a = .evict ∧ id ∈ s.expired) ∨ s.Deletes a id := by
  have removed : ∀ {j : Uuid}, id ≠ j → id ∈ (s.app.sessions.removeKey j).sessions := fun hj => by
    simpa [SessionStore.removeKey] using ⟨hid, hj⟩
  cases h with
  | create _ h =>
    cases h with
    | insert _ => exact .inl (List.mem_cons_of_mem _ hid)
    | _ => exact .inl hid
  | resume _ h => cases h <;> exact .inl (by simpa using hid)
  | @delete i m caller j phase phase' app hr h =>
    cases h with
    | remove =>
      by_cases hj : id = j
      · subst hj
        exact .inr (.inr ⟨i, caller, rfl, hr⟩)
      · exact .inl (removed hj)
    | _ => exact .inl hid
  | @evict j expired hcons =>
    by_cases hj : id = j
    · subst hj
      exact .inr (.inl ⟨rfl, hcons ▸ List.mem_cons_self⟩)
    · exact .inl (removed hj)
  | _ => exact .inl hid

/-! ## Sweeps that leave resumes alone -/

/-- No sweep collects a session with a resume in flight, and no resume finds a session that a sweep
has collected and not removed yet. -/
structure Calm (s : Server) (a : Action) : Prop where
  collect : a = .collect → ∀ id ∈ s.app.sessions.expired s.app.now, s.resuming id = false
  find : ∀ id ∈ s.expired, ¬ s.Finds a id

omit [Crates] in
/-- What the reaper removes is past its expiry then, and no resume of it is in flight. -/
def FairEviction (s : Server) (a : Action) : Prop :=
  ∀ id expired, a = .evict → s.expired = id :: expired → id ∈ s.app.sessions.sessions →
    ∃ e, s.entry id = some e ∧ e.expiresAt ≤ s.app.now ∧ s.resuming id = false

omit [Crates] in
/-- What a calm run keeps between the two passes. -/
structure Swept (s : Server) : Prop where
  due : ∀ id ∈ s.expired, ∃ e, s.entry id = some e ∧ e.expiresAt ≤ s.app.now
  idle : ∀ id ∈ s.expired, s.resuming id = false
  bounded : ∀ id e, s.entry id = some e → e.expiresAt ≤ s.app.now + e.ttl

omit [Crates] in
theorem Swept.new (config : Config) : (Server.new config).Swept where
  due _ hid := nomatch hid
  idle _ hid := nomatch hid
  bounded _ _ he := nomatch he

omit [Crates] in
theorem Swept.fairEviction (swept : s.Swept) : s.FairEviction a := by
  intro id expired _ hcons _
  have hid : id ∈ s.expired := hcons ▸ List.mem_cons_self
  obtain ⟨e, he, hdue⟩ := swept.due id hid
  exact ⟨e, he, hdue, swept.idle id hid⟩

/-- An expiry never moves back. -/
theorem Swept.expiry_le (swept : s.Swept) (h : s.Trans a s') {e e' : SessionEntry}
    (he : s.entry id = some e) (he' : s'.entry id = some e') : e.expiresAt ≤ e'.expiresAt := by
  rcases h.expiry he' with ⟨e₀, he₀, hsame, -⟩ | ⟨hnew, -⟩
  · cases he.symm.trans he₀
    exact Nat.le_of_eq hsame.symm
  · obtain ⟨e₁, he₁, -, httl⟩ := h.grows.entry id e he
    cases he'.symm.trans he₁
    rw [hnew, httl]
    exact swept.bounded id e he

/-- **Step lemma**: a calm step leaves what has been collected idle and due. -/
theorem Swept.step (swept : s.Swept) (hcalm : s.Calm a) (h : s.Trans a s') : s'.Swept where
  due id hid := by
    rcases h.collected hid with hid | ⟨-, rfl, hexpired⟩
    · obtain ⟨e, he, hdue⟩ := swept.due id hid
      obtain ⟨e', he', -⟩ := h.grows.entry id e he
      have hnow := h.grows.now
      rcases h.expiry he' with ⟨e₀, he₀, hsame, -⟩ | ⟨-, hnone | hresuming⟩
      · cases he.symm.trans he₀
        exact ⟨e', he', Nat.le_trans (Nat.le_of_eq hsame) (Nat.le_trans hdue hnow)⟩
      · cases he.symm.trans hnone
      · -- only a resume in flight moves an expiry, and there is none
        cases hresuming.symm.trans (swept.idle id hid)
    · have hdue := (List.mem_filter.mp hexpired).2
      obtain ⟨e, he, hdue⟩ := Option.any_eq_true _ _ |>.mp hdue
      exact ⟨e, he, of_decide_eq_true hdue⟩
  idle id hid := by
    rcases h.collected hid with hid | ⟨ha, rfl, hexpired⟩
    · apply Bool.eq_false_iff.mpr
      intro hin
      rcases h.resuming_before hin with hin | hfinds
      · cases hin.symm.trans (swept.idle id hid)
      · exact hcalm.find id hid hfinds
    · exact hcalm.collect ha id hexpired
  bounded id e' he' := by
    have hnow : s.app.now ≤ s'.app.now := h.grows.now
    rcases h.expiry he' with ⟨e, he, hsame, httl⟩ | ⟨hnew, -⟩
    · rw [hsame, httl]
      exact Nat.le_trans (swept.bounded id e he) (Nat.add_le_add_right hnow _)
    · rw [hnew]
      exact Nat.add_le_add_right hnow _

/-! ## What an answer promises -/

omit [Crates] in
/-- The step is a resume that locks session `id` to take its progress. -/
def Takes (s : Server) (a : Action) (id : Uuid) : Prop :=
  ∃ (i : RequestId) (caller : String) (body : Value) (input : ResumeInput),
    a = .move i .advance ∧ s.requests[i]? = some ⟨caller, .resume id body (.found input)⟩

/-- **Frame of an idle session**: while its progress is in the entry, only a resume that takes it
changes the entry. -/
theorem Wf.idle_step (wf : s.Wf) (h : s.Trans a s') {e : SessionEntry} {p : RunProgress}
    (he : s.entry id = some e) (hp : e.progress = some p) (htakes : ¬ s.Takes a id) :
    s'.entry id = some e := by
  -- nobody has the progress in hand
  have hhands : ∀ i h', s.hand id i ≠ some h' := fun i h' hh => by
    have hhome := (wf.cell id).home_none_of_hand hh
    simp [Server.cell, he, hp] at hhome
  cases h with
  | create _ h =>
    cases h with
    | @insert _ _ _ j hnone =>
      have hid : id ≠ j := by
        rintro rfl
        cases hnone.symm.trans he
      simpa [entry, hid] using he
    | _ => exact he
  | @resume i m caller j body phase phase' app hr h =>
    by_cases hid : id = j
    · subst hid
      have hown : phase.hand i e.tracker = none :=
        Option.eq_none_iff_forall_ne_some.mpr fun h' hh =>
          hhands i h' ((hand_of_request hr he).trans ((hand_own ..).trans hh))
      cases h with
      | take _ _ _ => exact (htakes ⟨i, caller, body, _, rfl, hr⟩).elim
      | @ran _ _ _ _ _ _ awaited _ _ _ _ => cases awaited <;> cases hown
      | store _ => cases hown
      | restore _ => cases hown
      | _ => exact he
    · have hother : app.sessions.entries id = s.app.sessions.entries id := (h.other hid).1
      exact hother.trans he
  | delete _ h => cases h <;> exact he
  | _ => exact he

/-- While a resume is in flight its session stays in the map. -/
theorem Swept.held_step (swept : s.Swept) (h : s.Trans a s') (hkept : ¬ s.Deletes a id)
    (hheld : s.resuming id = true → id ∈ s.app.sessions.sessions) (hin : s'.resuming id = true) :
    id ∈ s'.app.sessions.sessions := by
  rcases h.resuming_before hin with hbefore | ⟨i, caller, body, rfl, -, -, howned⟩
  · rcases h.key_lost (hheld hbefore) with hid | ⟨-, hid⟩ | hdeletes
    · exact hid
    · cases hbefore.symm.trans (swept.idle id hid)
    · exact (hkept hdeletes).elim
  · rcases h.key_lost (SessionStore.owned_iff.mp howned).1 with hid | ⟨ha, -⟩ | hdeletes
    · exact hid
    · cases ha
    · exact (hkept hdeletes).elim

omit [Crates] in
/-- Until `deadline`, session `id` is stored for `caller` and not expired. -/
def Promised (s : Server) (id : Uuid) (caller : String) (deadline : Instant) : Prop :=
  ∃ e, s.entry id = some e ∧ e.principal = caller ∧
    (s.app.now < deadline → deadline ≤ e.expiresAt ∧ id ∈ s.app.sessions.sessions)

theorem Swept.promised_step (swept : s.Swept) (h : s.Trans a s') (hkept : ¬ s.Deletes a id)
    {caller : String} {deadline : Instant} (hpromised : s.Promised id caller deadline) :
    s'.Promised id caller deadline := by
  obtain ⟨e, he, rfl, huntil⟩ := hpromised
  obtain ⟨e', he', hprincipal, -⟩ := h.grows.entry id e he
  refine ⟨e', he', hprincipal, ?_⟩
  intro hnow'
  have hnow : s.app.now < deadline := Nat.lt_of_le_of_lt h.grows.now hnow'
  obtain ⟨hexpires, hid⟩ := huntil hnow
  refine ⟨Nat.le_trans hexpires (swept.expiry_le h he he'), ?_⟩
  rcases h.key_lost hid with hid | ⟨-, hid⟩ | hdeletes
  · exact hid
  · -- it would have been due, and it is not
    obtain ⟨e₀, he₀, hdue⟩ := swept.due id hid
    cases he.symm.trans he₀
    exact absurd (Nat.le_trans hexpires hdue) (Nat.not_le.mpr hnow)
  · exact (hkept hdeletes).elim

/-- Whenever a resume of session `id` answers with a pause that expires in `n` seconds, its owner
still has the session at any time within these, and can resume it unless a resume has taken the
progress meanwhile. -/
def KeepsPromises (s : Server) (as : List Action) (id : Uuid) : Prop :=
  ∀ (before after : List Action) (i : RequestId) (caller : String) (body : Value)
    (view : SessionView) (s₁ s₂ s₃ : Server),
    as = before ++ .move i .advance :: after → Run.exec step s before = some s₁ →
    s₁.step (.move i .advance) = some s₂ → Run.exec step s₂ after = some s₃ →
    s₁.requests[i]? = some ⟨caller, .resume id body .stored⟩ →
    s₂.requests[i]? = some ⟨caller, .resume id body (.done (.ok view))⟩ →
    (∃ pause stdout stderr stats, view.state = .Paused pause stdout stderr stats) →
    s₃.app.now < s₁.app.now + view.expiresInSeconds * 1000000000 →
    s₃.app.sessions.owned id caller = true ∧
      (Run.EveryStep step (fun s a => ¬ s.Takes a id) s₂ after →
        ∃ e taken, s₃.entry id = some e ∧ e.acquireForResume = .ok taken)

/-- What a paused answer says of the session at the time. -/
theorem Wf.promised_of_answer (wf : s.Wf) (h : s.step a = some s') {i : RequestId} {caller : String}
    {body : Value} {view : SessionView}
    (hr : s.requests[i]? = some ⟨caller, .resume id body .stored⟩)
    (hr' : s'.requests[i]? = some ⟨caller, .resume id body (.done (.ok view))⟩)
    (hpaused : ∃ pause stdout stderr stats, view.state = .Paused pause stdout stderr stats)
    (hid : id ∈ s.app.sessions.sessions) :
    s'.Promised id caller (s.app.now + view.expiresInSeconds * 1000000000) ∧
      ∃ e p, s'.entry id = some e ∧ e.terminal = false ∧ e.progress = some p := by
  obtain ⟨e, he, hprincipal⟩ : s.app.Owns caller id := wf.handlers i _ hr
  rcases (step_cases h).resume_cases hr with hsame | ⟨m, phase', -, htrans, hdone⟩
  · cases hsame.symm.trans hr'
  · cases hdone.symm.trans hr'
    generalize happ : s'.app = app at htrans
    generalize hresponse : (Except.ok view : ApiResult SessionView) = response at htrans
    cases htrans with
    | @answer e₀ he₀ =>
      cases he.symm.trans he₀
      have he' : s'.entry id = some e := by rw [entry, happ]; exact he
      obtain ⟨-, hexpires, hstate⟩ := render_ok hresponse.symm
      obtain ⟨pause, stdout, stderr, stats, hpause⟩ := hpaused
      rw [hpause] at hstate
      obtain ⟨⟨output, stats', hsnapshot⟩, p, hp⟩ := renderState_paused hstate
      have hflag := (wf.consistent he).2
      rw [hsnapshot] at hflag
      refine ⟨⟨e, he', hprincipal, fun hnow => ⟨?_, happ ▸ hid⟩⟩, e, p, he', hflag, hp⟩
      -- the view rounds down, so what it says is at most what is left
      rw [happ, hexpires] at hnow
      rw [hexpires]
      have hround := Duration.asSecs_mul_le (e.expiresAt - s.app.now)
      have hpos := Nat.lt_of_lt_of_le (Nat.lt_add_right_iff_pos.mp hnow) hround
      exact Nat.add_le_of_le_sub' (Nat.le_of_lt (Nat.lt_of_sub_pos hpos)) hround

end Server

/-- **The reaper spares sessions that are in use**: in every run in which no sweep collects a
session with a resume in flight and no resume finds a session that is collected and not yet removed,
the reaper removes only what is past its expiry and idle at that moment, and what a paused answer
says about the expiry holds for as long as the owner does not delete the session. -/
theorem reaper_spares_sessions (config : Config) (as : List Action)
    (h : Run.EveryStep Server.step Server.Calm (.new config) as) :
    Run.EveryStep Server.step Server.FairEviction (.new config) as ∧
      ∀ id, Run.EveryStep Server.step (fun s a => ¬ s.Deletes a id) (.new config) as →
        Server.KeepsPromises (.new config) as id := by
  constructor
  · exact Run.everyStep_of_everyStep (I := Server.Swept)
      (fun _ _ _ swept hcalm hstep => swept.step hcalm (Server.step_cases hstep))
      (fun _ _ _ swept _ _ => swept.fairEviction) (Server.Swept.new config) h
  · intro id hkept before after i caller body view s₁ s₂ s₃ has hbefore hanswer hafter hr hr'
      hpaused hnow
    subst has
    obtain ⟨hq₁, hq⟩ := (Run.everyStep_append hbefore).mp (Run.everyStep_and h hkept)
    obtain ⟨⟨hcalm, hkept₁⟩, hq₂⟩ := hq s₂ hanswer
    have wf₁ : s₁.Wf := Server.wf_of_exec hbefore
    -- up to the answer: the session stays in the map while the resume is in flight
    have inv₁ : s₁.Swept ∧ (s₁.resuming id = true → id ∈ s₁.app.sessions.sessions) :=
      Run.exec_invariant_of_everyStep
        (I := fun s => s.Swept ∧ (s.resuming id = true → id ∈ s.app.sessions.sessions))
        (fun _ _ _ inv hq hstep => ⟨inv.1.step hq.1 (Server.step_cases hstep),
          inv.1.held_step (Server.step_cases hstep) hq.2 inv.2⟩)
        ⟨Server.Swept.new config, fun hin => by simp [Server.resuming, Server.new] at hin⟩
        hq₁ hbefore
    have hid : id ∈ s₁.app.sessions.sessions :=
      inv₁.2 (Server.resuming_iff.mpr ⟨i, caller, body, .stored, hr, rfl⟩)
    obtain ⟨hpromised, e, p, he, hterminal, hp⟩ :=
      wf₁.promised_of_answer hanswer hr hr' hpaused hid
    constructor
    · -- from the answer on: the promise stands
      obtain ⟨-, e₃, he₃, hprincipal, huntil⟩ := Run.exec_invariant_of_everyStep
        (I := fun s => s.Swept ∧
          s.Promised id caller (s₁.app.now + view.expiresInSeconds * 1000000000))
        (fun _ _ _ inv hq hstep => ⟨inv.1.step hq.1 (Server.step_cases hstep),
          inv.1.promised_step (Server.step_cases hstep) hq.2 inv.2⟩)
        ⟨inv₁.1.step hcalm (Server.step_cases hanswer), hpromised⟩ hq₂ hafter
      exact SessionStore.owned_iff.mpr ⟨(huntil hnow).2, e₃, he₃, hprincipal⟩
    · intro huntaken
      obtain ⟨-, he₃⟩ := Run.exec_invariant_of_everyStep (I := fun s => s.Wf ∧ s.entry id = some e)
        (fun _ _ _ inv htakes hstep =>
          ⟨inv.1.step hstep, inv.1.idle_step (Server.step_cases hstep) inv.2 hp htakes⟩)
        ⟨wf₁.step hanswer, he⟩ huntaken hafter
      exact ⟨e, _, he₃, SessionEntry.acquireForResume_ok.mpr ⟨hterminal, hp, rfl⟩⟩

section Samples

omit [Crates]

/-- `Calm`, as a test. -/
def Server.calm (s : Server) (a : Action) : Bool :=
  match a with
  | .collect => (s.app.sessions.expired s.app.now).all fun id => !s.resuming id
  | .move i .advance =>
    match s.requests[i]? with
    | some ⟨_, .resume id _ .received⟩ => !s.expired.contains id
    | _ => true
  | _ => true

theorem Server.calm_sound [Crates] (s : Server) (a : Action) (h : s.calm a = true) : s.Calm a where
  collect := by
    rintro rfl id hid
    simpa using List.all_eq_true.mp h id hid
  find := by
    rintro id hid ⟨i, caller, body, rfl, hr, -⟩
    simp [calm, hr, hid] at h

/-- No `DELETE` removes a session, as a test. -/
def Server.keeps (s : Server) (a : Action) : Bool :=
  match a with
  | .move i .advance =>
    match s.requests[i]? with
    | some ⟨_, .delete _ .owned⟩ => false
    | _ => true
  | _ => true

theorem Server.keeps_sound (id : Uuid) (s : Server) (a : Action) (h : s.keeps a = true) :
    ¬ s.Deletes a id := by
  rintro ⟨i, caller, rfl, hr⟩
  simp [keeps, hr] at h

/-- Session 7 is resumed, survives a sweep half a minute later, and is removed by the next. -/
def Sample.abandoned : List Action :=
  Sample.opening ++ Sample.resuming 1 ++
    [.tick 30000000000, .collect, .tick 30000000000, .collect, .evict]

/-- A session nobody comes back to is removed in its time. -/
theorem reaper_spares_sessions_abandoned :
    ∃ (_ : Crates),
      (∃ s, Run.exec Server.step (.new Sample.config) Sample.abandoned = some s ∧
        s.app.sessions.sessions = []) ∧
      Run.EveryStep Server.step Server.FairEviction (.new Sample.config) Sample.abandoned ∧
      Server.KeepsPromises (.new Sample.config) Sample.abandoned 7 := by
  let _ := Sample.crates
  have hrun : (Run.exec Server.step (.new Sample.config) Sample.abandoned).any
      (fun s => s.app.sessions.sessions.isEmpty) = true := by decide
  obtain ⟨s, hs, hempty⟩ := Option.any_eq_true _ _ |>.mp hrun
  have hcalm : Run.checkSteps Server.step Server.calm (.new Sample.config) Sample.abandoned =
      true := by decide
  have hkeeps : Run.checkSteps Server.step Server.keeps (.new Sample.config) Sample.abandoned =
      true := by decide
  obtain ⟨hfair, hpromises⟩ := reaper_spares_sessions Sample.config Sample.abandoned
    (Run.everyStep_of_check Server.calm_sound hcalm)
  exact ⟨Sample.crates, ⟨s, hs, List.isEmpty_iff.mp hempty⟩, hfair,
    hpromises 7 (Run.everyStep_of_check (Server.keeps_sound 7) hkeeps)⟩

/-- A resume that runs for longer than the TTL: the sweep has collected its session when it stores
its step, which extends the expiry, and then the sweep removes the session. -/
def Sample.overrun : List Action :=
  Sample.opening ++ Sample.taking 1 ++ [.move 1 .acquire, .move 1 .spawn, .move 1 .start,
    .tick 60000000000, .collect, .move 1 (.finish 0 {}), .move 1 .advance]

/-- The reaper removes a session that has just been resumed and is not past its expiry. -/
theorem reaper_removes_resumed_session :
    ¬ ∀ (_ : Crates) (config : Config) (as : List Action),
      (∀ id, Run.EveryStep Server.step (fun s a => ¬ s.Deletes a id) (.new config) as) →
      Run.EveryStep Server.step Server.FairEviction (.new config) as := by
  intro h
  let _ := Sample.crates
  have hrun : (Run.exec Server.step (.new Sample.config) Sample.overrun).any
      (fun s => decide (s.expired = [7]) && s.app.sessions.sessions.contains 7 &&
        (s.entry 7).all fun e => s.app.now < e.expiresAt) = true := by decide
  obtain ⟨s, hs, htest⟩ := Option.any_eq_true _ _ |>.mp hrun
  simp only [Bool.and_eq_true, decide_eq_true_eq, List.contains_eq_mem] at htest
  obtain ⟨⟨hexpired, hid⟩, hfresh⟩ := htest
  have hkeeps : Run.checkSteps Server.step Server.keeps (.new Sample.config)
      (Sample.overrun ++ [.evict]) = true := by decide
  have hkept : ∀ id, Run.EveryStep Server.step (fun s a => ¬ s.Deletes a id) (.new Sample.config)
      (Sample.overrun ++ [.evict]) := fun id =>
    Run.everyStep_of_check (Server.keeps_sound id) hkeeps
  have hevery := h Sample.crates Sample.config (Sample.overrun ++ [.evict]) hkept
  have hevict : Run.EveryStep Server.step Server.FairEviction s [.evict] :=
    (Run.everyStep_append hs |>.mp hevery).2
  obtain ⟨s', hstep⟩ : ∃ s', s.step .evict = some s' := by simp [Server.step, hexpired]
  obtain ⟨e, he, hdue, -⟩ := (hevict s' hstep).1 7 [] rfl hexpired hid
  simp only [he, Option.all_some, decide_eq_true_eq] at hfresh
  exact absurd hdue (Nat.not_le.mpr hfresh)

end Samples

end MontyServer
