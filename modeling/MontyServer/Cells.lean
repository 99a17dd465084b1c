import MontyServer.Invariants
import MontyServer.Lib.Checkout

/-!
# A session is a cell

A session's entry, the requests that act on it and its history are one cell of
`MontyServer.Lib.Checkout`: the progress is the value checked out, the resumes are the clients, the
stored steps are the log. Every step of the server is a step of each cell or leaves it alone
(`Server.Trans.effect`), so the cell invariant is an invariant of the server.
-/

namespace MontyServer

open Checkout (Hand Cell Rules)

section Cell

variable [Crates]

/-- What the steps of a session mean: a pause leaves the progress to be resumed, together with the
tracker; the first step comes from a start, every other from a resume of what was left. -/
def rules : Rules Token Link where
  next link :=
    match link.step with
    | .Paused progress _ _ => some (progress, link.tracker)
    | _ => none
  Opens link := link.input = none ∧ FromStart link.tracker link.step
  Follows token link :=
    ∃ (input : ResumeInput) (now : Instant) (lag : Lag) (w : World), link.input = some input ∧
      resumeSession token.1 token.2 input now lag = (some (.Stepped link.step), w) ∧
      link.tracker = w.tracker

omit [Crates] in
/-- What a resume has in hand, given the tracker of its session. -/
def Resume.hand (i : RequestId) (tracker : StatsTracker) : Resume → Option (Hand Token Link)
  | .executing _ (.queued p) | .executing _ (.admitted p) | .executing _ (.spawned p true)
  | .executing _ (.running p _ true) => some (.pending (p, tracker))
  | .executing _ (.spawned p false) | .executing _ (.running p _ false) =>
    some (.adrift (p, tracker))
  | .executing input (.finished (some (.Stepped step))) =>
    some (.used ⟨i, some input, step, tracker⟩)
  | .executing _ (.finished (some (.Mismatch p _))) => some (.pending (p, tracker))
  | _ => none

omit [Crates] in
/-- What a request has in hand of session `id`. -/
def Handler.hand (id : Uuid) (i : RequestId) (tracker : StatsTracker) :
    Handler → Option (Hand Token Link)
  | .resume id' _ phase => if id' = id then phase.hand i tracker else none
  | _ => none

namespace Server

omit [Crates] in
def entry (s : Server) (id : Uuid) : Option SessionEntry := s.app.sessions.entries id

omit [Crates] in
/-- What request `i` has in hand of session `id`. -/
def hand (s : Server) (id : Uuid) (i : RequestId) : Option (Hand Token Link) := do
  let e ← s.entry id
  let r ← s.requests[i]?
  r.handler.hand id i e.tracker

omit [Crates] in
/-- A session as a cell. -/
def cell (s : Server) (id : Uuid) : Cell RequestId Token Link where
  home := (s.entry id).bind fun e => e.progress.map fun p => (p, e.tracker)
  hands := s.hand id
  log := s.app.trail id
  spent := s.app.applied id

end Server

omit [Crates] in
theorem Resume.hand_work {spawn : Spawn RunProgress ResumeResult} {p : RunProgress} {awaited : Bool}
    (h : spawn.work = some (p, awaited)) (i : RequestId) (tracker : StatsTracker)
    (input : ResumeInput) : (Resume.executing input spawn).hand i tracker =
      some (if awaited then .pending (p, tracker) else .adrift (p, tracker)) := by
  match spawn, awaited with
  | .queued _, _ => cases h; rfl
  | .admitted _, _ => cases h; rfl
  | .spawned _ true, _ => cases h; rfl
  | .spawned _ false, _ => cases h; rfl
  | .running _ _ true, _ => cases h; rfl
  | .running _ _ false, _ => cases h; rfl
  | .finished _, _ => cases h
  | .dropped, _ => cases h

omit [Crates] in
theorem Resume.hand_turnedAway {phase : Resume} (h : phase.TurnedAway) (i : RequestId)
    (tracker : StatsTracker) : phase.hand i tracker = none := by
  cases phase with
  | executing => exact h.elim
  | _ => rfl

omit [Crates] in
/-- Whether a resume has something in hand does not depend on the tracker. -/
theorem Resume.hand_eq_none {phase : Resume} {i : RequestId} {t : StatsTracker}
    (h : phase.hand i t = none) (t' : StatsTracker) : phase.hand i t' = none := by
  match phase with
  | .executing _ (.queued _) => cases h
  | .executing _ (.admitted _) => cases h
  | .executing _ (.spawned _ true) => cases h
  | .executing _ (.spawned _ false) => cases h
  | .executing _ (.running _ _ true) => cases h
  | .executing _ (.running _ _ false) => cases h
  | .executing _ (.finished (some (.Stepped _))) => cases h
  | .executing _ (.finished (some (.Mismatch ..))) => cases h
  | .executing _ (.finished none) => rfl
  | .executing _ .dropped => rfl
  | .received => rfl
  | .found _ => rfl
  | .stored => rfl
  | .done _ => rfl
  | .rejected => rfl
  | .dropped => rfl

omit [Crates] in
theorem Handler.hand_eq_none {h : Handler} {id : Uuid} {i : RequestId} {t : StatsTracker}
    (hnone : h.hand id i t = none) (t' : StatsTracker) : h.hand id i t' = none := by
  cases h with
  | resume id' body phase =>
    simp only [Handler.hand] at hnone ⊢
    split
    · next hid =>
      rw [if_pos hid] at hnone
      exact Resume.hand_eq_none hnone t'
    · rfl
  | _ => rfl

namespace Server

variable {s s' : Server} {id : Uuid} {i j : RequestId} {r r₀ : Request} {app : AppState}
  {e e' : SessionEntry}

omit [Crates] in
@[simp] theorem advanced_entry :
    (s.advanced app i r).entry id = app.sessions.entries id := rfl

omit [Crates] in
theorem hand_of_request (hr : s.requests[i]? = some r₀) (he : s.entry id = some e) :
    s.hand id i = r₀.handler.hand id i e.tracker := by
  simp [hand, hr, he]

omit [Crates] in
theorem hand_of_no_entry (he : s.entry id = none) : s.hand id i = none := by
  simp [hand, he]

omit [Crates] in
theorem advanced_hand_self (hr : s.requests[i]? = some r₀)
    (he : app.sessions.entries id = some e') :
    (s.advanced app i r).hand id i = r.handler.hand id i e'.tracker :=
  hand_of_request (s := s.advanced app i r) ((advanced_request hr).mpr (.inl ⟨rfl, rfl⟩)) he

omit [Crates] in
theorem advanced_hand_other (hj : j ≠ i) :
    (s.advanced app i r).hand id j =
      (app.sessions.entries id).bind fun e =>
        s.requests[j]?.bind fun r => r.handler.hand id j e.tracker := by
  simp [hand, entry, advanced, Ne.symm hj, bind]

omit [Crates] in
/-- A cell whose entry and histories are left alone, by a request that keeps what it has in
hand. -/
theorem cell_same (hr : s.requests[i]? = some r₀) (he : app.sessions.entries id = s.entry id)
    (htrail : app.trail id = s.app.trail id) (happlied : app.applied id = s.app.applied id)
    (hhand : ∀ t, r.handler.hand id i t = r₀.handler.hand id i t) :
    (s.advanced app i r).cell id = s.cell id := by
  have hhands : (s.advanced app i r).hand id = s.hand id := by
    funext j
    by_cases hj : j = i
    · subst hj
      cases hentry : s.entry id with
      | none =>
        rw [hand_of_no_entry hentry]
        exact hand_of_no_entry (s := s.advanced app j r) (he.trans hentry)
      | some e =>
        rw [hand_of_request hr hentry, advanced_hand_self hr (he.trans hentry), hhand]
    · rw [advanced_hand_other hj, he]
      rfl
  simp only [cell, hhands, advanced_app, htrail, happlied]
  rw [advanced_entry, he]

omit [Crates] in
/-- A cell whose entry changes by a request of its own. -/
theorem cell_change (hr : s.requests[i]? = some r₀) (he : s.entry id = some e)
    (he' : app.sessions.entries id = some e')
    (hothers : e'.tracker = e.tracker ∨ ∀ j, j ≠ i → s.hand id j = none) :
    (s.advanced app i r).cell id =
      { home := e'.progress.map fun p => (p, e'.tracker)
        hands := Function.update (s.hand id) i (r.handler.hand id i e'.tracker)
        log := app.trail id
        spent := app.applied id } := by
  have hhands : (s.advanced app i r).hand id =
      Function.update (s.hand id) i (r.handler.hand id i e'.tracker) := by
    funext j
    by_cases hj : j = i
    · subst hj
      rw [advanced_hand_self hr he', Function.update_self]
    · rw [advanced_hand_other hj, he', Function.update_of_ne hj]
      cases hrj : s.requests[j]? with
      | none => simp [hand, hrj]
      | some rj =>
        rw [hand_of_request hrj he]
        -- the hands of others show the tracker, which is the same or which nobody else has
        rcases hothers with htracker | hnone
        · simp [htracker]
        · have := hnone j hj
          rw [hand_of_request hrj he] at this
          rw [this]
          exact Handler.hand_eq_none this _
  simp only [cell, hhands, advanced_app]
  rw [advanced_entry, he']
  rfl

end Server

namespace Server

/-- A request has something in hand only of a session that is there. -/
theorem HandlersOk.hand_none {s : Server} (hok : s.HandlersOk) {id : Uuid}
    (hnone : s.entry id = none) {i : RequestId} {r : Request} (hr : s.requests[i]? = some r)
    (t : StatsTracker) : r.handler.hand id i t = none := by
  have h := hok i r hr
  cases hh : r.handler with
  | resume id' body phase =>
    rw [hh] at h
    simp only [Handler.hand]
    split
    · next hid =>
      subst hid
      cases phase with
      | executing input spawn =>
        obtain ⟨e, he, -⟩ := h.2
        cases he.symm.trans hnone
      | _ => rfl
    · rfl
  | _ => rfl

end Server

/-! ## Every step is a step of each cell -/

namespace Server

/-- The step lets go of the progress of session `id`: the request that has it is dropped, its task
is cancelled, or the interpreter panics on it. -/
def LetsGo (s : Server) (a : Action) (id : Uuid) : Prop :=
  match a with
  | .move i .drop | .move i .abort => ∃ h, s.hand id i = some h ∧ h.Live
  | .move i (.finish entered lag) =>
    ∃ (caller : String) (body : Value) (input : ResumeInput) (p : RunProgress) (since : Instant)
      (e : SessionEntry),
      s.requests[i]? = some ⟨caller, .resume id body (.executing input (.running p since true))⟩ ∧
      s.entry id = some e ∧ (resumeSession p e.tracker input entered lag).1 = none
  | _ => False

/-- What a step does to session `id`: nothing, or a step of its cell. -/
inductive Effect (s : Server) (a : Action) (s' : Server) (id : Uuid) : Prop
  | same : s'.entry id = s.entry id → s'.cell id = s.cell id → ¬ s.LetsGo a id → Effect s a s' id
  | step (e : Checkout.Event RequestId) : Checkout.Step rules (s.cell id) e (s'.cell id) →
    (Checkout.Kept rules (s.cell id) → (e.Abandons ↔ s.LetsGo a id)) → Effect s a s' id

omit [Crates] in
/-- Only a resume of `id` that has something in hand can let go of it. -/
theorem not_letsGo {s : Server} {id : Uuid} {i : RequestId} {m : Move} {r : Request}
    (hr : s.requests[i]? = some r) (hhand : ∀ t, r.handler.hand id i t = none) :
    ¬ s.LetsGo (.move i m) id := by
  have hnone : s.hand id i = none := by
    cases he : s.entry id with
    | none => exact hand_of_no_entry he
    | some e => rw [hand_of_request hr he, hhand]
  unfold LetsGo
  split
  · next h =>
    cases h
    rintro ⟨h, hh, -⟩
    cases hnone.symm.trans hh
  · next h =>
    cases h
    rintro ⟨h, hh, -⟩
    cases hnone.symm.trans hh
  · next h =>
    cases h
    rintro ⟨caller, body, input, p, since, e, hr', -, -⟩
    cases hr.symm.trans hr'
    have := hhand e.tracker
    simp [Handler.hand, Resume.hand] at this
  · exact not_false

end Server

/-- A resume touches no session but its own. -/
theorem Resume.Trans.other {app app' : AppState} {i : RequestId} {caller : String} {id : Uuid}
    {body : Value} {m : Move} {phase phase' : Resume}
    (h : Resume.Trans app i caller id body phase m app' phase') {j : Uuid} (hj : j ≠ id) :
    app'.sessions.entries j = app.sessions.entries j ∧ app'.trail j = app.trail j ∧
      app'.applied j = app.applied j := by
  cases h with
  | turnAway _ => exact ⟨rfl, rfl, rfl⟩
  | lookup _ _ => exact ⟨rfl, rfl, rfl⟩
  | refuse _ _ => exact ⟨rfl, rfl, rfl⟩
  | spawn _ => exact ⟨rfl, rfl, rfl⟩
  | fail => exact ⟨rfl, rfl, rfl⟩
  | answer _ => exact ⟨rfl, rfl, rfl⟩
  | take _ _ _ => exact ⟨by simp [hj], rfl, rfl⟩
  | restore _ => exact ⟨by simp [hj], rfl, rfl⟩
  | store _ => exact ⟨by simp [hj], by simp [hj], rfl⟩
  | @ran input e p since entered lag awaited result w _ _ =>
    refine ⟨by simp [hj], by simp, ?_⟩
    cases hc : checkResume p input with
    | error err =>
      exact congrFun (AppState.apply_applied_error _ _ (p, e.tracker) hc) j
    | ok u =>
      exact (AppState.apply_applied_ok _ _ j (p, e.tracker) hc).trans (if_neg hj)

namespace Server

variable {s s' : Server} {a : Action} {id : Uuid}

omit [Crates] in
theorem hand_other {id' : Uuid} (hid : id' ≠ id) (i : RequestId) (body : Value) (phase : Resume)
    (t : StatsTracker) : (Handler.resume id' body phase).hand id i t = none :=
  if_neg hid

omit [Crates] in
theorem hand_own (i : RequestId) (body : Value) (phase : Resume) (t : StatsTracker) :
    (Handler.resume id body phase).hand id i t = phase.hand i t :=
  if_pos rfl

/-- A request with nothing in hand of a session, before or after, that leaves its entry alone. -/
theorem effect_quiet {app : AppState} {i : RequestId} {m : Move} {r r₀ : Request}
    (hr : s.requests[i]? = some r₀) (he : app.sessions.entries id = s.entry id)
    (htrail : app.trail id = s.app.trail id) (happlied : app.applied id = s.app.applied id)
    (hhand₀ : ∀ t, r₀.handler.hand id i t = none) (hhand : ∀ t, r.handler.hand id i t = none) :
    s.Effect (.move i m) (s.advanced app i r) id :=
  .same he (cell_same hr he htrail happlied fun t => by rw [hhand, hhand₀])
    (not_letsGo hr hhand₀)

omit [Crates] in
/-- A request changes what it has in hand, and nothing else. -/
theorem cell_hands {app : AppState} {i : RequestId} {r r₀ : Request} {e : SessionEntry}
    (hr : s.requests[i]? = some r₀) (he : s.entry id = some e)
    (he' : app.sessions.entries id = some e) (htrail : app.trail id = s.app.trail id)
    (happlied : app.applied id = s.app.applied id) :
    (s.advanced app i r).cell id =
      { s.cell id with
        hands := Function.update (s.cell id).hands i (r.handler.hand id i e.tracker) } := by
  rw [cell_change hr he he' (.inl rfl), htrail, happlied]
  simp only [cell, he, Option.bind_some]

/-- The effect on a session of what `spawn_execution` does with its resume. -/
theorem effect_spawn (hok : s.HandlersOk) (inv : Checkout.Inv rules (s.cell id)) {i : RequestId}
    {m : Move} {caller : String} {body : Value} {input : ResumeInput} {free : Nat}
    {spawn spawn' : Spawn RunProgress ResumeResult}
    (hr : s.requests[i]? = some ⟨caller, .resume id body (.executing input spawn)⟩)
    (h : spawn.Moved m spawn') :
    s.Effect (.move i m) (s.advanced (s.app.setConcurrency free) i
      ⟨caller, .resume id body (.executing input spawn')⟩) id := by
  obtain ⟨e, he, -⟩ := (hok i _ hr).2
  have hhand : s.hand id i = (Resume.executing input spawn).hand i e.tracker :=
    (hand_of_request hr he).trans (hand_own ..)
  cases h with
  | wait hm hwork hwork' =>
    refine .same rfl (cell_same hr rfl rfl rfl ?_) ?_
    · intro t
      rw [hand_own, hand_own, Resume.hand_work hwork, Resume.hand_work hwork']
    · rcases hm with rfl | rfl | rfl <;> exact not_false
  | leave hm hwork hwork' =>
    subst hm
    rw [Resume.hand_work hwork] at hhand
    refine .step (.leave i) ?_ fun _ => iff_of_true trivial ⟨_, hhand, trivial⟩
    have he' : (s.app.setConcurrency free).sessions.entries id = some e := he
    rw [cell_hands hr he he' rfl rfl, hand_own, Resume.hand_work hwork']
    exact .leave hhand
  | gone hm _ hgone =>
    have hnone : ∀ t, (Resume.executing input spawn').hand i t = none := fun t => by
      rcases hgone with rfl | rfl <;> rfl
    -- a call may be dropped with nothing in hand any more, once its task has failed
    cases hbefore : (Resume.executing input spawn).hand i e.tracker with
    | none =>
      exact effect_quiet hr rfl rfl rfl
        (fun t => (hand_own ..).trans (Resume.hand_eq_none hbefore t))
        (fun t => (hand_own ..).trans (hnone t))
    | some hand =>
      rw [hbefore] at hhand
      refine .step (.lose i) ?_ fun hkept => iff_of_true trivial ?_
      · have he' : (s.app.setConcurrency free).sessions.entries id = some e := he
        rw [cell_hands hr he he' rfl rfl, hand_own, hnone]
        exact .lose hhand
      · have hlive : hand.Live := by
          match hand with
          | .pending _ => trivial
          | .used _ => trivial
          | .adrift _ => exact (inv.not_kept_of_adrift hhand hkept).elim
        rcases hm with rfl | rfl <;> exact ⟨hand, hhand, hlive⟩

/-- The effect on a session of its resume's task returning. -/
theorem effect_ran (inv : Checkout.Inv rules (s.cell id)) {i : RequestId} {caller : String}
    {body : Value} {input : ResumeInput} {e : SessionEntry} {p : RunProgress}
    {since entered : Instant} {lag : Lag} {awaited : Bool} {result : Option ResumeResult}
    {w : World}
    (hr : s.requests[i]? =
      some ⟨caller, .resume id body (.executing input (.running p since awaited))⟩)
    (he : s.entry id = some e)
    (hrun : resumeSession p e.tracker input entered lag = (result, w)) :
    s.Effect (.move i (.finish entered lag))
      (s.advanced (((s.app.setEntry id { e with tracker := w.tracker }).apply id (p, e.tracker)
          input).setConcurrency (s.app.concurrency + 1)) i
        ⟨caller, .resume id body (.executing input (.settled awaited result))⟩) id := by
  have hhand : (s.cell id).hands i =
      some (if awaited then .pending (p, e.tracker) else .adrift (p, e.tracker)) :=
    (hand_of_request hr he).trans ((hand_own ..).trans (Resume.hand_work rfl ..))
  have hothers : ∀ j, j ≠ i → s.hand id j = none := fun j hj => by
    cases hh : s.hand id j with
    | none => rfl
    | some h => exact (hj (inv.single hh hhand)).elim
  have hprogress : e.progress = none := by
    have hhome := inv.home_none_of_hand hhand
    simpa [cell, he] using hhome
  cases hc : checkResume p input with
  | error err =>
    -- nothing has run: a waiting handler gets the progress back, a detached one loses it
    rw [resumeSession_error hc] at hrun
    cases hrun
    have he' : (((s.app.setEntry id { e with tracker := e.tracker }).apply id (p, e.tracker)
        input).setConcurrency (s.app.concurrency + 1)).sessions.entries id = some e := by simp
    have happlied : (((s.app.setEntry id { e with tracker := e.tracker }).apply id (p, e.tracker)
        input).setConcurrency (s.app.concurrency + 1)).applied id = s.app.applied id := by
      rw [AppState.setConcurrency_applied, AppState.apply_applied_error _ _ _ hc]
      rfl
    cases awaited with
    | true =>
      refine .same (he'.trans he.symm) (cell_same hr (he'.trans he.symm) (by simp) happlied
        fun t => ?_) ?_
      · rw [hand_own, hand_own]
        rfl
      · rintro ⟨caller', body', input', p', since', e', hr', he₂, hpanic⟩
        cases hr.symm.trans hr'
        cases he.symm.trans he₂
        rw [resumeSession_error hc] at hpanic
        cases hpanic
    | false =>
      refine .step (.lose i) ?_ fun hkept => (inv.not_kept_of_adrift hhand hkept).elim
      rw [cell_hands hr he he' (by simp) happlied, hand_own]
      exact .lose hhand
  | ok u =>
    have he' : (((s.app.setEntry id { e with tracker := w.tracker }).apply id (p, e.tracker)
        input).setConcurrency (s.app.concurrency + 1)).sessions.entries id =
          some { e with tracker := w.tracker } := by simp
    have happlied : (((s.app.setEntry id { e with tracker := w.tracker }).apply id (p, e.tracker)
        input).setConcurrency (s.app.concurrency + 1)).applied id =
          ((s.app.trail id).length, (p, e.tracker)) :: s.app.applied id := by
      rw [AppState.setConcurrency_applied, AppState.apply_applied_ok _ _ _ _ hc, if_pos rfl]
      rfl
    -- the run is recorded, and the tracker is the one it left
    have hcell : (s.advanced (((s.app.setEntry id { e with tracker := w.tracker }).apply id
        (p, e.tracker) input).setConcurrency (s.app.concurrency + 1)) i
          ⟨caller, .resume id body (.executing input (.settled awaited result))⟩).cell id =
        { s.cell id with
          hands := Function.update (s.cell id).hands i
            ((Resume.executing input (.settled awaited result)).hand i w.tracker)
          spent := ((s.cell id).log.length, (p, e.tracker)) :: (s.cell id).spent } := by
      rw [cell_change hr he he' (.inr hothers), happlied, hand_own]
      simp [hprogress, cell, he]
    rcases resumeSession_ok hc hrun with rfl | ⟨step, rfl⟩
    · cases awaited with
      | true =>
        refine .step (.burn i) ?_ fun _ => iff_of_true trivial
          ⟨caller, body, input, p, since, e, hr, he, by rw [hrun]⟩
        rw [hcell]
        exact .burn (.inl hhand)
      | false =>
        refine .step (.burn i) ?_ fun hkept => (inv.not_kept_of_adrift hhand hkept).elim
        rw [hcell]
        exact .burn (.inr hhand)
    · cases awaited with
      | true =>
        refine .step (.use i) ?_ fun _ => iff_of_false not_false ?_
        · rw [hcell]
          exact .use hhand ⟨input, entered, lag, w, rfl, hrun, rfl⟩
        · rintro ⟨caller', body', input', p', since', e', hr', he₂, hpanic⟩
          cases hr.symm.trans hr'
          cases he.symm.trans he₂
          rw [hrun] at hpanic
          cases hpanic
      | false =>
        refine .step (.burn i) ?_ fun hkept => (inv.not_kept_of_adrift hhand hkept).elim
        rw [hcell]
        exact .burn (.inr hhand)

/-- The effect of a resume on its own session. -/
theorem effect_resume (hok : s.HandlersOk) (inv : Checkout.Inv rules (s.cell id)) {i : RequestId}
    {m : Move} {caller : String} {body : Value} {phase phase' : Resume} {app : AppState}
    (hr : s.requests[i]? = some ⟨caller, .resume id body phase⟩)
    (h : Resume.Trans s.app i caller id body phase m app phase') :
    s.Effect (.move i m) (s.advanced app i ⟨caller, .resume id body phase'⟩) id := by
  have hhand : ∀ {e : SessionEntry}, s.entry id = some e →
      (s.cell id).hands i = phase.hand i e.tracker := fun he =>
    (hand_of_request hr he).trans (hand_own ..)
  cases h with
  | turnAway hturned =>
    exact effect_quiet hr rfl rfl rfl (fun t => hand_own ..)
      fun t => (hand_own ..).trans (Resume.hand_turnedAway hturned ..)
  | lookup _ _ => exact effect_quiet hr rfl rfl rfl (fun t => hand_own ..) (fun t => hand_own ..)
  | refuse _ _ => exact effect_quiet hr rfl rfl rfl (fun t => hand_own ..) (fun t => hand_own ..)
  | fail => exact effect_quiet hr rfl rfl rfl (fun t => hand_own ..) (fun t => hand_own ..)
  | answer _ => exact effect_quiet hr rfl rfl rfl (fun t => hand_own ..) (fun t => hand_own ..)
  | spawn hm => exact effect_spawn hok inv hr hm
  | ran he hrun => exact effect_ran inv hr he hrun
  | @take input e p he hterminal hp =>
    have hhome : (s.cell id).home = some (p, e.tracker) := by
      simp [cell, entry, he, hp]
    refine .step (.take i) ?_ fun _ => iff_of_false not_false not_false
    have he' := AppState.setEntry_self s.app id { e with progress := none }
    rw [cell_change hr he he' (.inl rfl), hand_own]
    exact .take hhome
  | @restore input e p error he =>
    refine .step (.giveBack i) ?_ fun _ => iff_of_false not_false not_false
    have he' := AppState.setEntry_self s.app id (e.restore p)
    rw [cell_change hr he he' (.inl rfl), hand_own]
    have hpending := hhand he
    exact .giveBack hpending
  | @store input e step he =>
    refine .step (.publish i) ?_ fun _ => iff_of_false not_false not_false
    have he' : ((s.app.setEntry id (e.storeStep step s.app.now)).extend id
        ⟨i, some input, step, e.tracker⟩).sessions.entries id =
          some (e.storeStep step s.app.now) := AppState.setEntry_self ..
    rw [cell_change hr he he' (.inl rfl), hand_own, AppState.extend_trail, if_pos rfl]
    have hstep : Checkout.Step rules (s.cell id) (.publish i) _ := .publish (hhand he)
    cases step <;> exact hstep

/-- The effect of an action that moves no request. -/
theorem effect_shared
    (hrequests : ∀ (i : RequestId) (r : Request), s.requests[i]? = some r →
      s'.requests[i]? = some r)
    (hnew : ∀ (i : RequestId) (r : Request) (t : StatsTracker), s'.requests[i]? = some r →
      s.requests[i]? = none → r.handler.hand id i t = none)
    (he : s'.entry id = s.entry id) (htrail : s'.app.trail id = s.app.trail id)
    (happlied : s'.app.applied id = s.app.applied id) (ha : ∀ i m, a ≠ .move i m) :
    s.Effect a s' id := by
  refine .same he ?_ ?_
  · have hhands : s'.hand id = s.hand id := by
      funext i
      cases hentry : s.entry id with
      | none => rw [hand_of_no_entry hentry, hand_of_no_entry (he.trans hentry)]
      | some e =>
        cases hr : s.requests[i]? with
        | some r =>
          rw [hand_of_request hr hentry, hand_of_request (hrequests i r hr) (he.trans hentry)]
        | none =>
          have hnone : s.hand id i = none := by simp [hand, hr]
          rw [hnone]
          cases hr' : s'.requests[i]? with
          | none => simp [hand, hr']
          | some r => rw [hand_of_request hr' (he.trans hentry), hnew i r _ hr' hr]
    simp only [cell, hhands, he, htrail, happlied]
  · cases a with
    | move i m => exact (ha i m rfl).elim
    | _ => exact not_false

/-- The effect of a `create`. -/
theorem effect_create (hok : s.HandlersOk) (hfresh : s.entry id = none → s.app.trail id = [])
    {i : RequestId} {m : Move} {caller : String} {request : CreateSessionRequest}
    {phase phase' : Create} {app : AppState}
    (hr : s.requests[i]? = some ⟨caller, .create request phase⟩)
    (h : Create.Trans s.app i caller phase m app phase') :
    s.Effect (.move i m) (s.advanced app i ⟨caller, .create request phase'⟩) id := by
  cases h with
  | quiet _ _ _ _ => exact effect_quiet hr rfl rfl rfl (fun _ => rfl) (fun _ => rfl)
  | check _ => exact effect_quiet hr rfl rfl rfl (fun _ => rfl) (fun _ => rfl)
  | fetch _ => exact effect_quiet hr rfl rfl rfl (fun _ => rfl) (fun _ => rfl)
  | @insert ttl tracker step id' hnone =>
    by_cases hid : id = id'
    · subst hid
      have hstart : FromStart tracker step := hok i _ hr
      refine .step .opened ?_ fun _ => iff_of_false not_false
        (not_letsGo hr fun _ => rfl)
      have he' : ((s.app.insert id (.new caller ttl tracker step s.app.now)).extend id
          ⟨i, none, step, tracker⟩).sessions.entries id =
            some (.new caller ttl tracker step s.app.now) := if_pos rfl
      -- the id is fresh, so no request can have anything of it
      have hhands : (s.advanced ((s.app.insert id (.new caller ttl tracker step s.app.now)).extend
          id ⟨i, none, step, tracker⟩) i ⟨caller, .create request (.inserted id)⟩).hand id =
            (s.cell id).hands := by
        funext j
        rw [show (s.cell id).hands j = none from hand_of_no_entry hnone]
        by_cases hj : j = i
        · subst hj
          exact advanced_hand_self hr he'
        · rw [advanced_hand_other hj, he']
          cases hrj : s.requests[j]? with
          | none => rfl
          | some rj => exact hok.hand_none hnone hrj _
      have hlog : (s.cell id).log = [] := hfresh hnone
      have hstep : Checkout.Step rules (s.cell id) .opened
          { s.cell id with
            home := rules.next ⟨i, none, step, tracker⟩
            log := [⟨i, none, step, tracker⟩] } := .opened hlog ⟨rfl, hstart⟩
      have hcell : (s.advanced ((s.app.insert id (.new caller ttl tracker step s.app.now)).extend
          id ⟨i, none, step, tracker⟩) i ⟨caller, .create request (.inserted id)⟩).cell id =
            { s.cell id with
              home := rules.next ⟨i, none, step, tracker⟩
              log := [⟨i, none, step, tracker⟩] } := by
        simp only [cell, hhands, advanced_app, AppState.extend_trail, AppState.insert_trail,
          hfresh hnone, if_true]
        rw [advanced_entry, he']
        cases step <;> rfl
      rw [hcell]
      exact hstep
    · exact effect_quiet hr (by simp [hid, entry]) (by simp [hid]) rfl (fun _ => rfl)
        (fun _ => rfl)

/-- **Refinement**: a step of the server is, for every session, a step of its cell or none. -/
theorem Trans.effect (hok : s.HandlersOk) (hfresh : s.entry id = none → s.app.trail id = [])
    (inv : Checkout.Inv rules (s.cell id)) (h : s.Trans a s') : s.Effect a s' id := by
  cases h with
  | tick =>
    exact effect_shared (fun _ _ h => h) (fun _ _ _ h h' => nomatch h.symm.trans h') rfl rfl rfl
      (fun _ _ => nofun)
  | @arrive caller call =>
    refine effect_shared (fun i r h => arrived_request.mpr (.inl h)) ?_ rfl rfl
      rfl (fun _ _ => nofun)
    intro i r t h h'
    rcases arrived_request.mp h with h | ⟨-, rfl⟩
    · cases h'.symm.trans h
    · cases call with
      | resume id' body => simp [Call.handler, Handler.hand, Resume.hand]
      | _ => rfl
  | create hr h => exact effect_create hok hfresh hr h
  | @resume i m caller id' body phase phase' app hr h =>
    by_cases hid : id = id'
    · subst hid
      exact effect_resume hok inv hr h
    · obtain ⟨he, htrail, happlied⟩ := h.other hid
      exact effect_quiet hr he htrail happlied (fun t => hand_other (Ne.symm hid) ..)
        (fun t => hand_other (Ne.symm hid) ..)
  | status hr _ => exact effect_quiet hr rfl rfl rfl (fun _ => rfl) (fun _ => rfl)
  | delete hr h =>
    cases h <;> exact effect_quiet hr rfl rfl rfl (fun _ => rfl) (fun _ => rfl)
  | @stateless i m caller handler handler' free hr hs hs' =>
    refine effect_quiet hr rfl rfl rfl ?_ ?_
    · intro _
      cases handler with
      | resume => exact hs.elim
      | _ => rfl
    · intro _
      cases handler' with
      | resume => exact hs'.elim
      | _ => rfl
  | collect _ =>
    exact effect_shared (fun _ _ h => h) (fun _ _ _ h h' => nomatch h.symm.trans h') rfl rfl rfl
      (fun _ _ => nofun)
  | evict _ =>
    exact effect_shared (fun _ _ h => h) (fun _ _ _ h h' => nomatch h.symm.trans h') rfl rfl rfl
      (fun _ _ => nofun)

end Server

end Cell

end MontyServer
