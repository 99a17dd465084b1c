import MontyServer.Answers
import MontyServer.Departures

/-!
# What clients are shown, in order

Every view a client gets, from a create, a resume or a status read, is the session as one of its
steps has left it, and never an old one: what was stored when the request had not been answered yet
is not newer than what it is shown (`views_in_order`). So a client that has been shown a step is
never shown an earlier one later, and one that has stored a step is shown that one or a later one.
The expiry of a session slides with its steps, and with nothing else (`expiry_slides`).
-/

namespace MontyServer

variable [Crates]

omit [Crates] in
/-- The view a handler has answered with. -/
def Handler.shown : Handler → Option SessionView
  | .create _ (.done (.ok (.Created view))) => some view
  | .resume _ _ (.done (.ok view)) => some view
  | .status _ (.done (.ok view)) => some view
  | _ => none

/-- The view shows the session as the step has left it. -/
def Link.ShownBy (link : Link) (view : SessionView) : Prop :=
  renderState (splitStep link.step).2.2 (splitStep link.step).1 = .ok view.state

/-! ## Where a view comes from -/

/-- A handler that answers with a view has locked the entry and rendered it. -/
def Handler.Rendered (app app' : AppState) (view : SessionView) : Prop :=
  app' = app ∧ ∃ e, app.sessions.entries view.sessionId = some e ∧
    render view.sessionId e app.now = .ok view

section Rendered

variable {app app' : AppState} {i : RequestId} {caller : String} {m : Move} {view : SessionView}

theorem Handler.rendered_of_render {id : Uuid} {e : SessionEntry}
    (he : app.sessions.entries id = some e) (hview : render id e app.now = .ok view) :
    Handler.Rendered app app view := by
  have hid := (render_ok hview).1
  subst hid
  exact ⟨rfl, e, he, hview⟩

theorem Create.rendered {request : CreateSessionRequest} {phase : Create}
    (h : phase.step app i caller request m = some (app', .done (.ok (.Created view)))) :
    Handler.Rendered app app' view := by
  unfold Create.step at h
  split at h
  · unfold Create.advance at h
    split at h
    · split at h <;> cases h
    · cases h
    · cases h
    · split at h <;> cases h
    · split at h <;> cases h
    · obtain ⟨e, he, h⟩ := Option.bind_eq_some_iff.mp h
      simp only [Option.some.injEq, Prod.mk.injEq, Create.done.injEq] at h
      obtain ⟨rfl, hview⟩ := h
      apply Handler.rendered_of_render he
      cases hrender : render _ e app.now with
      | error err => rw [hrender] at hview; cases hview
      | ok view' => rw [hrender] at hview; cases hview; rfl
    · cases h
  · unfold Create.insert at h
    split at h
    · split at h <;> cases h
    · cases h
  · cases h
  · obtain ⟨⟨free, spawn⟩, -, h⟩ := Option.bind_eq_some_iff.mp h
    cases h
  · obtain ⟨⟨free, spawn⟩, -, h⟩ := Option.bind_eq_some_iff.mp h
    cases h
  · cases h

theorem Handler.rendered {handler handler' : Handler}
    (h : handler.step app i caller m = some (app', handler'))
    (hshown : handler'.shown = some view) : Handler.Rendered app app' view := by
  cases handler with
  | create request phase =>
    obtain ⟨⟨app'', phase'⟩, hstep, h⟩ := Option.bind_eq_some_iff.mp h
    cases h
    unfold shown at hshown
    split at hshown
    · next heq =>
      cases heq
      cases hshown
      exact Create.rendered hstep
    all_goals grind
  | resume id body phase =>
    obtain ⟨⟨app'', phase'⟩, hstep, h⟩ := Option.bind_eq_some_iff.mp h
    cases h
    cases Resume.step_cases hstep with
    | turnAway hturned =>
      unfold Resume.TurnedAway at hturned
      split at hturned <;> first | cases hshown | exact hturned.elim
    | @answer e he =>
      cases hview : render id e app.now with
      | error err => rw [hview] at hshown; cases hshown
      | ok view' =>
        rw [hview] at hshown
        cases hshown
        exact rendered_of_render he hview
    | _ => cases hshown
  | status id phase =>
    obtain ⟨⟨app'', phase'⟩, hstep, h⟩ := Option.bind_eq_some_iff.mp h
    cases h
    obtain ⟨rfl, htrans⟩ := Status.step_cases hstep
    cases htrans with
    | @answer e he =>
      cases hview : render id e app'.now with
      | error err => rw [hview] at hshown; cases hshown
      | ok view' =>
        rw [hview] at hshown
        cases hshown
        exact rendered_of_render he hview
    | _ => cases hshown
  | delete id phase =>
    obtain ⟨⟨app'', phase'⟩, -, h⟩ := Option.bind_eq_some_iff.mp h
    cases h
    cases hshown
  | run fields phase =>
    obtain ⟨⟨app'', phase'⟩, -, h⟩ := Option.bind_eq_some_iff.mp h
    cases h
    cases hshown
  | compile request phase =>
    obtain ⟨⟨app'', phase'⟩, -, h⟩ := Option.bind_eq_some_iff.mp h
    cases h
    cases hshown

end Rendered

namespace Server

variable {s s' t : Server} {a : Action} {id : Uuid}

/-- **What is rendered is the latest step**: an entry that can be rendered shows the step its
history ends with, its progress alongside where the step is a pause. -/
theorem Wf.shown_latest (wf : s.Wf) {e : SessionEntry} (he : s.entry id = some e)
    {view : SessionView} (hview : render id e s.app.now = .ok view) :
    ∃ link rest, s.app.trail id = link :: rest ∧ link.ShownBy view := by
  obtain ⟨link, rest, htrail, hsplit, hprogress⟩ := (wf.linearHistory id).shown e he
  refine ⟨link, rest, htrail, ?_⟩
  have hterminal : (splitStep link.step).2.1 = e.terminal := congrArg Prod.fst hsplit
  have hsnapshot : (splitStep link.step).2.2 = e.snapshot := congrArg Prod.snd hsplit
  have hstate := (render_ok hview).2.2
  unfold Link.ShownBy
  rw [hsnapshot, ← hstate]
  cases hdone : e.terminal with
  | true => exact renderState_terminal (wf.consistent he) hdone _ _
  | false =>
    -- a pause is rendered only with its progress
    have hflag := (wf.consistent he).2
    cases hs : e.snapshot with
    | Paused output stats =>
      rw [hs] at hstate
      cases hp : e.progress with
      | none => rw [hp] at hstate; cases hstate
      | some p => rw [hprogress p hp]
    | _ =>
      rw [hs, hdone] at hflag
      cases hflag

/-- **Step lemma**: whoever is answered with a view is shown the latest step. -/
theorem Wf.shown_step (wf : s.Wf) (h : s.step a = some s') {i : RequestId} {r' : Request}
    (hr' : s'.requests[i]? = some r') {view : SessionView} (hshown : r'.handler.shown = some view) :
    s.requests[i]? = some r' ∨
      ∃ link rest, s'.app.trail view.sessionId = link :: rest ∧ link.ShownBy view := by
  rcases request_before h hr' with hr | ⟨caller, call, rfl⟩ | ⟨m, r, -, hr, -, hstep⟩
  · exact .inl hr
  · cases call <;> cases hshown
  · obtain ⟨happ, e, he, hview⟩ := Handler.rendered hstep hshown
    right
    rw [happ]
    exact wf.shown_latest he hview

end Server

omit [Crates] in
/-- Session 7 is resumed by request 1 and read by request 2. -/
def Sample.resumedAndRead : List Action :=
  resuming 1 ++ [.arrive "owner" (.status 7), .move 2 .advance, .move 2 .advance]

/-- **Views come in order.** Take any state, any run from it, and any request that has not been
answered with a view in the first state and has been in the last: the view shows the session as one
of its steps has left it, and no step that had been stored in the first state is newer than that
one. Hence status reads are never stale, a client is never shown the steps of a session backwards,
and the answer of a resume shows the step it has stored or a later one. -/
theorem views_in_order {config : Config} {s t : Server} (h : s.Reachable config)
    {as : List Action} (hrun : Run.exec Server.step s as = some t) {i : RequestId} {r' : Request}
    (hr' : t.requests[i]? = some r') {view : SessionView} (hshown : r'.handler.shown = some view)
    (hbefore : ∀ r, s.requests[i]? = some r → r.handler.shown = none) :
    ∃ newer link older, t.app.trail view.sessionId = newer ++ link :: older ∧
      link.ShownBy view ∧ s.app.trail view.sessionId <:+ link :: older := by
  have hinvariant := Run.exec_invariant (I := fun u : Server => u.Wf ∧
    (∀ id, s.app.trail id <:+ u.app.trail id) ∧
    ∀ (r' : Request) (view : SessionView), u.requests[i]? = some r' →
      r'.handler.shown = some view →
      ∃ newer link older, u.app.trail view.sessionId = newer ++ link :: older ∧
        link.ShownBy view ∧ s.app.trail view.sessionId <:+ link :: older) ?_ ?_ hrun
  · exact hinvariant.2.2 r' view hr' hshown
  · intro u a u' ⟨wf, hgrown, hviews⟩ hstep
    have hgrows := (Server.step_cases hstep).grows.trail
    have hgrown' : ∀ id, s.app.trail id <:+ u'.app.trail id :=
      fun id => (hgrown id).trans (hgrows id)
    refine ⟨wf.step hstep, hgrown', ?_⟩
    intro r' view hr' hshown
    rcases wf.shown_step hstep hr' hshown with hr | ⟨link, rest, htrail, hlink⟩
    · obtain ⟨newer, link, older, htrail, hlink, holder⟩ := hviews r' view hr hshown
      obtain ⟨latest, hlatest⟩ := hgrows view.sessionId
      refine ⟨latest ++ newer, link, older, ?_, hlink, holder⟩
      rw [← hlatest, htrail, List.append_assoc]
    · exact ⟨[], link, rest, htrail, hlink, htrail ▸ hgrown' view.sessionId⟩
  · refine ⟨h.wf, fun id => List.suffix_refl _, ?_⟩
    intro r' view hr' hshown
    cases (hbefore r' hr').symm.trans hshown

omit [Crates] in
/-- A status read after a resume shows the step of the resume. -/
theorem views_in_order_after_resume :
    ∃ (_ : Crates) (s t : Server) (r' : Request) (view : SessionView),
      Run.exec Server.step (.new Sample.config) Sample.opening = some s ∧
      Run.exec Server.step s Sample.resumedAndRead = some t ∧ t.requests[2]? = some r' ∧
      r'.handler.shown = some view ∧
      ∃ newer link older, t.app.trail view.sessionId = newer ++ link :: older ∧
        link.ShownBy view ∧ s.app.trail view.sessionId <:+ link :: older := by
  let _ := Sample.crates
  have hrun : (Run.exec Server.step (.new Sample.config) Sample.opening).any (fun s =>
      s.requests[2]?.isNone && (Run.exec Server.step s Sample.resumedAndRead).any fun t =>
        t.requests[2]?.any fun r => r.handler.shown.isSome) = true := by decide
  obtain ⟨s, hs, hrun⟩ := (Option.any_eq_true _ _).mp hrun
  obtain ⟨hnone, hrun⟩ := (Bool.and_eq_true _ _).mp hrun
  obtain ⟨t, ht, hrun⟩ := (Option.any_eq_true _ _).mp hrun
  obtain ⟨r', hr', hshown⟩ := (Option.any_eq_true _ _).mp hrun
  obtain ⟨view, hview⟩ := Option.isSome_iff_exists.mp hshown
  have hreachable : s.Reachable Sample.config := ⟨_, hs⟩
  have hbefore : ∀ r, s.requests[2]? = some r → r.handler.shown = none := by
    intro r hr
    rw [Option.isNone_iff_eq_none.mp hnone] at hr
    cases hr
  exact ⟨Sample.crates, s, t, r', view, hs, ht, hr', hview,
    views_in_order hreachable ht hr' hview hbefore⟩

/-! ## The expiry of a session -/

namespace Server

variable {s s' t : Server} {a : Action} {id : Uuid}

/-- A step that is stored is what an expiry is counted from. -/
theorem Trans.expiry_of_extended (h : s.Trans a s') (htrail : s'.app.trail id ≠ s.app.trail id)
    {e' : SessionEntry} (he' : s'.entry id = some e') : e'.expiresAt = s.app.now + e'.ttl := by
  cases h with
  | @create i m caller request phase phase' app hr h =>
    cases h with
    | @insert ttl tracker step j hnone =>
      have hj : id = j := by
        by_contra hj
        exact htrail (by simp [hj])
      subst hj
      have heq : SessionEntry.new caller ttl tracker step s.app.now = e' := by
        simpa [entry] using he'
      subst heq
      rfl
    | _ => exact (htrail rfl).elim
  | @resume i m caller j body phase phase' app hr h =>
    have hid : id = j := by
      by_contra hid
      exact htrail (h.other hid).2.1
    subst hid
    cases h with
    | @store input e step he =>
      have heq : e.storeStep step s.app.now = e' := by simpa [entry] using he'
      subst heq
      rfl
    | ran _ _ => exact (htrail (by simp)).elim
    | _ => exact (htrail rfl).elim
  | delete _ h => cases h <;> exact (htrail rfl).elim
  | _ => exact (htrail rfl).elim

/-- How the expiry of a session has slid since `s`, where it was stored as `e`. -/
structure Slid (s : Server) (id : Uuid) (e : SessionEntry) (u : Server) : Prop where
  now : s.app.now ≤ u.app.now
  trail : s.app.trail id <:+ u.app.trail id
  entry : ∃ e', u.entry id = some e' ∧ e'.ttl = e.ttl ∧
    (u.app.trail id = s.app.trail id → e'.expiresAt = e.expiresAt) ∧
    (u.app.trail id ≠ s.app.trail id → s.app.now + e.ttl ≤ e'.expiresAt)

theorem Slid.step {u u' : Server} {e : SessionEntry} (slid : s.Slid id e u)
    (h : u.step a = some u') : s.Slid id e u' := by
  have htrans := step_cases h
  have hgrows := htrans.grows
  obtain ⟨e₁, he₁, httl₁, hkept, hmoved⟩ := slid.entry
  obtain ⟨e₂, he₂, -, httl₂⟩ := hgrows.entry id e₁ he₁
  refine ⟨Nat.le_trans slid.now hgrows.now, slid.trail.trans (hgrows.trail id), e₂, he₂,
    httl₂.trans httl₁, ?_⟩
  by_cases hsame : u'.app.trail id = u.app.trail id
  · obtain ⟨e₃, he₃, hexpires⟩ := htrans.expiry_of_trail hsame he₁
    cases he₂.symm.trans he₃
    rw [hsame, hexpires]
    exact ⟨hkept, hmoved⟩
  · have hexpires := htrans.expiry_of_extended hsame he₂
    constructor
    · -- a history that has grown does not shrink back
      intro hback
      apply absurd _ hsame
      have hlength := slid.trail.length_le
      rw [← hback] at hlength
      exact ((hgrows.trail id).eq_of_length
        (Nat.le_antisymm (hgrows.trail id).length_le hlength)).symm
    · intro _
      rw [hexpires, httl₂, httl₁]
      exact Nat.add_le_add_right slid.now _

end Server

/-- **The expiry slides with the steps.** In every run from a state in which a session is stored:
its time-to-live stays, and its expiry is never further off than that and never moves back. If the
session stores a step on the way, it expires a full time-to-live after the first state at the
earliest; if it stores none, its expiry has not moved. So status reads, resumes that are turned away
and the requests for other sessions do not keep a session alive. -/
theorem expiry_slides {config : Config} {s t : Server} (h : s.Reachable config)
    {as : List Action} (hrun : Run.exec Server.step s as = some t) {id : Uuid} {e : SessionEntry}
    (he : s.entry id = some e) :
    ∃ e', t.entry id = some e' ∧ e'.ttl = e.ttl ∧ e.expiresAt ≤ e'.expiresAt ∧
      e'.expiresAt ≤ t.app.now + e.ttl ∧
      (t.app.trail id = s.app.trail id → e'.expiresAt = e.expiresAt) ∧
      (t.app.trail id ≠ s.app.trail id → s.app.now + e.ttl ≤ e'.expiresAt) := by
  have slid : s.Slid id e t := by
    refine Run.exec_invariant (I := s.Slid id e) (fun _ _ _ hs hstep => hs.step hstep) ?_ hrun
    exact ⟨Nat.le_refl _, List.suffix_refl _, e, he, rfl, fun _ => rfl, fun hne => (hne rfl).elim⟩
  obtain ⟨e', he', httl, hkept, hmoved⟩ := slid.entry
  have hreachable : t.Reachable config := by
    obtain ⟨bs, hbs⟩ := h
    exact ⟨bs ++ as, Run.exec_append.mpr ⟨s, hbs, hrun⟩⟩
  refine ⟨e', he', httl, ?_, httl ▸ hreachable.withinTtl id e' he', hkept, hmoved⟩
  by_cases hsame : t.app.trail id = s.app.trail id
  · exact Nat.le_of_eq (hkept hsame).symm
  · exact Nat.le_trans (h.withinTtl id e he) (hmoved hsame)

/-- Session 7 is resumed 20 seconds later, and read after another 10. -/
def Sample.resumedLater : List Action :=
  [.tick 20000000000] ++ taking 1 ++
    [.move 1 .acquire, .move 1 .spawn, .move 1 .start, .move 1 (.finish 20000000000 {}),
      .move 1 .advance, .move 1 .advance, .tick 10000000000, .arrive "owner" (.status 7),
      .move 2 .advance, .move 2 .advance]

omit [Crates] in
/-- It would have expired a minute after it was created, and expires a minute after it was
resumed; that it is read moves nothing. -/
theorem expiry_slides_resumed :
    ∃ (_ : Crates) (s t : Server) (e e' : SessionEntry),
      Run.exec Server.step (.new Sample.config) Sample.opening = some s ∧
      Run.exec Server.step s Sample.resumedLater = some t ∧
      t.app.now = 30000000000 ∧ s.entry 7 = some e ∧ t.entry 7 = some e' ∧
      e.expiresAt = 60000000000 ∧ e'.expiresAt = 80000000000 ∧
      e'.ttl = e.ttl ∧ e.expiresAt ≤ e'.expiresAt ∧ e'.expiresAt ≤ t.app.now + e.ttl ∧
      (t.app.trail 7 = s.app.trail 7 → e'.expiresAt = e.expiresAt) ∧
      (t.app.trail 7 ≠ s.app.trail 7 → s.app.now + e.ttl ≤ e'.expiresAt) := by
  let _ := Sample.crates
  have hrun : (Run.exec Server.step (.new Sample.config) Sample.opening).any (fun s =>
      (s.entry 7).any (fun e => e.expiresAt = 60000000000) &&
        (Run.exec Server.step s Sample.resumedLater).any fun t => t.app.now = 30000000000 ∧
          (t.entry 7).map SessionEntry.expiresAt = some 80000000000) = true := by
    decide
  obtain ⟨s, hs, hrun⟩ := (Option.any_eq_true _ _).mp hrun
  obtain ⟨hentry, hrun⟩ := (Bool.and_eq_true _ _).mp hrun
  obtain ⟨e, he, hcreated⟩ := (Option.any_eq_true _ _).mp hentry
  obtain ⟨t, ht, hafter⟩ := (Option.any_eq_true _ _).mp hrun
  obtain ⟨hnow, hresumed⟩ := of_decide_eq_true hafter
  have hreachable : s.Reachable Sample.config := ⟨_, hs⟩
  obtain ⟨e', he', hslides⟩ := expiry_slides hreachable ht he
  rw [he', Option.map_some, Option.some.injEq] at hresumed
  exact ⟨Sample.crates, s, t, e, e', hs, ht, hnow, he, he', of_decide_eq_true hcreated, hresumed,
    hslides⟩

end MontyServer
