import MontyServer.Answers

/-!
# What a create leaves behind

`create` inserts its session and renders it afterwards. An error of the rendering is returned with
`?`, and nothing takes the session out of the store again: its owner never learns the id, and the
session holds a place until it expires. No other error has this effect (`Create.answered`): those
before the insertion have stored nothing, and where the session is looked up in vain it is already
gone. So every stored session has been made known to its owner exactly if whatever a create renders
can be rendered (`no_orphans_iff`).
-/

namespace MontyServer

variable [Crates]

/-! ## The moves of a create -/

/-- **How a create answers**: from what its blocking task returned, in vain looking its session up,
or by rendering it. -/
theorem Create.answered {app app' : AppState} {i : RequestId} {caller : String}
    {request : CreateSessionRequest} {m : Move} {phase : Create}
    {response : ApiResult CreateOutcome}
    (h : phase.step app i caller request m = some (app', .done response)) :
    ¬ phase.Past ∨
    (∃ id, phase = .inserted id ∧ app.sessions.owned id caller = false) ∨
    ∃ id e, phase = .fetched id ∧ m = .advance ∧ app.sessions.entries id = some e ∧
      response = (render id e app.now).map .Created := by
  cases phase with
  | inserted id =>
    cases m with
    | advance =>
      right; left
      refine ⟨id, rfl, Bool.eq_false_iff.mpr ?_⟩
      intro howned
      have hget : app.sessions.get id caller = some id :=
        SessionStore.get_eq_some.mpr ⟨howned, rfl⟩
      simp [step, advance, hget] at h
    | _ => cases h
  | fetched id =>
    cases m with
    | advance =>
      obtain ⟨e, he, h⟩ := Option.bind_eq_some_iff.mp h
      cases h
      exact .inr (.inr ⟨id, e, rfl, rfl, he, rfl⟩)
    | _ => cases h
  | done response => cases m <;> cases h
  | _ => exact .inl id

/-- A move of a create changes the keys of the map only by the insertion. -/
theorem Create.Trans.keys {app app' : AppState} {i : RequestId} {caller : String} {m : Move}
    {phase phase' : Create} (h : Create.Trans app i caller phase m app' phase')
    (hm : ∀ id, m ≠ .insert id) : app'.sessions.sessions = app.sessions.sessions := by
  cases h with
  | insert _ => exact absurd rfl (hm _)
  | _ => rfl

namespace Server

variable {s s' : Server} {a : Action} {i : RequestId} {caller : String}
  {request : CreateSessionRequest} {phase : Create} {id : Uuid}

/-- A move of a create is a step of its function. -/
theorem step_create {m : Move} (hr : s.requests[i]? = some ⟨caller, .create request phase⟩)
    (h : s.step (.move i m) = some s') :
    ∃ app phase', phase.step s.app i caller request m = some (app, phase') ∧
      s' = s.advanced app i ⟨caller, .create request phase'⟩ := by
  simp only [step, hr, Option.bind_eq_bind, Option.bind_some] at h
  obtain ⟨⟨app, handler⟩, hhandler, h⟩ := Option.bind_eq_some_iff.mp h
  obtain ⟨⟨app', phase'⟩, hphase, hhandler⟩ := Option.bind_eq_some_iff.mp hhandler
  cases hhandler
  cases h
  exact ⟨_, phase', hphase, rfl⟩

/-- A step makes no key of a session that has an entry. -/
theorem Trans.key_old (h : s.Trans a s') {e : SessionEntry} (he : s.entry id = some e)
    (hid : id ∈ s'.app.sessions.sessions) : id ∈ s.app.sessions.sessions := by
  cases h with
  | create _ h =>
    cases h with
    | @insert ttl tracker step id' hnone =>
      rcases List.mem_cons.mp hid with rfl | hid
      · cases hnone.symm.trans he
      · exact hid
    | _ => exact hid
  | resume _ h => cases h <;> simpa using hid
  | delete _ h =>
    cases h with
    | remove => exact List.mem_of_mem_filter hid
    | _ => exact hid
  | evict _ => exact List.mem_of_mem_filter hid
  | _ => exact hid

end Server

/-! ## The session a create has inserted -/

omit [Crates] in
/-- The session of a create that has inserted it and not answered yet. -/
def Create.session : Create → Option Uuid
  | .inserted id | .fetched id => some id
  | _ => none

/-- A step of a create to such a session either inserts it or goes on with it. -/
theorem Create.Trans.session_before {app app' : AppState} {i : RequestId} {caller : String}
    {m : Move} {phase phase' : Create} {id : Uuid}
    (h : Create.Trans app i caller phase m app' phase') (hid : phase'.session = some id) :
    phase.session = some id ∨ (¬ phase.Past ∧ ∃ link ∈ app'.trail id, link.request = i) := by
  cases h with
  | quiet _ _ hquiet _ =>
    cases phase' with
    | inserted id' => exact hquiet.elim
    | fetched id' => exact hquiet.elim
    | _ => cases hid
  | check _ => cases hid
  | @insert ttl tracker step id' _ =>
    cases hid
    exact .inr ⟨fun hpast => hpast.elim, ⟨i, none, step, tracker⟩, by simp, rfl⟩
  | fetch _ => exact .inl hid

namespace Server

variable {s s' : Server} {a : Action}

/-- The session a create is about to show is the one it is credited with, and no other is. -/
structure Placed (s : Server) : Prop where
  only : ∀ (i : RequestId) (caller : String) (request : CreateSessionRequest) (phase : Create)
    (id id' : Uuid) (link : Link), s.requests[i]? = some ⟨caller, .create request phase⟩ →
    phase.session = some id → link ∈ s.app.trail id' → link.request = i → id' = id
  credited : ∀ (i : RequestId) (caller : String) (request : CreateSessionRequest) (phase : Create)
    (id : Uuid), s.requests[i]? = some ⟨caller, .create request phase⟩ →
    phase.session = some id → ∃ link ∈ s.app.trail id, link.request = i

/-- A create that is credited with a session has inserted one. -/
theorem Wf.create_past (wf : s.Wf) {caller : String} {request : CreateSessionRequest}
    {phase : Create} {id : Uuid} {link : Link} (hlink : link ∈ s.app.trail id)
    (hr : s.requests[link.request]? = some ⟨caller, .create request phase⟩) : phase.Past := by
  obtain ⟨r, hr', hstored, -⟩ := wf.credited.request id link hlink
  cases hr.symm.trans hr'
  exact hstored.2

/-- A link of a create in some other phase than right after its insertion was there before. -/
theorem link_old (h : s.step a = some s') {caller : String} {request : CreateSessionRequest}
    {phase : Create} {id : Uuid} {link : Link} (hlink : link ∈ s'.app.trail id)
    (hr : s'.requests[link.request]? = some ⟨caller, .create request phase⟩)
    (hphase : phase ≠ .inserted id) : link ∈ s.app.trail id := by
  rcases (step_cases h).trail_new hlink with hlink | ⟨_, _, hr'⟩ | ⟨_, _, hr'⟩
  · exact hlink
  · cases hr.symm.trans hr'
    exact absurd rfl hphase
  · cases hr.symm.trans hr'

omit [Crates] in
theorem Placed.new (config : Config) : (Server.new config).Placed where
  only := by simp [Server.new]
  credited := by simp [Server.new]

/-- **Step lemma**. -/
theorem Placed.step (placed : s.Placed) (wf : s.Wf) (h : s.step a = some s') : s'.Placed := by
  have wf' := wf.step h
  have htrans := step_cases h
  constructor
  · intro i caller request phase id id' link hr' hid hlink hi
    subst hi
    by_cases hinserted : phase = .inserted id'
    · rw [hinserted] at hid
      exact Option.some.inj hid
    · have hold := link_old h hlink hr' hinserted
      rcases create_before h hr' with hr | rfl | ⟨m, before, rfl, hr, hstep⟩
      · exact placed.only _ _ _ _ id id' link hr hid hold rfl
      · cases hid
      · rcases (Create.step_cases hstep).session_before hid with hbefore | ⟨hpast, -⟩
        · exact placed.only _ _ _ _ id id' link hr hbefore hold rfl
        · exact absurd (wf.create_past hold hr) hpast
  · intro i caller request phase id hr' hid
    have keep : (∃ link ∈ s.app.trail id, link.request = i) →
        ∃ link ∈ s'.app.trail id, link.request = i := by
      rintro ⟨link, hlink, hi⟩
      exact ⟨link, (htrans.grows.trail id).subset hlink, hi⟩
    rcases create_before h hr' with hr | rfl | ⟨m, before, rfl, hr, hstep⟩
    · exact keep (placed.credited i _ _ _ id hr hid)
    · cases hid
    · rcases (Create.step_cases hstep).session_before hid with hbefore | ⟨-, hlink⟩
      · exact keep (placed.credited i _ _ _ id hr hbefore)
      · exact hlink

/-! ## No orphans -/

/-- No answered create has left a stored session its caller does not know: the answer is the
session's view, which carries its id. -/
def NoOrphans (s : Server) : Prop :=
  ∀ (i : RequestId) (caller : String) (request : CreateSessionRequest)
    (response : ApiResult CreateOutcome) (id : Uuid) (link : Link),
    s.requests[i]? = some ⟨caller, .create request (.done response)⟩ →
    id ∈ s.app.sessions.sessions → link ∈ s.app.trail id → link.request = i →
    ∃ view, response = .ok (.Created view) ∧ view.sessionId = id

/-- What a create is about to render, of a session still in the store, can be encoded: the result
of a finished one; the arguments of a pause, its keyword arguments named by strings, no other
request having taken the progress. -/
def RendersCreated (s : Server) (a : Action) : Prop :=
  ∀ (i : RequestId) (caller : String) (request : CreateSessionRequest) (id : Uuid)
    (e : SessionEntry), a = .move i .advance →
    s.requests[i]? = some ⟨caller, .create request (.fetched id)⟩ →
    id ∈ s.app.sessions.sessions → s.entry id = some e → e.Shows

/-- **Step lemma**: a step makes an orphan exactly if it renders a created session in vain. -/
theorem Wf.noOrphans_step (wf : s.Wf) (placed : s.Placed) (hno : s.NoOrphans)
    (h : s.step a = some s') : s'.NoOrphans ↔ s.RendersCreated a := by
  have wf' := wf.step h
  constructor
  · rintro hno' i caller request id e rfl hr hid he
    obtain ⟨app, phase', hphase, hadvanced⟩ := step_create hr h
    obtain ⟨e', he', hphase⟩ := Option.bind_eq_some_iff.mp hphase
    cases he.symm.trans he'
    cases hphase
    obtain ⟨link, hlink, hi⟩ := placed.credited i caller request _ id hr rfl
    have hr' : s'.requests[i]? =
        some ⟨caller, .create request (.done ((render id e s.app.now).map .Created))⟩ := by
      rw [hadvanced]
      exact (advanced_request hr).mpr (.inl ⟨rfl, rfl⟩)
    obtain ⟨view, hview, -⟩ := hno' i caller request _ id link hr' (by rw [hadvanced]; exact hid)
      (by rw [hadvanced]; exact hlink) hi
    rw [← SessionEntry.shows_iff (wf.consistent he), ← render_ok_iff id e s.app.now]
    cases hrender : render id e s.app.now with
    | ok view => exact ⟨view, rfl⟩
    | error err =>
      rw [hrender] at hview
      cases hview
  · intro hrenders i caller request response id link hr' hid hlink hi
    subst hi
    have hold := link_old h hlink hr' (by simp)
    obtain ⟨r, hr, hstored, e, he, hp⟩ := wf.credited.request id link hold
    have hkey := (step_cases h).key_old he hid
    rcases create_before h hr' with hsame | hreceived | ⟨m, before, rfl, hbefore, hstep⟩
    · exact hno _ caller request response id link hsame hkey hold rfl
    · cases hreceived
    · cases hr.symm.trans hbefore
      rcases Create.answered hstep with hpast | ⟨id', rfl, howned⟩ | ⟨id', e', rfl, rfl, he', rfl⟩
      · exact absurd hstored.2 hpast
      · -- it looks its own session up in vain only if that has left the store
        cases placed.only _ _ _ _ id' id link hbefore rfl hold rfl
        have hfound : s.app.sessions.owned id caller = true :=
          SessionStore.owned_iff.mpr ⟨hkey, e, he, hp⟩
        cases howned.symm.trans hfound
      · cases placed.only _ _ _ _ id' id link hbefore rfl hold rfl
        have hshows := hrenders _ caller request id e' rfl hbefore hkey he'
        rw [← SessionEntry.shows_iff (wf.consistent he'),
          ← render_ok_iff id e' s.app.now] at hshows
        obtain ⟨view, hview⟩ := hshows
        exact ⟨view, by rw [hview]; rfl, (render_ok hview).1⟩

end Server

/-- **When a create leaves nothing behind**: in a run, every stored session whose create has been
answered is known to its caller, in every state, if and only if every create that renders a session
still in the store finds it fit to be rendered. Apart from the insertion no move of a create
changes which sessions are stored. -/
theorem no_orphans_iff (config : Config) (as : List Action) :
    (Run.Throughout Server.step Server.NoOrphans (.new config) as ↔
      Run.EveryStep Server.step Server.RendersCreated (.new config) as) ∧
    ∀ (s s' : Server) (i : RequestId) (m : Move) (caller : String)
      (request : CreateSessionRequest) (phase : Create),
      s.requests[i]? = some ⟨caller, .create request phase⟩ → (∀ id, m ≠ .insert id) →
      s.step (.move i m) = some s' → s'.app.sessions.sessions = s.app.sessions.sessions := by
  constructor
  · have hnew : (Server.new config).NoOrphans := by simp [Server.NoOrphans, Server.new]
    exact Run.throughout_iff_everyStep (I := fun s => s.Wf ∧ s.Placed)
      (fun _ _ _ inv hstep => ⟨inv.1.step hstep, inv.2.step inv.1 hstep⟩)
      (fun _ _ _ inv hno hstep => inv.1.noOrphans_step inv.2 hno hstep)
      ⟨Server.Wf.new config, Server.Placed.new config⟩ hnew
  · intro s s' i m caller request phase hr hm hstep
    obtain ⟨app, phase', hphase, rfl⟩ := Server.step_create hr hstep
    exact (Create.step_cases hphase).keys hm

namespace Sample

/-- A program that calls a host function with a keyword argument not named by a string. -/
def keyed : MontyRun where
  run := fun _ => .raise (.new ⟨"NameError"⟩ none)
  start := fun _ => .ret (.FunctionCall ⟨0, "f", false, [], [(.Int 1, .Int 2)]⟩
    (fun _ => .raise denied) (.raise denied))

@[reducible] def keyedCrates : Crates := { crates with compile := fun _ _ _ => .ok keyed }

end Sample

omit [Crates] in
/-- The request is a create that has been answered with an internal error. -/
def Request.createFailed (r : Request) : Bool :=
  match r.handler with
  | .create _ (.done (.error .Internal)) => true
  | _ => false

omit [Crates] in
theorem Request.eq_of_createFailed {r : Request} (h : r.createFailed = true) :
    ∃ request, r = ⟨r.caller, .create request (.done (.error .Internal))⟩ := by
  obtain ⟨caller, handler⟩ := r
  unfold createFailed at h
  split at h
  · next request heq => exact ⟨request, by rw [← heq]⟩
  · cases h

omit [Crates] in
/-- The only request there is, a create, is answered with an internal error and has stored
session 7. -/
theorem failed_create_leaves_orphan :
    ∃ (_ : Crates) (s : Server), s.Reachable Sample.config ∧
      (∃ caller request, s.requests[0]? =
        some ⟨caller, .create request (.done (.error .Internal))⟩) ∧
      s.app.sessions.sessions = [7] ∧ ¬ s.NoOrphans := by
  let _ := Sample.keyedCrates
  have hrun : (Run.exec Server.step (.new Sample.config) Sample.opening).any
      (fun s => s.requests[0]?.any (·.createFailed) && s.app.sessions.sessions == [7] &&
        (s.app.trail 7).any fun link => link.request = 0) = true := by decide
  obtain ⟨s, hs, htest⟩ := Option.any_eq_true _ _ |>.mp hrun
  simp only [Bool.and_eq_true, beq_iff_eq, List.any_eq_true, decide_eq_true_eq] at htest
  obtain ⟨⟨hfailed, hstored⟩, link, hlink, hi⟩ := htest
  obtain ⟨r, hr, hfailed⟩ := Option.any_eq_true _ _ |>.mp hfailed
  obtain ⟨request, hdone⟩ := Request.eq_of_createFailed hfailed
  rw [hdone] at hr
  refine ⟨Sample.keyedCrates, s, ⟨_, hs⟩, ⟨_, request, hr⟩, hstored, ?_⟩
  intro hno
  obtain ⟨view, hview, -⟩ := hno 0 _ request _ 7 link hr (by simp [hstored]) hlink hi
  cases hview

end MontyServer
