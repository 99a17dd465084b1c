import MontyServer.Cells

/-!
# The invariant of the server

Every reachable state is well formed (`Server.Reachable.wf`): its sessions are cells in order, an
entry shows the step its history ends with, and every stored step is credited to the one request
that stored it.
-/

namespace MontyServer

variable [Crates]

/-! ## Entries show the latest step -/

/-- A session without an entry has no history; an entry shows the snapshot and the terminal flag of
the latest step. -/
def AppState.HeadOk (app : AppState) : Prop :=
  ∀ id, (app.sessions.entries id = none → app.trail id = []) ∧
    ∀ e, app.sessions.entries id = some e →
      ∃ link rest, app.trail id = link :: rest ∧
        (splitStep link.step).2 = (e.terminal, e.snapshot)

namespace AppState.HeadOk

variable {app app' : AppState}

omit [Crates] in
theorem of_eq (hok : app.HeadOk) (hentries : app'.sessions.entries = app.sessions.entries)
    (htrail : app'.trail = app.trail) : app'.HeadOk := by
  intro id
  rw [hentries, htrail]
  exact hok id

omit [Crates] in
/-- An entry is replaced by one that shows the same step. -/
theorem setEntry (hok : app.HeadOk) {id : Uuid} {e : SessionEntry} (e' : SessionEntry)
    (he : app.sessions.entries id = some e) (hterminal : e'.terminal = e.terminal)
    (hsnapshot : e'.snapshot = e.snapshot)
    (hentries : ∀ j, app'.sessions.entries j = if j = id then some e' else app.sessions.entries j)
    (htrail : app'.trail = app.trail) : app'.HeadOk := by
  intro j
  rw [hentries, htrail]
  split
  · next hj =>
    subst hj
    obtain ⟨link, rest, hlink, hsplit⟩ := (hok j).2 e he
    refine ⟨nofun, fun f hf => ⟨link, rest, hlink, ?_⟩⟩
    cases hf
    rw [hsplit, hterminal, hsnapshot]
  · exact hok j

omit [Crates] in
/-- A step is stored together with the entry that shows it. -/
theorem extend (hok : app.HeadOk) {id : Uuid} {e : SessionEntry} {link : Link}
    (hsplit : (splitStep link.step).2 = (e.terminal, e.snapshot))
    (hentries : ∀ j, app'.sessions.entries j = if j = id then some e else app.sessions.entries j)
    (htrail : ∀ j, app'.trail j = if j = id then link :: app.trail j else app.trail j) :
    app'.HeadOk := by
  intro j
  rw [hentries, htrail]
  split
  · refine ⟨nofun, fun f hf => ⟨link, _, rfl, ?_⟩⟩
    cases hf
    exact hsplit
  · exact hok j

end AppState.HeadOk

theorem Server.Trans.headOk {s s' : Server} {a : Action} (h : s.Trans a s')
    (hok : s.app.HeadOk) : s'.app.HeadOk := by
  cases h with
  | tick => exact hok.of_eq rfl rfl
  | arrive => exact hok
  | create _ h =>
    cases h with
    | quiet _ _ _ _ => exact hok.of_eq rfl rfl
    | check _ => exact hok
    | fetch _ => exact hok
    | insert _ => exact hok.extend rfl (fun _ => rfl) (fun _ => rfl)
  | resume _ h =>
    cases h with
    | turnAway _ => exact hok
    | lookup _ _ => exact hok
    | refuse _ _ => exact hok
    | spawn _ => exact hok.of_eq rfl rfl
    | fail => exact hok
    | answer _ => exact hok
    | @take input e p he _ _ =>
      exact hok.setEntry { e with progress := none } he rfl rfl (fun _ => rfl) rfl
    | @restore input e p error he =>
      exact hok.setEntry (e.restore p) he rfl rfl (fun _ => rfl) rfl
    | store he => exact hok.extend rfl (fun _ => rfl) (fun _ => rfl)
    | @ran input e p since entered lag awaited result w he _ =>
      exact hok.setEntry { e with tracker := w.tracker } he rfl rfl (by simp) (by simp)
  | status _ _ => exact hok
  | delete _ h => cases h <;> exact hok.of_eq rfl rfl
  | stateless _ _ _ => exact hok.of_eq rfl rfl
  | collect _ => exact hok
  | evict _ => exact hok.of_eq rfl rfl

/-! ## Every stored step has its request -/

/-- The phases of a resume that has stored its step. -/
def Resume.Past : Resume → Prop
  | .stored | .done _ => True
  | _ => False

/-- The handler has stored `link` in session `id`: as the `create` of the session, or as a resume
whose body is the input of the link. -/
def Handler.Stored (id : Uuid) (link : Link) : Handler → Prop
  | .create _ phase => link.input = none ∧ phase.Past
  | .resume id' body phase =>
    id' = id ∧ phase.Past ∧
      ∃ input, link.input = some input ∧ resumeInput body = some (.ok input)
  | _ => False

namespace Server

/-- Every stored step is credited to a request of the session's owner, each to another one, and
every resume about to answer has stored one. -/
structure Credited (s : Server) : Prop where
  request : ∀ id link, link ∈ s.app.trail id →
    ∃ r, s.requests[link.request]? = some r ∧ r.handler.Stored id link ∧ s.app.Owns r.caller id
  once : ∀ id, ((s.app.trail id).map Link.request).Nodup
  stored : ∀ (i : RequestId) (caller : String) (id : Uuid) (body : Value),
    s.requests[i]? = some ⟨caller, .resume id body .stored⟩ →
    ∃ link ∈ s.app.trail id, link.request = i

namespace Credited

variable {s : Server}

theorem empty (config : Config) : Credited (.new config) where
  request := by simp [Server.new, AppState.new]
  once := by simp [Server.new, AppState.new]
  stored := by simp [Server.new]

/-- Requests that are added or left alone keep their credits. -/
theorem of_eq (hs : s.Credited) {s' : Server} (hgrows : s.app.Grows s'.app)
    (htrail : s'.app.trail = s.app.trail)
    (hkeep : ∀ (i : RequestId) (r : Request), s.requests[i]? = some r →
      s'.requests[i]? = some r)
    (hnew : ∀ (i : RequestId) (r : Request), s'.requests[i]? = some r →
      s.requests[i]? = some r ∨ ∀ id body, r.handler ≠ .resume id body .stored) :
    s'.Credited where
  request id link hlink := by
    rw [htrail] at hlink
    obtain ⟨r, hr, hstored, howns⟩ := hs.request id link hlink
    exact ⟨r, hkeep _ r hr, hstored, hgrows.owns howns⟩
  once id := by rw [htrail]; exact hs.once id
  stored i caller id body hr := by
    rw [htrail]
    rcases hnew i _ hr with hr | hne
    · exact hs.stored i caller id body hr
    · exact (hne id body rfl).elim

/-- A request moves on, keeping what it has stored. -/
theorem advance (hs : s.Credited) {app : AppState} {i : RequestId} {r r₀ : Request}
    (hr : s.requests[i]? = some r₀) (hcaller : r.caller = r₀.caller)
    (hgrows : s.app.Grows app) (htrail : app.trail = s.app.trail)
    (hstored : ∀ id link, r₀.handler.Stored id link → r.handler.Stored id link)
    (hnew : ∀ id body, r.handler ≠ .resume id body .stored) : (s.advanced app i r).Credited where
  request id link hlink := by
    rw [advanced_app, htrail] at hlink
    obtain ⟨r', hr', hst, howns⟩ := hs.request id link hlink
    by_cases hi : link.request = i
    · subst hi
      cases hr.symm.trans hr'
      exact ⟨r, (advanced_request hr).mpr (.inl ⟨rfl, rfl⟩), hstored id link hst,
        hcaller ▸ hgrows.owns howns⟩
    · exact ⟨r', (advanced_request hr).mpr (.inr ⟨hi, hr'⟩), hst, hgrows.owns howns⟩
  once id := by rw [advanced_app, htrail]; exact hs.once id
  stored j caller id body hj := by
    rw [advanced_app, htrail]
    rcases (advanced_request hr).mp hj with ⟨-, rfl⟩ | ⟨-, hj⟩
    · exact (hnew id body rfl).elim
    · exact hs.stored j caller id body hj

/-- A request stores its step. -/
theorem extend (hs : s.Credited) {app : AppState} {i : RequestId} {r r₀ : Request} {id : Uuid}
    {link : Link} (hr : s.requests[i]? = some r₀) (hi : link.request = i)
    (hgrows : s.app.Grows app)
    (htrail : ∀ j, app.trail j = if j = id then link :: s.app.trail j else s.app.trail j)
    (hbefore : ∀ id link, ¬ r₀.handler.Stored id link) (hafter : r.handler.Stored id link)
    (howns : app.Owns r.caller id)
    (hnew : ∀ id' body, r.handler = .resume id' body .stored → id' = id) :
    (s.advanced app i r).Credited where
  request j link' hlink := by
    rw [advanced_app, htrail] at hlink
    -- an older link is not of this request, which had stored nothing yet
    have old : link' ∈ s.app.trail j → ∃ r', (s.advanced app i r).requests[link'.request]? =
        some r' ∧ r'.handler.Stored j link' ∧ app.Owns r'.caller j := fun hlink => by
      obtain ⟨r', hr', hst, hown⟩ := hs.request j link' hlink
      have hne : link'.request ≠ i := by
        rintro rfl
        cases hr.symm.trans hr'
        exact hbefore j link' hst
      exact ⟨r', (advanced_request hr).mpr (.inr ⟨hne, hr'⟩), hst, hgrows.owns hown⟩
    split at hlink
    · next hj =>
      subst hj
      rcases List.mem_cons.mp hlink with rfl | hlink
      · exact ⟨r, (advanced_request hr).mpr (.inl ⟨hi, rfl⟩), hafter, howns⟩
      · exact old hlink
    · exact old hlink
  once j := by
    rw [advanced_app, htrail]
    split
    · rw [List.map_cons, List.nodup_cons]
      refine ⟨?_, hs.once j⟩
      intro hmem
      obtain ⟨link', hlink', heq⟩ := List.mem_map.mp hmem
      obtain ⟨r', hr', hst, -⟩ := hs.request j link' hlink'
      rw [heq, hi] at hr'
      cases hr.symm.trans hr'
      exact hbefore j link' hst
    · exact hs.once j
  stored j caller id' body hj := by
    rw [advanced_app, htrail]
    rcases (advanced_request hr).mp hj with ⟨rfl, rfl⟩ | ⟨-, hj⟩
    · rw [if_pos (hnew id' body rfl)]
      exact ⟨link, List.mem_cons_self, hi⟩
    · obtain ⟨link', hlink', heq⟩ := hs.stored j caller id' body hj
      split
      · exact ⟨link', List.mem_cons_of_mem _ hlink', heq⟩
      · exact ⟨link', hlink', heq⟩

end Credited

theorem Trans.credited {s s' : Server} {a : Action} (h : s.Trans a s') (hok : s.HandlersOk)
    (hs : s.Credited) : s'.Credited := by
  have hgrows := h.grows
  cases h with
  | tick => exact hs.of_eq hgrows rfl (fun _ _ h => h) (fun _ _ h => .inl h)
  | @arrive caller call =>
    refine hs.of_eq hgrows rfl (fun _ _ h => arrived_request.mpr (.inl h)) ?_
    intro i r h
    rcases arrived_request.mp h with h | ⟨-, rfl⟩
    · exact .inl h
    · exact .inr fun id body => by cases call <;> simp [Call.handler]
  | create hr h =>
    cases h with
    | quiet _ _ _ hpast =>
      exact hs.advance hr rfl hgrows rfl (fun _ _ h => ⟨h.1, hpast h.2⟩) (by simp)
    | check _ =>
      exact hs.advance hr rfl hgrows rfl (fun _ _ h => h.2.elim) (by simp)
    | fetch _ =>
      exact hs.advance hr rfl hgrows rfl (fun _ _ h => ⟨h.1, trivial⟩) (by simp)
    | insert _ =>
      exact hs.extend hr rfl hgrows (fun _ => rfl) (fun _ _ h => h.2.elim) ⟨rfl, trivial⟩
        ⟨_, if_pos rfl, rfl⟩ (by simp)
  | resume hr h =>
    have hr' := hok _ _ hr
    cases h with
    | turnAway hturned =>
      refine hs.advance hr rfl hgrows rfl (fun _ _ h => h.2.1.elim) ?_
      intro id body heq
      cases heq
      exact hturned
    | lookup _ _ =>
      exact hs.advance hr rfl hgrows rfl (fun _ _ h => h.2.1.elim) (by simp)
    | refuse _ _ =>
      exact hs.advance hr rfl hgrows rfl (fun _ _ h => h.2.1.elim) (by simp)
    | take _ _ _ =>
      exact hs.advance hr rfl hgrows rfl (fun _ _ h => h.2.1.elim) (by simp)
    | spawn _ =>
      exact hs.advance hr rfl hgrows rfl (fun _ _ h => h.2.1.elim) (by simp)
    | ran _ _ =>
      exact hs.advance hr rfl hgrows (by simp) (fun _ _ h => h.2.1.elim) (by simp)
    | fail =>
      exact hs.advance hr rfl hgrows rfl (fun _ _ h => h.2.1.elim) (by simp)
    | restore _ =>
      exact hs.advance hr rfl hgrows rfl (fun _ _ h => h.2.1.elim) (by simp)
    | answer _ =>
      exact hs.advance hr rfl hgrows rfl (fun _ _ h => ⟨h.1, trivial, h.2.2⟩) (by simp)
    | @store input e step he =>
      exact hs.extend hr rfl hgrows (fun _ => rfl) (fun _ _ h => h.2.1.elim)
        ⟨rfl, trivial, input, rfl, hr'.1⟩ (hgrows.owns hr'.2) (fun _ _ heq => by cases heq; rfl)
  | status hr _ =>
    exact hs.advance hr rfl hgrows rfl (fun _ _ h => h.elim) (by simp)
  | delete hr h =>
    cases h <;>
      exact hs.advance hr rfl hgrows rfl (fun _ _ h => h.elim) (by simp)
  | @stateless i m caller handler handler' free hr hst hst' =>
    refine hs.advance hr rfl hgrows rfl ?_ ?_
    · intro _ _ h
      cases handler <;> first | exact h.elim | exact hst.elim
    · intro _ _ heq
      cases heq
      exact hst'
  | collect _ => exact hs.of_eq hgrows rfl (fun _ _ h => h) (fun _ _ h => .inl h)
  | evict _ => exact hs.of_eq hgrows rfl (fun _ _ h => h) (fun _ _ h => .inl h)

/-! ## Well-formed states -/

structure Wf (s : Server) : Prop where
  handlers : s.HandlersOk
  head : s.app.HeadOk
  credited : s.Credited
  cell : ∀ id, Checkout.Inv rules (s.cell id)

theorem Wf.new (config : Config) : (Server.new config).Wf where
  handlers := by simp [HandlersOk, Server.new]
  head := by simp [AppState.HeadOk, Server.new, AppState.new, SessionStore.new]
  credited := .empty config
  cell id := by
    have hhand : (Server.new config).hand id = fun _ => none :=
      funext fun i => hand_of_no_entry rfl
    rw [Server.cell, hhand]
    exact Checkout.inv_empty

/-- **Step lemma**: every step keeps the server well formed. -/
theorem Wf.step {s s' : Server} {a : Action} (wf : s.Wf) (h : s.step a = some s') : s'.Wf where
  handlers := (step_cases h).handlersOk wf.handlers
  head := (step_cases h).headOk wf.head
  credited := (step_cases h).credited wf.handlers wf.credited
  cell id := by
    cases (step_cases h).effect wf.handlers (wf.head id).1 (wf.cell id) with
    | same _ hcell _ => rw [hcell]; exact wf.cell id
    | step e hstep _ => exact hstep.inv (wf.cell id)

/-- The effect of a step on any session. -/
theorem Wf.effect {s s' : Server} {a : Action} (wf : s.Wf) (h : s.step a = some s') (id : Uuid) :
    s.Effect a s' id :=
  (step_cases h).effect wf.handlers (wf.head id).1 (wf.cell id)

/-- **Run lemma**: every reachable state is well formed. -/
theorem Reachable.wf {config : Config} {s : Server} (h : Reachable config s) : s.Wf :=
  Run.Reachable.invariant (fun _ _ _ wf hstep => wf.step hstep) (.new config) h

theorem wf_of_exec {config : Config} {s : Server} {as : List Action}
    (h : Run.exec step (.new config) as = some s) : s.Wf :=
  Reachable.wf ⟨as, h⟩

/-- A step leaves no progress to be resumed exactly if it is terminal. -/
theorem next_eq_none_iff {link : Link} :
    rules.next link = none ↔ (splitStep link.step).2.1 = true := by
  obtain ⟨request, input, step, tracker⟩ := link
  cases step <;> simp [rules, splitStep]

/-- A session is finished exactly if its latest step left no progress. -/
theorem Wf.latest_eq_none_iff {s : Server} {id : Uuid} (wf : s.Wf) {e : SessionEntry}
    (he : s.entry id = some e) :
    rules.latest (s.app.trail id) = none ↔ e.terminal = true := by
  obtain ⟨link, rest, htrail, hsplit⟩ := (wf.head id).2 e he
  have hterminal : (splitStep link.step).2.1 = e.terminal := congrArg Prod.fst hsplit
  rw [htrail, ← hterminal, ← next_eq_none_iff]
  rfl

end Server

end MontyServer
