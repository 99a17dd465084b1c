import MontyServer.Reaper

/-!
# Requests for a session past its time

No lookup reads `expires_at`: `get` and `remove` ask for the key and the owner, and only the reaper
compares times. A request that comes at or after the expiry is told `session_not_found` exactly if
the session has left the map by then, or is another caller's (`expired_hidden_iff`). Until the next
sweep it is served like any other, and a resume gives it a new expiry.
-/

namespace MontyServer

variable [Crates]

/-- The session a request is about to look up. A resume gets that far with a good body only. -/
def Handler.seeks : Handler → Option Uuid
  | .status id .received | .delete id .received => some id
  | .resume id body .received =>
    match resumeInput body with
    | some (.ok _) => some id
    | _ => none
  | _ => none

omit [Crates] in
/-- The request answered `session_not_found`. -/
def Handler.notFound : Handler → Handler
  | .status id _ => .status id (.done (.error .SessionNotFound))
  | .delete id _ => .delete id (.done (.error .SessionNotFound))
  | .resume id body _ => .resume id body (.done (.error .SessionNotFound))
  | handler => handler

/-- The three requests that look a session up. -/
theorem Handler.seeks_cases {handler : Handler} {id : Uuid} (h : handler.seeks = some id) :
    handler = .status id .received ∨ handler = .delete id .received ∨
      ∃ body input, handler = .resume id body .received ∧ resumeInput body = some (.ok input) := by
  unfold Handler.seeks at h
  split at h
  · cases h; exact .inl rfl
  · cases h; exact .inr (.inl rfl)
  · next id' body =>
    split at h
    · next input hinput =>
      cases h
      exact .inr (.inr ⟨body, input, rfl, hinput⟩)
    · cases h
  · cases h

namespace Server

variable {s s' : Server} {a : Action} {i : RequestId} {r : Request} {id : Uuid}

/-- Step `a` is request `r` looking up session `id`, at or after its expiry; `e` is the entry. -/
structure SeeksExpired (s : Server) (a : Action) (i : RequestId) (r : Request) (id : Uuid)
    (e : SessionEntry) : Prop where
  move : a = .move i .advance
  request : s.requests[i]? = some r
  seeks : r.handler.seeks = some id
  entry : s.entry id = some e
  expired : e.expiresAt ≤ s.app.now

/-- What the promise of the `404` asks of a lookup at or after the expiry: it changes nothing, and
the request has been answered `session_not_found` then and for good. -/
def HidesExpired (s : Server) (a : Action) : Prop :=
  ∀ i r id e s', s.SeeksExpired a i r id e → s.step a = some s' →
    s'.app = s.app ∧ ∀ as s₂, Run.exec Server.step s' as = some s₂ →
      s₂.requests[i]? = some ⟨r.caller, r.handler.notFound⟩

/-- Every lookup at or after the expiry comes when the session has left the map, by a sweep or by a
delete, or is by another caller. -/
def SeeksGone (s : Server) (a : Action) : Prop :=
  ∀ i r id e, s.SeeksExpired a i r id e → id ∉ s.app.sessions.sessions ∨ e.principal ≠ r.caller

/-- **A lookup asks for the key and the owner.** -/
theorem seeks_step (hr : s.requests[i]? = some r) (hseeks : r.handler.seeks = some id) :
    (s.app.sessions.owned id r.caller = false ∧
      s.step (.move i .advance) = some (s.advanced s.app i ⟨r.caller, r.handler.notFound⟩)) ∨
    (s.app.sessions.owned id r.caller = true ∧ ∃ handler, handler ≠ r.handler.notFound ∧
      s.step (.move i .advance) = some (s.advanced s.app i ⟨r.caller, handler⟩)) := by
  obtain ⟨caller, handler⟩ := r
  cases howned : s.app.sessions.owned id caller with
  | false =>
    have hget : s.app.sessions.get id caller = none := by simp [SessionStore.get, howned]
    refine .inl ⟨rfl, ?_⟩
    rcases Handler.seeks_cases hseeks with rfl | rfl | ⟨body, input, rfl, hinput⟩
    · simp [step, hr, Handler.step, Status.step, hget, advanced, Handler.notFound]
    · simp [step, hr, Handler.step, Delete.step, howned, advanced, Handler.notFound]
    · simp [step, hr, Handler.step, Resume.step, Resume.advance, hinput, hget, advanced,
        Handler.notFound]
  | true =>
    have hget : s.app.sessions.get id caller = some id :=
      SessionStore.get_eq_some.mpr ⟨howned, rfl⟩
    refine .inr ⟨rfl, ?_⟩
    rcases Handler.seeks_cases hseeks with rfl | rfl | ⟨body, input, rfl, hinput⟩
    · exact ⟨.status id .found, by simp [Handler.notFound], by
        simp [step, hr, Handler.step, Status.step, hget, advanced]⟩
    · exact ⟨.delete id .owned, by simp [Handler.notFound], by
        simp [step, hr, Handler.step, Delete.step, howned, advanced]⟩
    · exact ⟨.resume id body (.found input), by simp [Handler.notFound], by
        simp [step, hr, Handler.step, Resume.step, Resume.advance, hinput, hget, advanced]⟩

/-- **Step lemma**: a request that cannot move stays as it is, whatever else happens. -/
theorem request_of_still (h : s.step a = some s') (hr : s.requests[i]? = some r)
    (hstill : ∀ m, r.handler.step s.app i r.caller m = none) : s'.requests[i]? = some r := by
  cases a with
  | tick d =>
    cases h
    exact hr
  | arrive caller call =>
    cases h
    exact arrived_request.mpr (.inl hr)
  | move j m =>
    obtain ⟨r₀, hr₀, h⟩ := Option.bind_eq_some_iff.mp h
    obtain ⟨⟨app, handler⟩, hstep, h⟩ := Option.bind_eq_some_iff.mp h
    have hne : i ≠ j := by
      rintro rfl
      cases hr.symm.trans hr₀
      cases (hstill m).symm.trans hstep
    cases h
    exact (advanced_request hr₀).mpr (.inr ⟨hne, hr⟩)
  | collect =>
    simp only [step] at h
    split at h <;> cases h
    exact hr
  | evict =>
    simp only [step] at h
    split at h <;> cases h
    exact hr

/-- **Step lemma**: a request answered `session_not_found` is done. -/
theorem notFound_step (h : s.step a = some s') (hseeks : r.handler.seeks = some id)
    (hr : s.requests[i]? = some ⟨r.caller, r.handler.notFound⟩) :
    s'.requests[i]? = some ⟨r.caller, r.handler.notFound⟩ := by
  apply request_of_still h hr
  intro m
  show r.handler.notFound.step s.app i r.caller m = none
  rcases Handler.seeks_cases hseeks with hseek | hseek | ⟨body, input, hseek, -⟩ <;>
    rw [hseek] <;> cases m <;> rfl

/-- A lookup of an expired session hides it exactly if the session is gone or another caller's. -/
theorem hidesExpired_iff (h : s.step a = some s') : s.HidesExpired a ↔ s.SeeksGone a := by
  constructor
  · intro hhides i r id e hseeks
    obtain ⟨happ, hdone⟩ := hhides i r id e s' hseeks h
    obtain ⟨rfl, hr, hs, he, -⟩ := hseeks
    rcases seeks_step hr hs with ⟨howned, -⟩ | ⟨-, handler, hne, hstep⟩
    · by_contra hboth
      rw [not_or, not_not, not_not] at hboth
      have hown : s.app.sessions.owned id r.caller = true :=
        SessionStore.owned_iff.mpr ⟨hboth.1, e, he, hboth.2⟩
      cases howned.symm.trans hown
    · cases h.symm.trans hstep
      have hfinal := hdone [] _ rfl
      have hnow : (s.advanced s.app i ⟨r.caller, handler⟩).requests[i]? =
          some ⟨r.caller, handler⟩ := (advanced_request hr).mpr (.inl ⟨rfl, rfl⟩)
      cases hnow.symm.trans hfinal
      exact (hne rfl).elim
  · intro hgone i r id e s'' hseeks hstep''
    have hor := hgone i r id e hseeks
    obtain ⟨rfl, hr, hs, he, -⟩ := hseeks
    rcases seeks_step hr hs with ⟨-, hstep⟩ | ⟨howned, -⟩
    · cases hstep''.symm.trans hstep
      refine ⟨rfl, ?_⟩
      intro as s₂ hrun
      have hdone : (s.advanced s.app i ⟨r.caller, r.handler.notFound⟩).requests[i]? =
          some ⟨r.caller, r.handler.notFound⟩ := (advanced_request hr).mpr (.inl ⟨rfl, rfl⟩)
      exact Run.exec_invariant (I := fun t => t.requests[i]? = some ⟨r.caller, r.handler.notFound⟩)
        (fun _ _ _ hi hstep => notFound_step hstep hs hi) hdone hrun
    · obtain ⟨hkey, e', he', hp⟩ := SessionStore.owned_iff.mp howned
      cases he.symm.trans he'
      exact (hor.elim (fun h => h hkey) fun h => h hp).elim

end Server

/-- **Expired sessions are hidden exactly where they are gone.** In a run every status, resume and
delete request that looks a session up at or after its expiry is answered `session_not_found`, and
leaves everything as it is, if and only if every such lookup comes when the session has left the
map or is another caller's. -/
theorem expired_hidden_iff (config : Config) (as : List Action) :
    Run.EveryStep Server.step Server.HidesExpired (.new config) as ↔
      Run.EveryStep Server.step Server.SeeksGone (.new config) as :=
  Run.everyStep_congr (I := fun _ => True) (fun _ _ _ _ _ => trivial)
    (fun _ _ _ _ hstep => Server.hidesExpired_iff hstep) trivial

omit [Crates] in
/-- A status read one second late finds the session, if no sweep has come in between. -/
theorem expired_session_served :
    ¬ ∀ (_ : Crates) (config : Config) (as : List Action),
      Run.EveryStep Server.step Server.HidesExpired (.new config) as := by
  intro h
  let _ := Sample.crates
  let before := Sample.opening ++ [.tick 61000000000, .arrive "owner" (.status 7)]
  have hrun : (Run.exec Server.step (.new Sample.config) before).any (fun s =>
      s.requests[1]?.any (fun r => r.caller = "owner" && r.handler.seeks = some 7) &&
        ((s.entry 7).any (fun e => e.expiresAt ≤ s.app.now && e.principal = "owner") &&
          s.app.sessions.sessions.contains 7)) = true := by decide
  obtain ⟨s, hs, htest⟩ := Option.any_eq_true _ _ |>.mp hrun
  simp only [Bool.and_eq_true] at htest
  obtain ⟨hreq, hentry, hkey⟩ := htest
  obtain ⟨r, hr, hr'⟩ := (Option.any_eq_true _ _).mp hreq
  obtain ⟨e, he, he'⟩ := (Option.any_eq_true _ _).mp hentry
  simp only [Bool.and_eq_true, decide_eq_true_eq] at hr' he'
  -- the lookup comes at 61 s, the session is there and it is its owner's
  have hall := h Sample.crates Sample.config (before ++ [.move 1 .advance])
  have hlast := ((Run.everyStep_append hs).mp hall).2
  obtain ⟨s', hstep⟩ : ∃ s', s.step (.move 1 .advance) = some s' := by
    rcases Server.seeks_step hr hr'.2 with ⟨-, hstep⟩ | ⟨-, _, -, hstep⟩
    · exact ⟨_, hstep⟩
    · exact ⟨_, hstep⟩
  have hhides : s.HidesExpired (.move 1 .advance) := (hlast s' hstep).1
  rcases (Server.hidesExpired_iff hstep).mp hhides 1 r 7 e ⟨rfl, hr, hr'.2, he, he'.1⟩ with
    hgone | hother
  · exact hgone (List.contains_iff_mem.mp hkey)
  · exact hother (he'.2.trans hr'.1.symm)

end MontyServer
