import MontyServer.Lib.Drain
import MontyServer.Permits
import MontyServer.Startup

/-!
# What requests see of one another

Requests share the permits, and apart from them only the session they name. Put aside all requests
but those for a group of sessions, all other sessions with them, and give back the permits they
hold: what is left follows every run, step by step (`exec_aside`). So sessions live as if they were
alone on the server, each other's requests and the stateless ones only taking their time
(`sessions_alone`); and stateless requests make no difference to anything else
(`stateless_invisible`). The other way round, what a stateless request is answered is what its own
work gives (`stateless_answered_alone`).
-/

namespace MontyServer

/-! ## More permits do no harm -/

def AppState.more (app : AppState) (k : Nat) : AppState := app.setConcurrency (app.concurrency + k)

namespace Spawn

variable {W R : Type} {s s' : Spawn W R} {free free' : Nat} {now entered : Instant}

theorem move_more {m : Move} (h : s.move free now m = some (free', s')) (k : Nat) :
    s.move (free + k) now m = some (free' + k, s') := by
  unfold move at h
  split at h
  · split at h
    · next hfree =>
      cases h
      refine (if_pos (Nat.add_pos_left hfree k)).trans ?_
      rw [show free + k - 1 = free - 1 + k by omega]
    · cases h
  all_goals cases h
  all_goals unfold move
  all_goals first | rfl | rw [Nat.add_right_comm]

theorem finish_more {run : W → Option R × Instant}
    (h : s.finish free now entered run = some (free', s')) (k : Nat) :
    s.finish (free + k) now entered run = some (free' + k, s') := by
  unfold finish at h ⊢
  split at h
  · dsimp only at h ⊢
    split at h
    · next htime =>
      cases h
      rw [if_pos htime, Nat.add_right_comm]
    · cases h
  · cases h

end Spawn

/-! ## Some sessions only -/

/-- The store as if it had never held any other session than those of the group. -/
def SessionStore.only (s : SessionStore) (p : Uuid → Bool) : SessionStore :=
  { s with
    sessions := s.sessions.filter p
    entries := fun j => if p j then s.entries j else none }

def AppState.only (app : AppState) (p : Uuid → Bool) : AppState :=
  { app with
    sessions := app.sessions.only p
    trail := fun j => if p j then app.trail j else []
    applied := fun j => if p j then app.applied j else [] }

/-- The group of sessions on its own, with `k` more permits. -/
def AppState.aside (app : AppState) (p : Uuid → Bool) (k : Nat) : AppState := (app.only p).more k

section Only

variable {app app' : AppState} {p : Uuid → Bool} {k : Nat} {j : Uuid}

theorem AppState.aside_entries (hj : p j = true) :
    (app.aside p k).sessions.entries j = app.sessions.entries j := if_pos hj

theorem AppState.aside_contains (hj : p j = true) :
    (app.aside p k).sessions.sessions.contains j = app.sessions.sessions.contains j := by
  show (app.sessions.sessions.filter p).contains j = _
  simp [hj]

theorem AppState.aside_owned (hj : p j = true) (caller : String) :
    (app.aside p k).sessions.owned j caller = app.sessions.owned j caller := by
  rw [SessionStore.owned, SessionStore.owned, aside_contains hj, aside_entries hj]

theorem AppState.aside_get (hj : p j = true) (caller : String) :
    (app.aside p k).sessions.get j caller = app.sessions.get j caller := by
  rw [SessionStore.get, SessionStore.get, aside_owned hj]

/-! What is written to a session of the group is written to the group. -/

theorem AppState.aside_setEntry (hj : p j = true) (e : SessionEntry) :
    (app.aside p k).setEntry j e = (app.setEntry j e).aside p k := by
  simp only [setEntry, aside, more, only, setConcurrency, SessionStore.only,
    SessionStore.setEntry, AppState.mk.injEq, SessionStore.mk.injEq, and_self, and_true, true_and]
  funext i
  by_cases hi : i = j
  · simp [hi, hj]
  · simp [hi]

theorem AppState.aside_insert (hj : p j = true) (e : SessionEntry) :
    (app.aside p k).insert j e = (app.insert j e).aside p k := by
  simp only [insert, aside, more, only, setConcurrency, SessionStore.only, SessionStore.insert,
    List.filter_cons, if_pos hj, AppState.mk.injEq, SessionStore.mk.injEq, and_self, and_true,
    true_and]
  funext i
  by_cases hi : i = j
  · simp [hi, hj]
  · simp [hi]

theorem AppState.aside_extend (hj : p j = true) (link : Link) :
    (app.aside p k).extend j link = (app.extend j link).aside p k := by
  simp only [extend, aside, more, only, setConcurrency, AppState.mk.injEq, and_true, true_and]
  funext i
  by_cases hi : i = j
  · simp [hi, hj]
  · simp [hi]

theorem AppState.aside_apply (hj : p j = true) (token : Token) (input : ResumeInput) :
    (app.aside p k).apply j token input = (app.apply j token input).aside p k := by
  unfold AppState.apply
  split
  · rfl
  · simp only [aside, more, only, setConcurrency, AppState.mk.injEq, true_and]
    funext i
    by_cases hi : i = j
    · simp [hi, hj]
    · simp [hi]

theorem AppState.aside_removeKey (j : Uuid) :
    { app.aside p k with sessions := (app.aside p k).sessions.removeKey j } =
      ({ app with sessions := app.sessions.removeKey j } : AppState).aside p k := by
  simp only [aside, more, only, setConcurrency, SessionStore.only, SessionStore.removeKey,
    List.filter_filter, Bool.and_comm]

theorem AppState.aside_expired (now : Instant) :
    (app.aside p k).sessions.expired now = (app.sessions.expired now).filter p := by
  show (app.sessions.sessions.filter p).filter _ = (app.sessions.sessions.filter _).filter p
  rw [List.filter_filter, List.filter_filter]
  apply List.filter_congr
  intro j _
  cases hj : p j with
  | true =>
    rw [aside_entries hj]
    simp
  | false => simp

theorem AppState.aside_setConcurrency (free : Nat) :
    (app.aside p k).setConcurrency (free + k) = (app.setConcurrency free).aside p k := rfl

/-- What is written to other sessions is put aside. -/
theorem AppState.only_congr (hconfig : app'.config = app.config) (hnow : app'.now = app.now)
    (hmax : app'.sessions.maxSessions = app.sessions.maxSessions)
    (hkeys : app'.sessions.sessions.filter p = app.sessions.sessions.filter p)
    (hsame : ∀ j, p j = true → app'.sessions.entries j = app.sessions.entries j ∧
      app'.trail j = app.trail j ∧ app'.applied j = app.applied j) (free : Nat) :
    (app'.only p).setConcurrency free = (app.only p).setConcurrency free := by
  simp only [only, setConcurrency, SessionStore.only, AppState.mk.injEq, SessionStore.mk.injEq]
  refine ⟨hconfig, ⟨hkeys, ?_, hmax⟩, trivial, hnow, ?_, ?_⟩
  · funext j
    split
    · next hj => exact (hsame j hj).1
    · rfl
  · funext j
    split
    · next hj => exact (hsame j hj).2.1
    · rfl
  · funext j
    split
    · next hj => exact (hsame j hj).2.2
    · rfl

theorem AppState.only_removeKey (hj : p j = false) (free : Nat) :
    (({ app with sessions := app.sessions.removeKey j } : AppState).only p).setConcurrency free =
      (app.only p).setConcurrency free := by
  apply only_congr
  · rfl
  · rfl
  · rfl
  · show (app.sessions.sessions.filter _).filter p = _
    rw [List.filter_filter]
    apply List.filter_congr
    intro i _
    by_cases hi : i = j
    · subst hi
      rw [hj]
      rfl
    · simp [hi]
  · exact fun _ _ => ⟨rfl, rfl, rfl⟩

end Only

/-! ## Handlers go on as they did -/

/-- What can be done here can be done in the group on its own, with the same result. -/
def Matched {P : Type} (p : Uuid → Bool) (k : Nat) (here there : Option (AppState × P)) : Prop :=
  ∀ app phase, here = some (app, phase) → there = some (app.aside p k, phase)

section Handlers

variable {p : Uuid → Bool} {k : Nat}

theorem matched_of_eq {P : Type} {here there : Option (AppState × P)}
    (h : there = here.map fun r => (r.1.aside p k, r.2)) : Matched p k here there := by
  rintro app phase rfl
  exact h

theorem Matched.map {P Q : Type} {here there : Option (AppState × P)} (h : Matched p k here there)
    (f : P → Q) :
    Matched p k (here >>= fun r => some (r.1, f r.2)) (there >>= fun r => some (r.1, f r.2)) := by
  intro app phase hhere
  obtain ⟨⟨app', phase'⟩, hstep, heq⟩ := Option.bind_eq_some_iff.mp hhere
  cases heq
  rw [h app' phase' hstep]
  rfl

variable {app : AppState} {i : RequestId} {caller : String} {j : Uuid} {m : Move}

/-- A handler that waits for its task goes on with it. -/
theorem matched_of_spawn {W R P : Type} {spawned spawned' : Option (Nat × Spawn W R)}
    (h : ∀ free spawn, spawned = some (free, spawn) → spawned' = some (free + k, spawn))
    (phase : Spawn W R → P) :
    Matched p k (spawned >>= fun r => some (app.setConcurrency r.1, phase r.2))
      (spawned' >>= fun r => some ((app.aside p k).setConcurrency r.1, phase r.2)) := by
  intro app' phase' hhere
  obtain ⟨⟨free, spawn⟩, hstep, heq⟩ := Option.bind_eq_some_iff.mp hhere
  cases heq
  rw [h free spawn hstep]
  rfl

variable [Crates]

theorem Create.step_aside (hall : ∀ j, p j = true) {request : CreateSessionRequest}
    {phase : Create} :
    Matched p k (phase.step app i caller request m)
      (phase.step (app.aside p k) i caller request m) := by
  have hroom : (app.aside p k).sessions.hasRoom = app.sessions.hasRoom := by
    have hfilter : app.sessions.sessions.filter p = app.sessions.sessions :=
      List.filter_eq_self.mpr fun j _ => hall j
    show decide ((app.sessions.sessions.filter p).length < _) = _
    rw [hfilter]
    rfl
  cases phase with
  | executing ttl limits spawn =>
    cases m with
    | advance =>
      apply matched_of_eq
      cases spawn with
      | finished result =>
        cases result with
        | none => rfl
        | some outcome =>
          cases outcome with
          | CompileFailed exc => rfl
          | Started tracker step =>
            simp only [Create.step, Create.advance, hroom]
            rfl
      | _ => rfl
    | insert id => intro app' phase' h; cases h
    | finish entered lag =>
      exact matched_of_spawn (fun _ _ h => Spawn.finish_more h k) (Create.executing ttl limits)
    | _ => exact matched_of_spawn (fun _ _ h => Spawn.move_more h k) (Create.executing ttl limits)
  | checked ttl tracker step =>
    apply matched_of_eq
    cases m with
    | insert id =>
      simp only [Create.step, Create.insert, AppState.aside_entries (hall id)]
      cases app.sessions.entries id with
      | some e => rfl
      | none =>
        simp only [AppState.aside_insert (hall id), AppState.aside_extend (hall id)]
        rfl
    | _ => rfl
  | inserted id =>
    apply matched_of_eq
    cases m with
    | advance =>
      simp only [Create.step, Create.advance, AppState.aside_get (hall id)]
      rfl
    | _ => rfl
  | fetched id =>
    apply matched_of_eq
    cases m with
    | advance =>
      simp only [Create.step, Create.advance, AppState.aside_entries (hall id)]
      cases app.sessions.entries id <;> rfl
    | _ => rfl
  | _ =>
    apply matched_of_eq
    cases m <;> rfl

omit [Crates] in
theorem Resume.finish_aside (hj : p j = true) {entered : Instant} {lag : Lag} {input : ResumeInput}
    {progress : RunProgress} {since : Instant} {awaited : Bool} :
    Matched p k (Resume.finish app j entered lag input progress since awaited)
      (Resume.finish (app.aside p k) j entered lag input progress since awaited) := by
  intro app' phase' h
  obtain ⟨e, he, h⟩ := Option.bind_eq_some_iff.mp h
  dsimp only at h
  split at h
  · next htime =>
    cases h
    have htime' : since ≤ entered ∧
        (resumeSession progress e.tracker input entered lag).2.now ≤ (app.aside p k).now := htime
    refine Option.bind_eq_some_iff.mpr ⟨e, (AppState.aside_entries hj).trans he, ?_⟩
    dsimp only
    rw [if_pos htime', AppState.aside_setEntry hj, AppState.aside_apply hj]
    have hfree : (app.aside p k).concurrency + 1 = app.concurrency + 1 + k :=
      Nat.add_right_comm ..
    rw [hfree, AppState.aside_setConcurrency]
  · cases h

theorem Resume.step_aside (hj : p j = true) {body : Value} {phase : Resume} :
    Matched p k (phase.step app i caller j body m)
      (phase.step (app.aside p k) i caller j body m) := by
  cases phase with
  | received =>
    apply matched_of_eq
    cases m with
    | advance =>
      simp only [Resume.step, Resume.advance, AppState.aside_get hj]
      rfl
    | _ => rfl
  | found input =>
    apply matched_of_eq
    cases m with
    | advance =>
      simp only [Resume.step, Resume.advance, AppState.aside_entries hj]
      cases app.sessions.entries j with
      | none => rfl
      | some e =>
        simp only [Option.bind_eq_bind, Option.bind_some]
        cases e.acquireForResume with
        | error err => rfl
        | ok taken => simp only [AppState.aside_setEntry hj]; rfl
    | _ => rfl
  | executing input spawn =>
    cases m with
    | advance =>
      apply matched_of_eq
      cases spawn with
      | finished result =>
        cases result with
        | none => rfl
        | some outcome =>
          cases outcome with
          | Stepped step =>
            simp only [Resume.step, Resume.advance, AppState.aside_entries hj]
            cases app.sessions.entries j with
            | none => rfl
            | some e =>
              simp only [Option.bind_eq_bind, Option.bind_some, AppState.aside_setEntry hj,
                AppState.aside_extend hj]
              rfl
          | Mismatch progress error =>
            simp only [Resume.step, Resume.advance, AppState.aside_entries hj]
            cases app.sessions.entries j with
            | none => rfl
            | some e =>
              simp only [Option.bind_eq_bind, Option.bind_some, AppState.aside_setEntry hj]
              rfl
      | _ => rfl
    | insert id => intro app' phase' h; cases spawn <;> cases h
    | finish entered lag =>
      cases spawn with
      | running progress since awaited => exact finish_aside hj
      | _ => exact matched_of_spawn (fun _ _ h => Spawn.move_more h k) (Resume.executing input)
    | _ => exact matched_of_spawn (fun _ _ h => Spawn.move_more h k) (Resume.executing input)
  | stored =>
    apply matched_of_eq
    cases m with
    | advance =>
      simp only [Resume.step, Resume.advance, AppState.aside_entries hj]
      cases app.sessions.entries j <;> rfl
    | _ => rfl
  | _ =>
    apply matched_of_eq
    cases m <;> rfl

omit [Crates] in
theorem Delete.step_aside (hj : p j = true) {phase : Delete} :
    Matched p k (phase.step app caller j m) (phase.step (app.aside p k) caller j m) := by
  apply matched_of_eq
  cases m with
  | advance =>
    cases phase with
    | received =>
      simp only [Delete.step, AppState.aside_owned hj]
      rfl
    | owned =>
      simp only [Delete.step, AppState.aside_removeKey, AppState.aside_contains hj]
      rfl
    | _ => rfl
  | drop => cases phase <;> rfl
  | _ => rfl

theorem Status.step_aside (hj : p j = true) {phase : Status} :
    Matched p k (phase.step app caller j m) (phase.step (app.aside p k) caller j m) := by
  apply matched_of_eq
  cases m with
  | advance =>
    cases phase with
    | received =>
      simp only [Status.step, AppState.aside_get hj]
      rfl
    | found =>
      simp only [Status.step, AppState.aside_entries hj]
      cases app.sessions.entries j <;> rfl
    | _ => rfl
  | drop => cases phase <;> rfl
  | _ => rfl

end Handlers

/-! ## Requests put aside -/

/-- The request is for a session of the group, or a create where these belong to it. -/
def Handler.watched (p : Uuid → Bool) (creates : Bool) : Handler → Bool
  | .create .. => creates
  | .resume id .. | .status id _ | .delete id _ => p id
  | .run .. | .compile .. => false

/-- The request as it came in. -/
def Handler.reset : Handler → Handler
  | .create request _ => .create request .received
  | .resume id body _ => .resume id body .received
  | .status id _ => .status id .received
  | .delete id _ => .delete id .received
  | .run fields _ => .run fields .received
  | .compile request _ => .compile request .received

section Watched

variable [Crates] {p : Uuid → Bool} {creates : Bool} {k : Nat} {app app' : AppState}
  {i : RequestId} {caller : String} {m : Move} {handler handler' : Handler}

/-- A request stays what it is. -/
theorem Handler.kind_step (h : handler.step app i caller m = some (app', handler')) :
    handler'.watched p creates = handler.watched p creates ∧ handler'.reset = handler.reset := by
  cases handler <;>
    · obtain ⟨⟨app'', phase'⟩, -, h⟩ := Option.bind_eq_some_iff.mp h
      cases h
      exact ⟨rfl, rfl⟩

/-- A request of the group goes on as it did. -/
theorem Handler.step_aside (hwatched : handler.watched p creates = true)
    (hall : creates = true → ∀ j, p j = true) :
    Matched p k (handler.step app i caller m) (handler.step (app.aside p k) i caller m) := by
  cases handler with
  | create request phase => exact (Create.step_aside (hall hwatched)).map (Handler.create request)
  | resume id body phase => exact (Resume.step_aside hwatched).map (Handler.resume id body)
  | status id phase => exact (Status.step_aside hwatched).map (Handler.status id)
  | delete id phase => exact (Delete.step_aside hwatched).map (Handler.delete id)
  | run fields phase => cases hwatched
  | compile request phase => cases hwatched

/-- Any other request leaves the group alone. -/
theorem Server.Trans.elsewhere {s s' : Server} {r : Request} (h : s.Trans (.move i m) s')
    (hr : s.requests[i]? = some r) (hnot : r.handler.watched p creates = false)
    (hstored : creates = false → ∀ j, p j = true → s.entry j ≠ none) (free : Nat) :
    (s'.app.only p).setConcurrency free = (s.app.only p).setConcurrency free := by
  cases h with
  | @create i m caller request phase phase' app hr' h =>
    cases hr.symm.trans hr'
    cases h with
    | @insert ttl tracker step id hnone =>
      -- a session of the group is there already
      have hid : p id = false := by
        apply Bool.eq_false_iff.mpr
        intro hid
        exact hstored hnot id hid hnone
      apply AppState.only_congr
      · rfl
      · rfl
      · rfl
      · show (id :: s.app.sessions.sessions).filter p = _
        rw [List.filter_cons, hid]
        rfl
      · intro j hj
        have hne : j ≠ id := by
          rintro rfl
          cases hj.symm.trans hid
        exact ⟨by simp [hne], by simp [hne], rfl⟩
    | _ => rfl
  | @resume i m caller id body phase phase' app hr' h =>
    cases hr.symm.trans hr'
    have hid : p id = false := hnot
    have hother : ∀ j, p j = true → j ≠ id := by
      rintro j hj rfl
      cases hj.symm.trans hid
    have hkeep : app.config = s.app.config ∧ app.now = s.app.now ∧
        app.sessions.maxSessions = s.app.sessions.maxSessions ∧
        app.sessions.sessions = s.app.sessions.sessions := by
      cases h with
      | ran =>
        unfold AppState.apply
        split <;> exact ⟨rfl, rfl, rfl, rfl⟩
      | _ => exact ⟨rfl, rfl, rfl, rfl⟩
    obtain ⟨hconfig, hnow, hmax, hkeys⟩ := hkeep
    exact AppState.only_congr hconfig hnow hmax (congrArg _ hkeys)
      (fun j hj => h.other (hother j hj)) free
  | status _ _ => rfl
  | @delete i m caller id phase phase' app hr' h =>
    cases hr.symm.trans hr'
    cases h with
    | remove =>
      exact AppState.only_removeKey hnot free
    | _ => rfl
  | stateless _ _ _ => rfl

end Watched

/-! ## The group alone -/

def Request.aside (p : Uuid → Bool) (creates : Bool) (r : Request) : Request :=
  if r.handler.watched p creates then r else { r with handler := r.handler.reset }

/-- The permits that a request puts back where it is put aside. -/
def Request.permitsAside (p : Uuid → Bool) (creates : Bool) (r : Request) : Nat :=
  if r.handler.watched p creates then 0 else r.handler.stage.permits

namespace Server

section Aside

variable (p : Uuid → Bool) (creates : Bool)

def permitsAside (s : Server) : Nat := (s.requests.map (Request.permitsAside p creates)).sum

/-- The server with nothing but the sessions of the group and their requests: any other session is
not there, and any other request waits as it came in. -/
def aside (s : Server) : Server where
  app := s.app.aside p (s.permitsAside p creates)
  requests := s.requests.map (Request.aside p creates)
  expired := s.expired.filter p

/-- What is not the group's to do. -/
def elsewhere (s : Server) : Action → Bool
  | .move i _ => s.requests[i]?.any fun r => !r.handler.watched p creates
  | .evict => s.expired.head?.any fun id => !p id
  | .tick _ | .arrive .. | .collect => false

/-- The group is made of sessions that are there, unless all that are created belong to it. -/
structure Covers (s : Server) : Prop where
  all : creates = true → ∀ j, p j = true
  stored : creates = false → ∀ j, p j = true → s.entry j ≠ none

end Aside

variable [Crates] {p : Uuid → Bool} {creates : Bool} {s s' : Server} {a : Action}

theorem Covers.step (covers : s.Covers p creates) (h : s.step a = some s') :
    s'.Covers p creates where
  all := covers.all
  stored := by
    intro hnot j hj
    obtain ⟨e, he⟩ := Option.ne_none_iff_exists'.mp (covers.stored hnot j hj)
    obtain ⟨e', he', -⟩ := (step_cases h).grows.entry j e he
    exact Option.ne_none_iff_exists'.mpr ⟨e', he'⟩

/-- **Step lemma**: what others do makes no difference to the group. -/
theorem aside_elsewhere (covers : s.Covers p creates) (hother : s.elsewhere p creates a = true)
    (h : s.step a = some s') : s'.aside p creates = s.aside p creates := by
  cases a with
  | move i m =>
    obtain ⟨r, hr, hnot⟩ := (Option.any_eq_true _ _).mp hother
    have hnot' : r.handler.watched p creates = false := by simpa using hnot
    have happ := (step_cases h).elsewhere hr hnot' covers.stored
    obtain ⟨r', hr', hmove⟩ := Option.bind_eq_some_iff.mp h
    cases hr.symm.trans hr'
    obtain ⟨⟨app, handler⟩, hstep, hmove⟩ := Option.bind_eq_some_iff.mp hmove
    cases hmove
    obtain ⟨hkind, hreset⟩ : handler.watched p creates = r.handler.watched p creates ∧
        handler.reset = r.handler.reset := Handler.kind_step hstep
    have hafter : handler.watched p creates = false := hkind.trans hnot'
    have hfree : app.concurrency +
        ((s.requests.set i { r with handler }).map (Request.permitsAside p creates)).sum =
          s.app.concurrency + s.permitsAside p creates := by
      have hpermits := (Handler.step_stage hstep).conserved
      have hsum := @Run.sum_map_set _ (Request.permitsAside p creates) _ _ _ { r with handler } hr
      have hhere : r.permitsAside p creates = r.handler.stage.permits := if_neg (by simp [hnot'])
      have hthere : Request.permitsAside p creates { r with handler } = handler.stage.permits :=
        if_neg (by simp [hafter])
      unfold permitsAside
      omega
    have hrequests : (s.requests.set i { r with handler }).map (Request.aside p creates) =
        s.requests.map (Request.aside p creates) := by
      have hsame : Request.aside p creates { r with handler } = r.aside p creates := by
        simp [Request.aside, hnot', hafter, hreset]
      obtain ⟨hi, rfl⟩ := List.getElem?_eq_some_iff.mp hr
      rw [List.map_set, hsame, ← List.getElem_map (Request.aside p creates), List.set_getElem_self]
      simpa using hi
    unfold aside
    rw [hrequests]
    unfold AppState.aside AppState.more
    congr 1
    exact (congrArg _ hfree).trans (happ _)
  | evict =>
    obtain ⟨id, hid, hnot⟩ := (Option.any_eq_true _ _).mp hother
    have hnot' : p id = false := by simpa using hnot
    cases step_cases h with
    | @evict id' rest hexpired =>
      rw [hexpired] at hid
      cases hid
      unfold aside
      rw [hexpired, List.filter_cons, hnot']
      congr 1
      exact AppState.only_removeKey hnot' _
  | _ => cases hother

/-- **Step lemma**: what the group does, it does on its own. -/
theorem aside_step (covers : s.Covers p creates) (hown : s.elsewhere p creates a = false)
    (h : s.step a = some s') : (s.aside p creates).step a = some (s'.aside p creates) := by
  cases a with
  | tick d =>
    cases h
    rfl
  | arrive caller call =>
    cases h
    have hrequest : Request.aside p creates ⟨caller, call.handler⟩ = ⟨caller, call.handler⟩ := by
      unfold Request.aside
      split
      · rfl
      · cases call <;> rfl
    have hpermits : Request.permitsAside p creates ⟨caller, call.handler⟩ = 0 := by
      unfold Request.permitsAside
      split
      · rfl
      · cases call <;> rfl
    unfold aside permitsAside
    rw [List.map_append, List.map_append, List.sum_append]
    show some _ = some _
    simp [hrequest, hpermits]
  | move i m =>
    obtain ⟨r, hr, hmove⟩ := Option.bind_eq_some_iff.mp h
    obtain ⟨⟨app, handler⟩, hstep, hmove⟩ := Option.bind_eq_some_iff.mp hmove
    cases hmove
    have hwatched : r.handler.watched p creates = true := by
      have hnone : (s.requests[i]?.any fun r => !r.handler.watched p creates) = false := hown
      rw [hr] at hnone
      simpa using hnone
    have hwatched' : handler.watched p creates = true :=
      (Handler.kind_step hstep).1.trans hwatched
    have hthere := Handler.step_aside (k := s.permitsAside p creates) hwatched covers.all
      app handler hstep
    have hhere : (s.aside p creates).requests[i]? = some r := by
      show (s.requests.map _)[i]? = _
      rw [List.getElem?_map, hr]
      exact congrArg some (if_pos hwatched)
    have hpermits : (Server.advanced s app i { r with handler }).permitsAside p creates =
        s.permitsAside p creates := by
      have hsum := @Run.sum_map_set _ (Request.permitsAside p creates) _ _ _ { r with handler } hr
      have hbefore : r.permitsAside p creates = 0 := if_pos hwatched
      have hafter : Request.permitsAside p creates { r with handler } = 0 := if_pos hwatched'
      rw [hbefore, hafter] at hsum
      exact hsum
    refine Option.bind_eq_some_iff.mpr ⟨r, hhere, ?_⟩
    refine Option.bind_eq_some_iff.mpr ⟨_, hthere, ?_⟩
    have hrequest : Request.aside p creates { r with handler } = { r with handler } :=
      if_pos hwatched'
    show some _ = some ((Server.advanced s app i { r with handler }).aside p creates)
    unfold aside
    rw [hpermits]
    simp only [advanced, List.map_set, hrequest]
  | collect =>
    cases step_cases h with
    | collect hexpired =>
      have hnone : (s.aside p creates).expired = [] := by
        show s.expired.filter p = []
        rw [hexpired]
        rfl
      rw [step, hnone]
      show some _ = some _
      rw [aside, aside, ← AppState.aside_expired]
      rfl
  | evict =>
    cases step_cases h with
    | @evict id rest hexpired =>
      have hid : p id = true := by
        have hhead : (s.expired.head?.any fun id => !p id) = false := hown
        rw [hexpired] at hhead
        simpa using hhead
      have hsome : (s.aside p creates).expired = id :: rest.filter p := by
        show s.expired.filter p = _
        rw [hexpired]
        exact List.filter_cons_of_pos hid
      rw [step, hsome]
      exact congrArg (fun app => some (⟨app, s.requests.map (Request.aside p creates),
        rest.filter p⟩ : Server)) (AppState.aside_removeKey id)

/-- **Run lemma**: what the group does in a run, it does on its own. -/
theorem exec_aside (covers : s.Covers p creates) {as : List Action}
    (h : Run.exec step s as = some s') :
    Run.exec step (s.aside p creates) (Run.erase step (elsewhere p creates) s as) =
      some (s'.aside p creates) := by
  obtain ⟨t, hrun, -, rfl⟩ := Run.exec_erase
    (R := fun s t => s.Covers p creates ∧ t = s.aside p creates)
    (fun s t a s' related hother hstep =>
      ⟨related.1.step hstep,
        related.2.trans (aside_elsewhere related.1 hother hstep).symm⟩)
    (fun s t a s' related hown hstep =>
      ⟨s'.aside p creates, related.2 ▸ aside_step related.1 hown hstep,
        related.1.step hstep, rfl⟩)
    ⟨covers, rfl⟩ h
  exact hrun

end Server

/-- **Sessions live on their own.** Take any state, any of the sessions that are there, and any run
from it. Put aside all other sessions and all requests for them, the stateless ones and the creates
among them, and leave out of the run what these requests do and the reaper's evictions of these
sessions. What is left is a run of the sessions that were taken and their requests, alone on the
server, and it leads to where the whole run led them: to the same entries, histories and sweep, with
each of their requests at the same point, the answers among them. -/
theorem sessions_alone [Crates] {s s' : Server} {as : List Action}
    (h : Run.exec Server.step s as = some s') (p : Uuid → Bool)
    (hp : ∀ j, p j = true → s.entry j ≠ none) :
    Run.exec Server.step (s.aside p false)
        (Run.erase Server.step (Server.elsewhere p false) s as) = some (s'.aside p false) :=
  Server.exec_aside ⟨Bool.noConfusion, fun _ => hp⟩ h

/-- While session 7 is resumed, session 8 is created and a program is run. -/
def Sample.crowd : List Action :=
  [.arrive "other" (.create { source := { code := some "try: x\nexcept NameError: y" } }),
    .move 1 .advance] ++ executed 1 ++ [.move 1 .advance] ++ taking 2 ++ executed 2 ++
    [.arrive "other" (.run { code := some "await add(2, 3)" }), .move 3 .advance, .move 3 .acquire,
      .move 1 (.insert 8), .move 2 .advance, .move 2 .advance]

/-- Of the crowd, session 7 only. -/
theorem sessions_alone_in_crowd :
    ∃ (_ : Crates) (s s' : Server),
      Run.exec Server.step (.new Sample.config) Sample.opening = some s ∧
      Run.exec Server.step s Sample.crowd = some s' ∧
      s'.entry 8 ≠ none ∧ (s'.app.trail 7).length = 2 ∧ s'.app.concurrency = 3 ∧
      Run.exec Server.step (s.aside (· == 7) false)
        (Run.erase Server.step (Server.elsewhere (· == 7) false) s Sample.crowd) =
          some (s'.aside (· == 7) false) := by
  let _ := Sample.crates
  have hopening : (Run.exec Server.step (.new Sample.config) Sample.opening).any
      (fun s => (s.entry 7).isSome ∧ (Run.exec Server.step s Sample.crowd).any fun s' =>
        (s'.entry 8).isSome ∧ (s'.app.trail 7).length = 2 ∧ s'.app.concurrency = 3) = true := by
    decide +kernel
  obtain ⟨s, hs, hopening⟩ := (Option.any_eq_true _ _).mp hopening
  obtain ⟨hseven, hcrowd⟩ := of_decide_eq_true hopening
  obtain ⟨s', hs', hcrowd⟩ := (Option.any_eq_true _ _).mp hcrowd
  obtain ⟨height, htrail, hfree⟩ := of_decide_eq_true hcrowd
  have hp : ∀ j, (j == 7) = true → s.entry j ≠ none := by
    intro j hj
    rw [eq_of_beq hj]
    exact Option.isSome_iff_ne_none.mp hseven
  exact ⟨Sample.crates, s, s', hs, hs', Option.isSome_iff_ne_none.mp height, htrail, hfree,
    sessions_alone hs' (· == 7) hp⟩

/-! ## The stateless ones put aside -/

instance Handler.instDecidableIsStateless (handler : Handler) : Decidable handler.IsStateless :=
  match handler with
  | .run .. | .compile .. => .isTrue trivial
  | .create .. | .resume .. | .status .. | .delete .. => .isFalse nofun

/-- A move of a stateless request. -/
def Server.movesStateless (s : Server) : Action → Bool
  | .move i _ => s.requests[i]?.any fun r => r.handler.IsStateless
  | _ => false

/-- They are what is not for any session. -/
theorem Handler.watched_all (handler : Handler) :
    (!handler.watched (fun _ => true) true) = decide handler.IsStateless := by
  cases handler <;> rfl

theorem Server.elsewhere_all : Server.elsewhere (fun _ => true) true = Server.movesStateless := by
  funext s a
  cases a with
  | move i m => simp only [elsewhere, movesStateless, Handler.watched_all]
  | evict =>
    show (s.expired.head?.any fun _ => false) = false
    cases s.expired.head? <;> rfl
  | _ => rfl

/-- **Stateless requests are invisible.** Take any run of the server and leave out every move of a
`POST /v1/run` and a `POST /v1/compile`. What is left is a run too, and it leads to the same
sessions with the same histories, the same time, the same sweep of the reaper and the same answer
of every other request; no fewer permits are free. -/
theorem stateless_invisible [Crates] (config : Config) {as : List Action} {s : Server}
    (h : Run.exec Server.step (.new config) as = some s) :
    ∃ t, Run.exec Server.step (.new config)
        (Run.erase Server.step Server.movesStateless (.new config) as) = some t ∧
      t.app.sessions = s.app.sessions ∧ t.app.trail = s.app.trail ∧ t.app.now = s.app.now ∧
      t.expired = s.expired ∧ s.app.concurrency ≤ t.app.concurrency ∧
      ∀ (i : RequestId) (r : Request), s.requests[i]? = some r → ¬ r.handler.IsStateless →
        t.requests[i]? = some r := by
  have hnew : (Server.new config).aside (fun _ => true) true = .new config := rfl
  have covers : (Server.new config).Covers (fun _ => true) true :=
    ⟨fun _ _ => rfl, Bool.noConfusion⟩
  have hrun := Server.exec_aside covers h
  rw [hnew, Server.elsewhere_all] at hrun
  refine ⟨_, hrun, ?_, rfl, rfl, ?_, Nat.le_add_right .., ?_⟩
  · show s.app.sessions.only _ = _
    simp [SessionStore.only]
  · show s.expired.filter _ = _
    simp
  · intro i r hr hnot
    have hwatched : r.handler.watched (fun _ => true) true = true := by
      have hall := Handler.watched_all r.handler
      simpa [hnot] using hall
    show (s.requests.map _)[i]? = _
    rw [List.getElem?_map, hr]
    exact congrArg some (if_pos hwatched)

/-- Session 7 is created, and request 1 runs a program: it has a permit and is about to spawn. -/
def Sample.besides : List Action :=
  opening ++ [.arrive "other" (.run { code := some "await add(2, 3)" }), .move 1 .advance,
    .move 1 .acquire]

/-- The run that is left out holds a permit. -/
theorem stateless_invisible_running :
    ∃ (_ : Crates) (s t : Server),
      Run.exec Server.step (.new Sample.config) Sample.besides = some s ∧
      s.app.concurrency = 3 ∧ Run.exec Server.step (.new Sample.config)
        (Run.erase Server.step Server.movesStateless (.new Sample.config) Sample.besides) = some t ∧
      t.app.concurrency = 4 ∧ t.app.sessions = s.app.sessions := by
  let _ := Sample.crates
  have hrun : (Run.exec Server.step (.new Sample.config) Sample.besides).any
      (fun s => s.app.concurrency = 3) = true := by decide
  have hwithout : (Run.exec Server.step (.new Sample.config)
      (Run.erase Server.step Server.movesStateless (.new Sample.config) Sample.besides)).any
      (fun t => t.app.concurrency = 4) = true := by decide
  obtain ⟨s, hs, hfree⟩ := (Option.any_eq_true _ _).mp hrun
  obtain ⟨t, ht, hsame, -⟩ := stateless_invisible Sample.config hs
  rw [ht, Option.any_some] at hwithout
  exact ⟨Sample.crates, s, t, hs, of_decide_eq_true hfree, ht, of_decide_eq_true hwithout, hsame⟩

/-! ## What they answer -/

/-- What a stateless endpoint has in hand is its own: the work its request asks for, and what that
gives when it is run, unless the task was cancelled before it started. -/
def Stateless.Own {W R : Type} (cancelled : Prop) (work : ApiResult W)
    (run : Instant → Lag → W → Option (ApiResult R) × Instant) : Stateless W R → Prop
  | .received | .dropped => True
  | .executing spawn => ∃ w, work = .ok w ∧
      (∀ w' awaited, spawn.work = some (w', awaited) → w' = w) ∧
      ∀ result, spawn = .finished result →
        (cancelled ∧ result = none) ∨ ∃ entered lag, (run entered lag w).1 = result
  | .done response => (∃ err, work = .error err ∧ response = .error err) ∨
      (cancelled ∧ response = .error .Internal) ∨
      ∃ w entered lag, work = .ok w ∧
        response = ((run entered lag w).1).getD (.error .Internal)

/-- A task that has not returned is over only if it is cancelled. -/
theorem Spawn.move_finished {W R : Type} {s : Spawn W R} {m : Move} {free free' : Nat}
    {now : Instant} {result : Option R} (h : s.move free now m = some (free', .finished result)) :
    m = .abort ∧ result = none := by
  unfold move at h
  split at h
  · split at h <;> cases h
  case h_4 awaited =>
    refine ⟨rfl, ?_⟩
    cases awaited <;> cases h
    rfl
  all_goals cases h

/-- **Step lemma**: a stateless endpoint goes on with what is its own. -/
theorem Stateless.Own.step {W R : Type} {cancelled : Prop} {app app' : AppState}
    {work : ApiResult W} {run : Instant → Lag → W → Option (ApiResult R) × Instant} {m : Move}
    {phase phase' : Stateless W R} (hown : phase.Own cancelled work run)
    (hm : m = .abort → cancelled) (h : phase.step app work run m = some (app', phase')) :
    phase'.Own cancelled work run := by
  unfold Stateless.step at h
  split at h
  · cases h
    split
    · next err => exact .inl ⟨err, rfl, rfl⟩
    · next w =>
      refine ⟨w, rfl, ?_, ?_⟩
      · intro w' awaited hwork
        cases hwork
        rfl
      · intro result hresult
        cases hresult
  · cases h
    obtain ⟨w, hwork, -, hresult⟩ := hown
    right
    rcases hresult none rfl with ⟨hcancelled, -⟩ | ⟨entered, lag, hrun⟩
    · exact .inl ⟨hcancelled, rfl⟩
    · exact .inr ⟨w, entered, lag, hwork, by rw [hrun]; rfl⟩
  · next result =>
    cases h
    obtain ⟨w, hwork, -, hresult⟩ := hown
    rcases hresult (some result) rfl with ⟨-, hnone⟩ | ⟨entered, lag, hrun⟩
    · cases hnone
    · exact .inr (.inr ⟨w, entered, lag, hwork, by rw [hrun]; rfl⟩)
  · cases h
    trivial
  · -- `finish`: the work returns
    obtain ⟨⟨free, spawn'⟩, hfinish, h⟩ := Option.bind_eq_some_iff.mp h
    cases h
    obtain ⟨w, hwork, hsame, -⟩ := hown
    obtain ⟨w', since, awaited, result, ended, rfl, hrun, -, -, rfl⟩ := Spawn.finish_cases hfinish
    cases hsame w' awaited rfl
    refine ⟨w, hwork, ?_, ?_⟩
    · intro w' awaited' hnone
      cases awaited <;> cases hnone
    · intro result' hresult
      cases awaited with
      | false => cases hresult
      | true =>
        cases hresult
        exact .inr ⟨_, _, congrArg Prod.fst hrun⟩
  · obtain ⟨⟨free, spawn'⟩, hmove, h⟩ := Option.bind_eq_some_iff.mp h
    cases h
    obtain ⟨w, hwork, hsame, -⟩ := hown
    refine ⟨w, hwork, ?_, ?_⟩
    · intro w' awaited hwork'
      cases Spawn.move_cases hmove with
      | wait _ hbefore hafter =>
        cases hwork'.symm.trans hafter
        exact hsame w' awaited hbefore
      | leave _ hbefore hafter =>
        cases hwork'.symm.trans hafter
        exact hsame w' true hbefore
      | gone _ _ hafter => rcases hafter with rfl | rfl <;> cases hwork'
    · intro result hresult
      subst hresult
      obtain ⟨habort, hnone⟩ := Spawn.move_finished hmove
      exact .inl ⟨hm habort, hnone⟩
  · cases h

/-- What a stateless request has in hand is its own. -/
def Handler.Own [Crates] (config : Config) (cancelled : Prop) : Handler → Prop
  | .run fields phase =>
    phase.Own cancelled
      (do return (← fields.intoSpec, resolveLimits fields.limits config.limits))
      fun entered lag (spec, limits) => spec.run limits entered lag
  | .compile request phase =>
    phase.Own cancelled (.ok request) fun entered _ request => (some request.work, entered)
  | _ => True

theorem Handler.Own.step [Crates] {config : Config} {cancelled : Prop} {app app' : AppState}
    {i : RequestId} {caller : String} {m : Move} {handler handler' : Handler}
    (hown : handler.Own config cancelled) (hconfig : app.config = config)
    (hm : m = .abort → cancelled)
    (h : handler.step app i caller m = some (app', handler')) : handler'.Own config cancelled := by
  subst hconfig
  cases handler with
  | run fields phase =>
    obtain ⟨⟨app'', phase'⟩, hstep, h⟩ := Option.bind_eq_some_iff.mp h
    cases h
    exact Stateless.Own.step hown hm hstep
  | compile request phase =>
    obtain ⟨⟨app'', phase'⟩, hstep, h⟩ := Option.bind_eq_some_iff.mp h
    cases h
    exact Stateless.Own.step hown hm hstep
  | _ =>
    obtain ⟨⟨app'', phase'⟩, -, h⟩ := Option.bind_eq_some_iff.mp h
    cases h
    trivial

/-- **Run lemma**: a request has what is its own. -/
theorem Server.own_of_exec [Crates] (cancelled : Prop) {config : Config} {as : List Action}
    {s : Server} (h : Run.exec Server.step (.new config) as = some s) {i : RequestId}
    (hcancel : ∀ a ∈ as, a = .move i .abort → cancelled) {r : Request}
    (hr : s.requests[i]? = some r) : r.handler.Own config cancelled := by
  have hinvariant := Run.exec_invariant_of_forall (I := fun s : Server => s.app.config = config ∧
    ∀ r, s.requests[i]? = some r → r.handler.Own config cancelled) ?_ ?_ hcancel h
  · exact hinvariant.2 r hr
  · intro s a s' ⟨hconfig, hown⟩ ha hstep
    refine ⟨(step_cases hstep).config_eq.trans hconfig, ?_⟩
    intro r' hr'
    rcases request_before hstep hr' with hr | ⟨caller, call, rfl⟩ | ⟨m, r, rfl, hr, -, hmove⟩
    · exact hown r' hr
    · cases call <;> trivial
    · apply (hown r hr).step hconfig _ hmove
      rintro rfl
      exact ha rfl
  · refine ⟨rfl, ?_⟩
    intro r hr
    simp [Server.new] at hr

/-- **Nothing else shows in what a stateless request is answered.** In every run in which the
runtime does not cancel its task before it starts: a `POST /v1/run` that has been answered got the
error of its own body, or what its own program gives when it is run once, from a fresh tracker and
under the limits the request gets (an internal error if that panics); and a `POST /v1/compile` got
what its own source compiles to. -/
theorem stateless_answered_alone [Crates] (config : Config) {as : List Action} {s : Server}
    (h : Run.exec Server.step (.new config) as = some s) {i : RequestId}
    (hno : ∀ a ∈ as, a ≠ .move i .abort) (caller : String) :
    (∀ (fields : SourceFields) (response : ApiResult Outcome),
      s.requests[i]? = some ⟨caller, .run fields (.done response)⟩ →
      (∃ err, fields.intoSpec = .error err ∧ response = .error err) ∨
      ∃ spec entered lag, fields.intoSpec = .ok spec ∧
        response = ((spec.run (resolveLimits fields.limits config.limits) entered lag).1).getD
          (.error .Internal)) ∧
    ∀ (request : CompileRequest) (response : ApiResult CompileResponse),
      s.requests[i]? = some ⟨caller, .compile request (.done response)⟩ →
      response = request.work := by
  constructor
  · intro fields response hr
    have hown := Server.own_of_exec False h hno hr
    rcases hown with ⟨err, hwork, rfl⟩ | ⟨hcancelled, -⟩ |
      ⟨⟨spec, limits⟩, entered, lag, hwork, rfl⟩
    · left
      cases hspec : fields.intoSpec with
      | error err' => rw [hspec] at hwork; cases hwork; exact ⟨err, rfl, rfl⟩
      | ok spec => rw [hspec] at hwork; cases hwork
    · exact hcancelled.elim
    · right
      cases hspec : fields.intoSpec with
      | error err => rw [hspec] at hwork; cases hwork
      | ok spec' => rw [hspec] at hwork; cases hwork; exact ⟨spec, entered, lag, rfl, rfl⟩
  · intro request response hr
    have hown := Server.own_of_exec False h hno hr
    rcases hown with ⟨err, hwork, rfl⟩ | ⟨hcancelled, -⟩ | ⟨request', entered, lag, hwork, rfl⟩
    · cases hwork
    · exact hcancelled.elim
    · cases hwork
      rfl

/-- Request 1 runs a program and is answered, beside the session that request 0 creates. -/
def Sample.ran : List Action :=
  opening ++ [.arrive "other" (.run { code := some "await add(2, 3)" }), .move 1 .advance] ++
    executed 1 ++ [.move 1 .advance]

/-- What a `POST /v1/run` was asked and has been answered. -/
def Request.ranTo (r : Request) : Option (SourceFields × ApiResult Outcome) :=
  match r.handler with
  | .run fields (.done response) => some (fields, response)
  | _ => none

/-- A program is run beside a session. -/
theorem stateless_answered_alone_ran :
    ∃ (_ : Crates) (s : Server) (caller : String) (fields : SourceFields)
      (response : ApiResult Outcome),
      Run.exec Server.step (.new Sample.config) Sample.ran = some s ∧
      s.requests[1]? = some ⟨caller, .run fields (.done response)⟩ ∧
      ((∃ err, fields.intoSpec = .error err ∧ response = .error err) ∨
      ∃ spec entered lag, fields.intoSpec = .ok spec ∧
        response = ((spec.run (resolveLimits fields.limits Sample.config.limits) entered
          lag).1).getD (.error .Internal)) := by
  let _ := Sample.crates
  have hrun : (Run.exec Server.step (.new Sample.config) Sample.ran).any
      (fun s => s.requests[1]?.any fun r => r.ranTo.isSome) = true := by decide
  obtain ⟨s, hs, hrun⟩ := (Option.any_eq_true _ _).mp hrun
  obtain ⟨⟨caller, handler⟩, hr, hdone⟩ := (Option.any_eq_true _ _).mp hrun
  unfold Request.ranTo at hdone
  split at hdone
  · next fields response heq =>
    cases heq
    have hno : ∀ a ∈ Sample.ran, a ≠ .move 1 .abort := by
      rintro a ha rfl
      simp [Sample.ran, Sample.opening, Sample.executed] at ha
    exact ⟨Sample.crates, s, caller, fields, response, hs, hr,
      (stateless_answered_alone Sample.config hs hno caller).1 fields response hr⟩
  · cases hdone

end MontyServer
