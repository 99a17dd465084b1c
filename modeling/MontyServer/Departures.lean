import MontyServer.Completion
import MontyServer.Orphans
import MontyServer.Reaper

/-!
# How sessions leave the store

A session enters the map once, under an id nobody has had, and its key leaves the map by the
`DELETE` of its owner or by the reaper. Every session there has ever been is in one of three places:
stored, deleted by one request that was told so, or evicted by one sweep (`session_ends_once`).
Where it has left, it has left for good, and whoever asks for it then is told `session_not_found`
(`removed_for_good`).
-/

namespace MontyServer

/-- The request is a `DELETE` of session `id` that has been answered `204`. -/
def Handler.deleted (id : Uuid) : Handler → Bool
  | .delete id' (.done (.ok _)) => id' = id
  | _ => false

namespace Server

/-- How many requests have been told that they have deleted session `id`. -/
def deletions (s : Server) (id : Uuid) : Nat := s.requests.countP fun r => r.handler.deleted id

/-- Whether there has ever been a session `id`. -/
def created (s : Server) (id : Uuid) : Nat := if (s.entry id).isSome then 1 else 0

/-- Where session `id` can be now: in the map, or with the request that has deleted it. -/
def placed (s : Server) (id : Uuid) : Nat := s.app.sessions.sessions.count id + s.deletions id

/-- Whether the step is the reaper taking session `id` out of the map. -/
def reaps (id : Uuid) (s : Server) : Action → Nat
  | .evict => if s.expired.head? = some id ∧ id ∈ s.app.sessions.sessions then 1 else 0
  | _ => 0

variable {s s' : Server} {a : Action} {id : Uuid}

/-- A move changes a count of the requests by what its request becomes. -/
theorem advanced_countP (p : Request → Bool) (app : AppState) {i : RequestId} (r : Request)
    {r₀ : Request} (hr : s.requests[i]? = some r₀) :
    (s.advanced app i r).requests.countP p + (if p r₀ then 1 else 0) =
      s.requests.countP p + (if p r then 1 else 0) := by
  obtain ⟨hi, rfl⟩ := List.getElem?_eq_some_iff.mp hr
  have hset := List.countP_set (p := p) (a := r) hi
  rw [advanced, hset]
  split
  · next hp =>
    have hpos : 0 < s.requests.countP p :=
      List.countP_pos_iff.mpr ⟨_, List.getElem_mem hi, hp⟩
    omega
  · omega

theorem advanced_deletions (app : AppState) {i : RequestId} (r : Request) {r₀ : Request}
    (hr : s.requests[i]? = some r₀) (h₀ : r₀.handler.deleted id = false)
    (h : r.handler.deleted id = false) : (s.advanced app i r).deletions id = s.deletions id := by
  simpa [deletions, h₀, h] using
    advanced_countP (fun r => r.handler.deleted id) app r hr

/-! ## What a step does to the keys -/

/-- **A step and the map**: the keys stay, or a new session enters, or one is taken out, by the
request that is told so or by the reaper. -/
inductive Passage (s : Server) (a : Action) (s' : Server) : Prop
  | stay : a ≠ .evict → s'.app.sessions.sessions = s.app.sessions.sessions →
    (∀ id, s'.deletions id = s.deletions id) →
    (∀ id, s'.entry id = none ↔ s.entry id = none) → Passage s a s'
  | enter (id : Uuid) : a ≠ .evict → s.entry id = none →
    s'.app.sessions.sessions = id :: s.app.sessions.sessions →
    (∀ j, s'.deletions j = s.deletions j) →
    (∀ j, s'.entry j = none ↔ j ≠ id ∧ s.entry j = none) → Passage s a s'
  | delete (id : Uuid) : a ≠ .evict →
    s'.app.sessions.sessions = s.app.sessions.sessions.filter (· ≠ id) →
    (∀ j, s'.deletions j =
      s.deletions j + if j = id ∧ id ∈ s.app.sessions.sessions then 1 else 0) →
    (∀ j, s'.entry j = s.entry j) → Passage s a s'
  | reap (id : Uuid) (rest : List Uuid) : a = .evict → s.expired = id :: rest →
    s'.app.sessions.sessions = s.app.sessions.sessions.filter (· ≠ id) →
    (∀ j, s'.deletions j = s.deletions j) → (∀ j, s'.entry j = s.entry j) → Passage s a s'

variable [Crates]

/-- What the last move of a `DELETE` does and says. -/
theorem step_remove {i : RequestId} {caller : String}
    (hr : s.requests[i]? = some ⟨caller, .delete id .owned⟩) :
    s.step (.move i .advance) = some
      (s.advanced { s.app with sessions := s.app.sessions.removeKey id } i
        ⟨caller, .delete id (.done
          (if s.app.sessions.sessions.contains id then .ok () else .error .SessionNotFound))⟩) := by
  simp [step, hr, Handler.step, Delete.step, advanced]

/-- No step but an insertion makes an entry. -/
theorem entry_none_iff (h : s.step a = some s') (hnot : ∀ i id, a ≠ .move i (.insert id))
    (id : Uuid) : s'.entry id = none ↔ s.entry id = none := by
  constructor
  · intro hnone
    cases he : s.entry id with
    | none => rfl
    | some e =>
      obtain ⟨e', he', -⟩ := (step_cases h).grows.entry id e he
      cases hnone.symm.trans he'
  · intro hnone
    rcases (step_cases h).entry_new hnone with hnone' | ⟨i, ha⟩
    · exact hnone'
    · exact (hnot i id ha).elim

theorem passage_remove {i : RequestId} {caller : String}
    (hr : s.requests[i]? = some ⟨caller, .delete id .owned⟩)
    (h : s.step (.move i .advance) = some s') : s.Passage (.move i .advance) s' := by
  rw [step_remove hr] at h
  cases h
  refine .delete id nofun rfl ?_ fun _ => rfl
  intro j
  by_cases hkey : id ∈ s.app.sessions.sessions
  · rw [List.contains_iff_mem.mpr hkey, if_pos rfl]
    have hcount := advanced_countP (fun r => r.handler.deleted j)
      { s.app with sessions := s.app.sessions.removeKey id }
      ⟨caller, .delete id (.done (.ok ()))⟩ hr
    have hbefore : (Handler.delete id .owned).deleted j = false := rfl
    simpa [deletions, Handler.deleted, hbefore, hkey, eq_comm] using hcount
  · have hnot : s.app.sessions.sessions.contains id = false := by simpa using hkey
    have hsame : _ = s.deletions j := advanced_deletions
      { s.app with sessions := s.app.sessions.removeKey id }
      ⟨caller, .delete id (.done (.error .SessionNotFound))⟩ hr rfl rfl
    simpa [hnot, hkey] using hsame

/-- **Step lemma**: what any step does to the map. -/
theorem passage (h : s.step a = some s') : s.Passage a s' := by
  by_cases hremove : ∃ i caller id, a = .move i .advance ∧
      s.requests[i]? = some ⟨caller, .delete id .owned⟩
  · obtain ⟨i, caller, id, rfl, hr⟩ := hremove
    exact passage_remove hr h
  have hentries := entry_none_iff h
  have hstay : ∀ {i : RequestId} {m : Move}, Action.move i m ≠ .evict :=
    fun h => Action.noConfusion h
  cases step_cases h with
  | tick =>
    exact .stay (fun h => Action.noConfusion h) rfl (fun _ => rfl)
      (hentries fun _ _ h => Action.noConfusion h)
  | @arrive caller call =>
    refine .stay (fun h => Action.noConfusion h) rfl ?_ (hentries fun _ _ h => Action.noConfusion h)
    intro id
    have hnew : call.handler.deleted id = false := by cases call <;> rfl
    simp [deletions, hnew]
  | @create i m caller request phase phase' app hr hmove =>
    have hsame : ∀ j, _ = s.deletions j := fun j =>
      advanced_deletions app ⟨caller, .create request phase'⟩ hr rfl rfl
    cases hmove with
    | @insert ttl tracker step id hnone =>
      refine .enter id hstay hnone rfl hsame ?_
      intro j
      by_cases hj : j = id
      · simp [entry, hj]
      · simp [entry, hj]
    | quiet free hnot hquiet _ =>
      refine .stay hstay rfl hsame fun j => Iff.rfl
    | check _ => exact .stay hstay rfl hsame fun j => Iff.rfl
    | fetch _ => exact .stay hstay rfl hsame fun j => Iff.rfl
  | @resume i m caller id body phase phase' app hr hmove =>
    refine .stay hstay ?_ (fun j => advanced_deletions _ _ hr rfl rfl) (hentries ?_)
    · cases hmove <;> simp
    · -- a resume has no use for an id
      intro j id' ha
      cases ha
      simp only [step, hr, Handler.step, Option.bind_eq_bind, Option.bind_some] at h
      cases phase <;> simp [Resume.step, Spawn.move] at h
  | @status i m caller id phase phase' hr _ =>
    exact .stay hstay rfl (fun j => advanced_deletions _ _ hr rfl rfl) fun _ => Iff.rfl
  | @delete i m caller id phase phase' app hr hmove =>
    cases hmove with
    | remove => exact (hremove ⟨i, caller, id, rfl, hr⟩).elim
    | drop => exact .stay hstay rfl (fun _ => advanced_deletions _ _ hr rfl rfl) fun _ => Iff.rfl
    | unknown _ =>
      exact .stay hstay rfl (fun _ => advanced_deletions _ _ hr rfl rfl) fun _ => Iff.rfl
    | lookup _ =>
      exact .stay hstay rfl (fun _ => advanced_deletions _ _ hr rfl rfl) fun _ => Iff.rfl
  | @stateless i m caller handler handler' free hr hstateless hstateless' =>
    refine .stay hstay rfl (fun j => advanced_deletions _ _ hr ?_ ?_) fun _ => Iff.rfl
    · cases handler <;> first | rfl | exact hstateless.elim
    · cases handler' <;> first | rfl | exact hstateless'.elim
  | collect _ => exact .stay (fun h => Action.noConfusion h) rfl (fun _ => rfl) fun _ => Iff.rfl
  | @evict id rest hcons =>
    exact .reap id rest rfl hcons rfl (fun _ => rfl) fun _ => rfl

/-! ## Where a session is -/

omit [Crates] in
/-- The map holds no key twice, and none without an entry. -/
structure Keyed (s : Server) : Prop where
  once : s.app.sessions.sessions.Nodup
  entry : ∀ id ∈ s.app.sessions.sessions, s.entry id ≠ none

omit [Crates] in
theorem Keyed.new (config : Config) : (Server.new config).Keyed where
  once := List.nodup_nil
  entry _ hid := nomatch hid

/-- **Step lemma**: a new key is one that has had no entry. -/
theorem Keyed.step (keyed : s.Keyed) (h : s.step a = some s') : s'.Keyed := by
  have kept : ∀ id, s'.app.sessions.sessions = s.app.sessions.sessions.filter (· ≠ id) →
      (∀ j, s'.entry j = s.entry j) → s'.Keyed := by
    intro id hkeys hentries
    refine ⟨hkeys ▸ keyed.once.filter _, ?_⟩
    intro j hj
    rw [hkeys] at hj
    rw [hentries]
    exact keyed.entry j (List.mem_of_mem_filter hj)
  cases passage h with
  | stay _ hkeys _ hentries =>
    refine ⟨hkeys ▸ keyed.once, ?_⟩
    intro j hj
    rw [Ne, hentries]
    exact keyed.entry j (hkeys ▸ hj)
  | enter id _ hnone hkeys _ hentries =>
    have hfresh : id ∉ s.app.sessions.sessions := fun hid => keyed.entry id hid hnone
    refine ⟨hkeys ▸ List.nodup_cons.mpr ⟨hfresh, keyed.once⟩, ?_⟩
    intro j hj hnone'
    obtain ⟨hne, hold⟩ := (hentries j).mp hnone'
    rw [hkeys] at hj
    rcases List.mem_cons.mp hj with rfl | hj
    · exact hne rfl
    · exact keyed.entry j hj hold
  | delete id _ hkeys _ hentries => exact kept id hkeys hentries
  | reap id rest _ _ hkeys _ hentries => exact kept id hkeys hentries

/-- **Run lemma**. -/
theorem Reachable.keyed {config : Config} (h : Reachable config s) : s.Keyed :=
  Run.Reachable.invariant (fun _ _ _ hs hstep => hs.step hstep) (Keyed.new config) h

omit [Crates] in
theorem reaps_of_ne (h : a ≠ .evict) : s.reaps id a = 0 := by
  cases a with
  | evict => exact (h rfl).elim
  | _ => rfl

omit [Crates] in
theorem created_congr (h : s'.entry id = none ↔ s.entry id = none) :
    s'.created id = s.created id := by
  simp only [created, Option.isSome_iff_ne_none, Ne, h]

/-- **Step lemma**: a session that has been created is where it was, or has gone where it went. -/
theorem Keyed.balance (keyed : s.Keyed) (h : s.step a = some s') (id : Uuid) :
    s'.placed id + s.reaps id a + s.created id = s.placed id + s'.created id := by
  rw [placed, placed, keyed.once.count, (keyed.step h).once.count]
  cases passage h with
  | stay hnot hkeys hdeletions hentries =>
    rw [reaps_of_ne hnot, hkeys, hdeletions, created_congr (hentries id), Nat.add_zero]
  | enter j hnot hnone hkeys hdeletions hentries =>
    rw [reaps_of_ne hnot, hkeys, hdeletions]
    by_cases hid : id = j
    · subst hid
      have hfresh : id ∉ s.app.sessions.sessions := fun hid => keyed.entry id hid hnone
      have hborn : s'.entry id ≠ none := fun hnone' => ((hentries id).mp hnone').1 rfl
      have hcreated : s'.created id = 1 := if_pos (Option.isSome_iff_ne_none.mpr hborn)
      have hnever : s.created id = 0 := by simp [created, hnone]
      simp [hfresh, hcreated, hnever]
      omega
    · have hsame : s'.entry id = none ↔ s.entry id = none := by simp [hentries, hid]
      rw [created_congr hsame]
      simp [hid]
  | delete j hnot hkeys hdeletions hentries =>
    rw [reaps_of_ne hnot, hkeys, hdeletions, created_congr (by rw [hentries])]
    by_cases hid : id = j
    · subst hid
      simp
      omega
    · simp [hid]
  | reap j rest ha hcons hkeys hdeletions hentries =>
    rw [hkeys, hdeletions, created_congr (by rw [hentries]), ha]
    by_cases hid : id = j
    · subst hid
      simp [reaps, hcons]
      omega
    · simp [reaps, hcons, hid, Ne.symm hid]

/-! ## Asking for a session that has left -/

end Server

/-- Of a request for session `id`: it has not been looked at, or it has been given up or turned away
for its body, or it has been told `session_not_found`. -/
def Handler.InVain [Crates] (id : Uuid) : Handler → Prop
  | .status id' phase =>
    id' = id → phase = .received ∨ phase = .dropped ∨ phase = .done (.error .SessionNotFound)
  | .delete id' phase =>
    id' = id → phase = .received ∨ phase = .dropped ∨ phase = .done (.error .SessionNotFound)
  | .resume id' body phase =>
    id' = id → phase = .received ∨ phase = .dropped ∨ phase = .rejected ∨
      ∃ err, phase = .done (.error err) ∧
        ∀ input, resumeInput body = some (.ok input) → err = .SessionNotFound
  | _ => True

section InVain

variable [Crates] {app app' : AppState} {i : RequestId} {caller : String} {m : Move} {id : Uuid}

theorem Status.inVain_step {phase phase' : Status} (hgone : app.sessions.owned id caller = false)
    (h : phase.step app caller id m = some (app', phase'))
    (hvain : (Handler.status id phase).InVain id) : (Handler.status id phase').InVain id := by
  intro _
  obtain ⟨rfl, htrans⟩ := Status.step_cases h
  cases htrans with
  | drop => exact .inr (.inl rfl)
  | unknown _ => exact .inr (.inr rfl)
  | lookup howned => cases hgone.symm.trans howned
  | answer _ => rcases hvain rfl with h | h | h <;> cases h

theorem Delete.inVain_step {phase phase' : Delete} (hgone : app.sessions.owned id caller = false)
    (h : phase.step app caller id m = some (app', phase'))
    (hvain : (Handler.delete id phase).InVain id) : (Handler.delete id phase').InVain id := by
  intro _
  cases Delete.step_cases h with
  | drop => exact .inr (.inl rfl)
  | unknown _ => exact .inr (.inr rfl)
  | lookup howned => cases hgone.symm.trans howned
  | remove => rcases hvain rfl with h | h | h <;> cases h

theorem Resume.inVain_step {body : Value} {phase phase' : Resume}
    (hgone : app.sessions.owned id caller = false)
    (h : phase.step app i caller id body m = some (app', phase'))
    (hvain : (Handler.resume id body phase).InVain id) :
    (Handler.resume id body phase').InVain id := by
  intro _
  rcases hvain rfl with rfl | rfl | rfl | ⟨err, rfl, -⟩
  · cases m with
    | drop =>
      cases h
      exact .inr (.inl rfl)
    | advance =>
      have hget : app.sessions.get id caller = none := by simp [SessionStore.get, hgone]
      cases h
      rw [hget]
      right; right
      split
      · exact .inl rfl
      · next err hbody => exact .inr ⟨err, rfl, by simp [hbody]⟩
      · exact .inr ⟨.SessionNotFound, rfl, fun _ _ => rfl⟩
    | _ => cases h
  · cases m <;> cases h
  · cases m <;> cases h
  · cases m <;> cases h

/-- **Step lemma**: whoever asks for a session that is not there asks in vain. -/
theorem Handler.InVain.step {handler handler' : Handler}
    (hgone : app.sessions.owned id caller = false) (hvain : handler.InVain id)
    (h : handler.step app i caller m = some (app', handler')) : handler'.InVain id := by
  cases handler with
  | status id' phase =>
    obtain ⟨⟨app', phase'⟩, hphase, h⟩ := Option.bind_eq_some_iff.mp h
    cases h
    rintro rfl
    exact Status.inVain_step hgone hphase hvain rfl
  | delete id' phase =>
    obtain ⟨⟨app', phase'⟩, hphase, h⟩ := Option.bind_eq_some_iff.mp h
    cases h
    rintro rfl
    exact Delete.inVain_step hgone hphase hvain rfl
  | resume id' body phase =>
    obtain ⟨⟨app', phase'⟩, hphase, h⟩ := Option.bind_eq_some_iff.mp h
    cases h
    rintro rfl
    exact Resume.inVain_step hgone hphase hvain rfl
  | _ =>
    obtain ⟨⟨app', phase'⟩, -, h⟩ := Option.bind_eq_some_iff.mp h
    cases h
    trivial

end InVain

namespace Server

variable {s s' t : Server} {a : Action} {id : Uuid}

/-- There has been a session `id`, and its key has left the map. -/
structure Gone (s : Server) (id : Uuid) : Prop where
  created : s.entry id ≠ none
  absent : id ∉ s.app.sessions.sessions

variable [Crates]

/-- **Step lemma**: what has left the map does not come back. -/
theorem Gone.step (gone : s.Gone id) (h : s.step a = some s') : s'.Gone id := by
  have htrans := step_cases h
  obtain ⟨e, he⟩ := Option.ne_none_iff_exists'.mp gone.created
  refine ⟨?_, fun hid => gone.absent (htrans.key_old he hid)⟩
  obtain ⟨e', he', -⟩ := htrans.grows.entry id e he
  rw [entry, he']
  exact Option.some_ne_none e'

theorem Gone.inVain_step (gone : s.Gone id) (h : s.step a = some s') {i : RequestId}
    (hvain : ∀ r, s.requests[i]? = some r → r.handler.InVain id) {r' : Request}
    (hr' : s'.requests[i]? = some r') : r'.handler.InVain id := by
  rcases request_before h hr' with hr | ⟨caller, call, rfl⟩ | ⟨m, r, -, hr, hcaller, hstep⟩
  · exact hvain r' hr
  · cases call <;> first | trivial | exact fun _ => .inl rfl
  · have howned : s.app.sessions.owned id r.caller = false := by
      apply Bool.eq_false_iff.mpr
      intro howned
      exact gone.absent (SessionStore.owned_iff.mp howned).1
    exact (hvain r hr).step howned hstep

/-! ## What a sweep takes -/

omit [Crates] in
/-- Between the passes of a sweep: what it has collected is still to be removed, or has left. -/
def Sweeping (collected : List Uuid) (s : Server) : Prop :=
  ∀ id ∈ collected, s.entry id ≠ none ∧ (id ∈ s.expired ∨ s.Gone id)

/-- **Step lemma**: nothing that has been collected is forgotten. -/
theorem Sweeping.step {collected : List Uuid} (sweeping : s.Sweeping collected)
    (h : s.step a = some s') : s'.Sweeping collected := by
  intro id hid
  obtain ⟨hcreated, hor⟩ := sweeping id hid
  have htrans := step_cases h
  have hcreated' : s'.entry id ≠ none := by
    obtain ⟨e, he⟩ := Option.ne_none_iff_exists'.mp hcreated
    obtain ⟨e', he', -⟩ := htrans.grows.entry id e he
    rw [entry, he']
    exact Option.some_ne_none e'
  refine ⟨hcreated', ?_⟩
  rcases hor with hexpired | hgone
  · cases htrans with
    | collect hnil =>
      rw [hnil] at hexpired
      cases hexpired
    | @evict j rest hcons =>
      rw [hcons] at hexpired
      rcases List.mem_cons.mp hexpired with rfl | hrest
      · refine .inr ⟨hcreated', ?_⟩
        show id ∉ s.app.sessions.sessions.filter (· ≠ id)
        simp
      · exact .inl hrest
    | _ => exact .inl hexpired
  · exact .inr (hgone.step h)

theorem Sweeping.of_collect (h : s.step .collect = some s') :
    s'.Sweeping (s.app.sessions.expired s.app.now) := by
  cases step_cases h with
  | collect _ =>
    intro id hid
    obtain ⟨e, he, -⟩ := (Option.any_eq_true _ _).mp (List.mem_filter.mp hid).2
    have hcreated : s.entry id ≠ none := by
      rw [entry, he]
      exact Option.some_ne_none e
    exact ⟨hcreated, .inl hid⟩

/-- **A full sweep misses nothing**: what is stored once everything collected has been removed was
not stored when the sweep began, or was not past its expiry then. -/
theorem sweep_complete (hcollect : s.step .collect = some s') {as : List Action}
    (hrun : Run.exec step s' as = some t) (hdone : t.expired = [])
    (hid : id ∈ t.app.sessions.sessions) {e : SessionEntry} (he : s.entry id = some e)
    (hkey : id ∈ s.app.sessions.sessions) : s.app.now < e.expiresAt := by
  by_contra hdue
  have hexpired : id ∈ s.app.sessions.expired s.app.now := by
    refine List.mem_filter.mpr ⟨hkey, ?_⟩
    rw [show s.app.sessions.entries id = some e from he]
    exact decide_eq_true (Nat.not_lt.mp hdue)
  have hsweeping : t.Sweeping (s.app.sessions.expired s.app.now) :=
    Run.exec_invariant (fun _ _ _ hs hstep => hs.step hstep) (.of_collect hcollect) hrun
  rcases (hsweeping id hexpired).2 with hleft | hgone
  · rw [hdone] at hleft
    cases hleft
  · exact hgone.absent hid

/-! ## How long a session can be idle -/

omit [Crates] in
/-- No expiry is further off than the time-to-live of its session. -/
def WithinTtl (s : Server) : Prop :=
  ∀ id e, s.entry id = some e → e.expiresAt ≤ s.app.now + e.ttl

theorem WithinTtl.step (within : s.WithinTtl) (h : s.step a = some s') : s'.WithinTtl := by
  have htrans := step_cases h
  have hnow : s.app.now ≤ s'.app.now := htrans.grows.now
  intro id e' he'
  rcases htrans.expiry he' with ⟨e, he, hsame, httl⟩ | ⟨hnew, -⟩
  · rw [hsame, httl]
    exact Nat.le_trans (within id e he) (Nat.add_le_add_right hnow _)
  · rw [hnew]
    exact Nat.add_le_add_right hnow _

/-- **Run lemma**: every session expires within its time-to-live. -/
theorem Reachable.withinTtl {config : Config} (h : Reachable config s) : s.WithinTtl :=
  Run.Reachable.invariant (I := WithinTtl) (fun _ _ _ hs hstep => hs.step hstep)
    (fun _ _ he => by cases he) h

theorem Reachable.expiry_le {config : Config} (h : Reachable config s) {e : SessionEntry}
    (he : s.entry id = some e) : e.expiresAt ≤ s.app.now + config.sessions.maxTtl := by
  obtain ⟨requested, httl⟩ := h.resolved.stored id e he
  have hle := resolveTtl_le requested config.sessions
  rw [← httl] at hle
  exact Nat.le_trans (h.withinTtl id e he) (Nat.add_le_add_left hle _)

/-- An expiry moves only with a step that is stored. -/
theorem Trans.expiry_of_trail (h : s.Trans a s') (htrail : s'.app.trail id = s.app.trail id)
    {e : SessionEntry} (he : s.entry id = some e) :
    ∃ e', s'.entry id = some e' ∧ e'.expiresAt = e.expiresAt := by
  cases h with
  | create _ h =>
    cases h with
    | @insert ttl tracker step j hnone =>
      have hj : id ≠ j := by
        rintro rfl
        cases hnone.symm.trans he
      exact ⟨e, by simpa [entry, hj] using he, rfl⟩
    | _ => exact ⟨e, he, rfl⟩
  | @resume i m caller j body phase phase' app hr h =>
    by_cases hid : id = j
    · subst hid
      cases h with
      | @take input e₀ p he₀ _ _ =>
        cases he.symm.trans he₀
        exact ⟨{ e with progress := none }, by simp [entry], rfl⟩
      | @ran input e₀ p since entered lag awaited result w he₀ _ =>
        cases he.symm.trans he₀
        exact ⟨{ e with tracker := w.tracker }, by simp [entry], rfl⟩
      | store _ =>
        -- the trail has grown
        have hlength := congrArg List.length htrail
        simp at hlength
      | @restore input e₀ p error he₀ =>
        cases he.symm.trans he₀
        exact ⟨e.restore p, by simp [entry], rfl⟩
      | _ => exact ⟨e, he, rfl⟩
    · have hother : app.sessions.entries id = s.app.sessions.entries id := (h.other hid).1
      exact ⟨e, hother.trans he, rfl⟩
  | delete _ h => cases h <;> exact ⟨e, he, rfl⟩
  | _ => exact ⟨e, he, rfl⟩

/-- **Run lemma**: a session that has had no step keeps its expiry. -/
theorem expiry_of_trail {as : List Action} (hrun : Run.exec step s as = some t)
    (htrail : t.app.trail id = s.app.trail id) {e : SessionEntry} (he : s.entry id = some e) :
    ∃ e', t.entry id = some e' ∧ e'.expiresAt = e.expiresAt := by
  have hinvariant := Run.exec_invariant (I := fun r : Server =>
    s.app.trail id <:+ r.app.trail id ∧ (r.app.trail id = s.app.trail id →
      ∃ e', r.entry id = some e' ∧ e'.expiresAt = e.expiresAt))
    ?_ ⟨List.suffix_refl _, fun _ => ⟨e, he, rfl⟩⟩ hrun
  · exact hinvariant.2 htrail
  · intro r a r' ⟨hsuffix, hold⟩ hstep
    have htrans := step_cases hstep
    have hgrows := htrans.grows.trail id
    refine ⟨hsuffix.trans hgrows, ?_⟩
    intro hsame'
    have hsame : r.app.trail id = s.app.trail id := by
      have hle := hgrows.length_le
      rw [hsame'] at hle
      exact (hsuffix.eq_of_length (Nat.le_antisymm hsuffix.length_le hle)).symm
    obtain ⟨e₁, he₁, hexpires⟩ := hold hsame
    obtain ⟨e₂, he₂, hexpires'⟩ := htrans.expiry_of_trail (hsame'.trans hsame.symm) he₁
    exact ⟨e₂, he₂, hexpires'.trans hexpires⟩

/-- Histories are only added to. -/
theorem trail_of_exec {as : List Action} (hrun : Run.exec step s as = some t) (id : Uuid) :
    s.app.trail id <:+ t.app.trail id :=
  Run.exec_invariant (I := fun r : Server => s.app.trail id <:+ r.app.trail id)
    (fun _ _ _ hs hstep => hs.trans ((step_cases hstep).grows.trail id)) (List.suffix_refl _) hrun

end Server

/-! ## Sample runs -/

namespace Sample

/-- Session 7 is created, and two requests look it up before either removes it. -/
def contested : List Action :=
  opening ++ [.arrive "owner" (.delete 7), .arrive "owner" (.delete 7), .move 1 .advance,
    .move 2 .advance, .move 2 .advance, .move 1 .advance]

/-- A minute later request 1 creates session 8. -/
def minuteLater : List Action :=
  [.tick 60000000000,
    .arrive "other" (.create { source := { code := some "try: x\nexcept NameError: y" } }),
    .move 1 .advance, .move 1 .acquire, .move 1 .spawn, .move 1 .start,
    .move 1 (.finish 60000000000 {}), .move 1 .advance, .move 1 (.insert 8)]

end Sample

/-- **Every session ends once.** In every run and for every id under which a session has been
created, exactly one of these holds: it is stored; or one request, and no other, has been told that
it has deleted it; or the reaper has taken it out of the map, once. For any other id none does. -/
theorem session_ends_once [Crates] (config : Config) {as : List Action} {s : Server}
    (h : Run.exec Server.step (.new config) as = some s) (id : Uuid) :
    s.app.sessions.sessions.count id + s.deletions id +
        Run.tally Server.step (Server.reaps id) (.new config) as =
      if (s.entry id).isSome then 1 else 0 := by
  have hbalance := Run.exec_balance (fun _ _ _ hs hstep => Server.Keyed.step hs hstep)
    (fun _ _ _ hs hstep => hs.balance hstep id) (Server.Keyed.new config) h
  have hnone : (Server.new config).placed id = 0 := rfl
  have hnever : (Server.new config).created id = 0 := rfl
  rw [hnone, hnever, Nat.add_zero, Nat.zero_add] at hbalance
  exact hbalance

/-- Two requests delete one session; the one that comes second is told that it is not there. -/
theorem session_ends_once_contested :
    ∃ (_ : Crates) (s : Server),
      Run.exec Server.step (.new Sample.config) Sample.contested = some s ∧
      s.deletions 7 = 1 ∧ (s.entry 7).isSome = true ∧
      s.app.sessions.sessions.count 7 + s.deletions 7 +
          Run.tally Server.step (Server.reaps 7) (.new Sample.config) Sample.contested =
        if (s.entry 7).isSome then 1 else 0 := by
  let _ := Sample.crates
  have hrun : (Run.exec Server.step (.new Sample.config) Sample.contested).any
      (fun s => s.deletions 7 = 1 && (s.entry 7).isSome) = true := by decide
  obtain ⟨s, hs, hafter⟩ := (Option.any_eq_true _ _).mp hrun
  rw [Bool.and_eq_true] at hafter
  exact ⟨Sample.crates, s, hs, of_decide_eq_true hafter.1, hafter.2,
    session_ends_once Sample.config hs 7⟩

/-- **A session that has left does not come back.** Once the key of a session has left the map, in
every run from then on it stays away; and every request for the session that has not been looked at
by then, or comes later, is given up by its client, turned away for its body, or told
`session_not_found`. -/
theorem removed_for_good [Crates] {s t : Server} {id : Uuid} (hgone : s.Gone id)
    {as : List Action} (hrun : Run.exec Server.step s as = some t) :
    t.Gone id ∧ ∀ (i : RequestId) (r' : Request), t.requests[i]? = some r' →
      (∀ r, s.requests[i]? = some r → r.handler.InVain id) → r'.handler.InVain id := by
  refine Run.exec_invariant (I := fun t : Server => t.Gone id ∧
    ∀ (i : RequestId) (r' : Request), t.requests[i]? = some r' →
      (∀ r, s.requests[i]? = some r → r.handler.InVain id) → r'.handler.InVain id)
    ?_ ⟨hgone, fun i r hr hvain => hvain r hr⟩ hrun
  intro t a t' ⟨hgone, hvain⟩ hstep
  refine ⟨hgone.step hstep, ?_⟩
  intro i r' hr' hbefore
  exact hgone.inVain_step hstep (fun r hr => hvain i r hr hbefore) hr'

/-- A status read that comes after the two deletes. -/
theorem removed_for_good_late :
    ∃ (_ : Crates) (s t : Server),
      Run.exec Server.step (.new Sample.config) Sample.contested = some s ∧ s.Gone 7 ∧
      Run.exec Server.step s [.arrive "owner" (.status 7), .move 3 .advance] = some t ∧
      t.Gone 7 ∧ ∀ (i : RequestId) (r' : Request), t.requests[i]? = some r' →
        (∀ r, s.requests[i]? = some r → r.handler.InVain 7) → r'.handler.InVain 7 := by
  let _ := Sample.crates
  have hrun : (Run.exec Server.step (.new Sample.config) Sample.contested).any (fun s =>
      (s.entry 7).isSome && !s.app.sessions.sessions.contains 7 &&
        (Run.exec Server.step s [.arrive "owner" (.status 7), .move 3 .advance]).isSome) =
      true := by decide
  obtain ⟨s, hs, hafter⟩ := (Option.any_eq_true _ _).mp hrun
  simp only [Bool.and_eq_true] at hafter
  obtain ⟨⟨hcreated, habsent⟩, hlater⟩ := hafter
  obtain ⟨t, ht⟩ := Option.isSome_iff_exists.mp hlater
  have hgone : s.Gone 7 := ⟨Option.isSome_iff_ne_none.mp hcreated, by simpa using habsent⟩
  exact ⟨Sample.crates, s, t, hs, hgone, ht, removed_for_good hgone ht⟩

/-- **The reaper forgets whoever is idle.** Let the longest time-to-live go by, and then one full
sweep, whatever else happens meanwhile: every session that is still stored has had a new step since,
its first one or the step of a resume. So sessions that their clients have abandoned do not pile
up. -/
theorem reaper_forgets_idle [Crates] {config : Config} {s s₁ s₂ t : Server}
    (h : s.Reachable config) {waiting sweeping : List Action}
    (hwait : Run.exec Server.step s waiting = some s₁)
    (hlate : s.app.now + config.sessions.maxTtl ≤ s₁.app.now)
    (hcollect : s₁.step .collect = some s₂)
    (hsweep : Run.exec Server.step s₂ sweeping = some t) (hdone : t.expired = []) :
    ∀ id ∈ t.app.sessions.sessions, (s.app.trail id).length < (t.app.trail id).length := by
  intro id hid
  have hreach₁ : s₁.Reachable config := by
    obtain ⟨as, has⟩ := h
    exact ⟨as ++ waiting, Run.exec_append.mpr ⟨s, has, hwait⟩⟩
  have hreach : t.Reachable config := by
    obtain ⟨as, has⟩ := hreach₁
    refine ⟨as ++ .collect :: sweeping, Run.exec_append.mpr ⟨s₁, has, ?_⟩⟩
    exact Run.exec_cons.mpr ⟨s₂, hcollect, hsweep⟩
  have hrun₁ : Run.exec Server.step s₁ (.collect :: sweeping) = some t :=
    Run.exec_cons.mpr ⟨s₂, hcollect, hsweep⟩
  have hwaited := Server.trail_of_exec hwait id
  have hswept := Server.trail_of_exec hrun₁ id
  by_contra hnew
  -- no step since: it had its entry and its expiry then, and has them still
  have hlength := Nat.not_lt.mp hnew
  have hsame : t.app.trail id = s.app.trail id :=
    ((hwaited.trans hswept).eq_of_length
      (Nat.le_antisymm (hwaited.trans hswept).length_le hlength)).symm
  have hsame₁ : s₁.app.trail id = s.app.trail id :=
    (hwaited.eq_of_length (Nat.le_antisymm hwaited.length_le
      (Nat.le_trans hswept.length_le hlength))).symm
  have hentry : s.entry id ≠ none := by
    intro hnone
    have hcreated := hreach.keyed.entry id hid
    obtain ⟨e, he⟩ := Option.ne_none_iff_exists'.mp hcreated
    obtain ⟨link, rest, htrail, -⟩ := (hreach.wf.head id).2 e he
    rw [hsame, (h.wf.head id).1 hnone] at htrail
    cases htrail
  obtain ⟨e, he⟩ := Option.ne_none_iff_exists'.mp hentry
  obtain ⟨e₁, he₁, hexpires⟩ := Server.expiry_of_trail hwait hsame₁ he
  have hdue : e₁.expiresAt ≤ s₁.app.now := by
    rw [hexpires]
    exact Nat.le_trans (h.expiry_le he) hlate
  have hkey : id ∈ s₁.app.sessions.sessions := by
    by_contra habsent
    have hgone : s₁.Gone id := ⟨by rw [he₁]; exact Option.some_ne_none e₁, habsent⟩
    have hgone' : t.Gone id :=
      Run.exec_invariant (I := fun r : Server => r.Gone id)
        (fun _ _ _ hs hstep => hs.step hstep) hgone hrun₁
    exact hgone'.absent hid
  exact Nat.not_lt.mpr hdue (Server.sweep_complete hcollect hsweep hdone hid he₁ hkey)

/-- Session 7 has been idle for its minute and is swept; session 8 is new. -/
theorem reaper_forgets_idle_minute :
    ∃ (_ : Crates) (s s₁ s₂ t : Server),
      Run.exec Server.step (.new Sample.config) Sample.opening = some s ∧
      Run.exec Server.step s Sample.minuteLater = some s₁ ∧ s₁.step .collect = some s₂ ∧
      Run.exec Server.step s₂ [.evict] = some t ∧ t.app.sessions.sessions = [8] ∧
      ∀ id ∈ t.app.sessions.sessions, (s.app.trail id).length < (t.app.trail id).length := by
  let _ := Sample.crates
  have hrun : (Run.exec Server.step (.new Sample.config) Sample.opening).any (fun s =>
      (Run.exec Server.step s Sample.minuteLater).any fun s₁ =>
        decide (s.app.now + Sample.config.sessions.maxTtl ≤ s₁.app.now) &&
        (s₁.step .collect).any fun s₂ =>
          (Run.exec Server.step s₂ [.evict]).any fun t =>
            t.expired = [] && t.app.sessions.sessions = [8]) = true := by decide +kernel
  obtain ⟨s, hs, hrun⟩ := (Option.any_eq_true _ _).mp hrun
  obtain ⟨s₁, hs₁, hrun⟩ := (Option.any_eq_true _ _).mp hrun
  obtain ⟨hlate, hrun⟩ := (Bool.and_eq_true _ _).mp hrun
  obtain ⟨s₂, hs₂, hrun⟩ := (Option.any_eq_true _ _).mp hrun
  obtain ⟨t, ht, hafter⟩ := (Option.any_eq_true _ _).mp hrun
  simp only [Bool.and_eq_true, decide_eq_true_eq] at hafter
  have hreachable : s.Reachable Sample.config := ⟨_, hs⟩
  exact ⟨Sample.crates, s, s₁, s₂, t, hs, hs₁, hs₂, ht, hafter.2,
    reaper_forgets_idle hreachable hs₁ (of_decide_eq_true hlate) hs₂ ht hafter.1⟩

end MontyServer
