import MontyServer.Departures
import MontyServer.Lib.Scan

/-!
# The reaper's pass, key by key

`Server.step` takes the first pass of `reap_expired` as one step. In the code it is not one: the
clock is read once, and then the iterator goes through the map, shard by shard, and locks every
entry on its own; between two visits sessions are resumed, deleted and created. So what a pass
collects is in general not what has expired at any one moment. It lies between what had when the
clock was read and what still has when the pass is over (`pass_between`), which is enough for a
round of the reaper to take the sessions that nobody has resumed, and no others
(`round_takes_expired`). The server with a pass in one step is the case that nothing comes between
(`Server.exec_fine`).
-/

namespace MontyServer

/-- How the map spreads its keys over its shards. -/
structure Sharding where
  count : Nat
  shard : Uuid → Nat
  shard_lt : ∀ id, shard id < count

/-- A pass on its way: the clock as it has been read, and where the iterator is. -/
structure Pass where
  read : Instant
  scan : Scan Uuid

/-- The server, and the pass of the reaper if there is one. -/
structure Fine where
  server : Server
  pass : Option Pass

def Fine.new (config : Config) : Fine := ⟨.new config, none⟩

/-- A step of anything but the pass, or a step of the pass. -/
inductive Fine.Action
  | server (a : MontyServer.Action)
  /-- `let now = Instant::now()`, and `iter()` -/
  | read
  /-- The iterator goes on, and the filter locks the entry it comes to. -/
  | visit
  /-- `collect()` -/
  | finish
  deriving Inhabited

/-- The test of the filter, for the time that has been read. -/
def SessionStore.due (s : SessionStore) (read : Instant) (id : Uuid) : Bool :=
  (s.entries id).any fun e => e.expiresAt ≤ read

/-- The keys of the map. -/
def Server.keys (s : Server) : List Uuid := s.app.sessions.sessions

/-- The keys of the sessions that have expired at `read`. -/
def Server.expiredAt (s : Server) (read : Instant) : List Uuid := s.app.sessions.expired read

namespace Fine

/-- What has the lock of a shard keeps others from inserting into it and removing from it. -/
def Admits (sharding : Sharding) (f : Fine) (server : Server) : Prop :=
  ∀ pass ∈ f.pass, pass.scan.Keeps sharding.shard f.server.keys server.keys

instance (sharding : Sharding) (f : Fine) (server : Server) :
    Decidable (f.Admits sharding server) :=
  inferInstanceAs (Decidable (∀ pass ∈ f.pass, _))

section Step

variable [Crates]

/-- One step of the server, with a pass of many steps. -/
def step (sharding : Sharding) (f : Fine) : Action → Option Fine
  | .server .collect => none
  | .server a => do
    let server ← f.server.step a
    if f.Admits sharding server then some { f with server } else none
  | .read =>
    if f.pass.isNone ∧ f.server.expired = [] then
      some { f with pass := some ⟨f.server.app.now, .start sharding.count⟩ }
    else none
  | .visit => do
    let pass ← f.pass
    let scan ← pass.scan.next sharding.shard f.server.keys (f.server.app.sessions.due pass.read)
    some { f with pass := some { pass with scan } }
  | .finish => do
    let pass ← f.pass
    if pass.scan.Over then some ⟨{ f.server with expired := pass.scan.found }, none⟩ else none

/-- The steps of the machine, one by one. -/
inductive Trans (sharding : Sharding) (f : Fine) : Action → Fine → Prop
  | server {a : MontyServer.Action} {server : Server} : a ≠ .collect →
    f.server.step a = some server → f.Admits sharding server →
    Trans sharding f (.server a) { f with server }
  | read : f.pass = none → f.server.expired = [] →
    Trans sharding f .read { f with pass := some ⟨f.server.app.now, .start sharding.count⟩ }
  | visit {pass : Pass} {scan : Scan Uuid} : f.pass = some pass →
    pass.scan.next sharding.shard f.server.keys (f.server.app.sessions.due pass.read) = some scan →
    Trans sharding f .visit { f with pass := some { pass with scan } }
  | finish {pass : Pass} : f.pass = some pass → pass.scan.Over →
    Trans sharding f .finish ⟨{ f.server with expired := pass.scan.found }, none⟩

variable {sharding : Sharding} {f f' : Fine} {a : Action}

theorem step_server {a : MontyServer.Action} (ha : a ≠ .collect) :
    step sharding f (.server a) = (f.server.step a).bind fun server =>
      if f.Admits sharding server then some { f with server } else none := by
  cases a with
  | collect => exact (ha rfl).elim
  | _ => rfl

theorem step_cases (h : step sharding f a = some f') : f.Trans sharding a f' := by
  cases a with
  | server a =>
    by_cases ha : a = .collect
    · subst ha
      cases h
    · rw [step_server ha] at h
      obtain ⟨server, hstep, h⟩ := Option.bind_eq_some_iff.mp h
      split at h
      · next hadmits =>
        cases h
        exact .server ha hstep hadmits
      · cases h
  | read =>
    obtain ⟨⟨hpass, hexpired⟩, h⟩ := Option.ite_none_right_eq_some.mp h
    cases h
    exact .read (Option.isNone_iff_eq_none.mp hpass) hexpired
  | visit =>
    obtain ⟨pass, hpass, h⟩ := Option.bind_eq_some_iff.mp h
    obtain ⟨scan, hscan, h⟩ := Option.bind_eq_some_iff.mp h
    cases h
    exact .visit hpass hscan
  | finish =>
    obtain ⟨pass, hpass, h⟩ := Option.bind_eq_some_iff.mp h
    split at h
    · next hover =>
      cases h
      exact .finish hpass hover
    · cases h

end Step

end Fine

/-! ## What a step does to what has expired -/

namespace Server

variable {s s' s₀ : Server} {a : Action} {id : Uuid} {read : Instant}

theorem mem_expiredAt : id ∈ s.expiredAt read ↔
    id ∈ s.keys ∧ s.app.sessions.due read id = true :=
  List.mem_filter

theorem due_iff : s.app.sessions.due read id = true ↔
    ∃ e, s.entry id = some e ∧ e.expiresAt ≤ read := by
  rw [SessionStore.due, Option.any_eq_true]
  simp only [decide_eq_true_eq]
  rfl

variable [Crates]

/-- An expiry never moves back. -/
theorem WithinTtl.expiry_le (within : s.WithinTtl) (h : s.Trans a s') {e e' : SessionEntry}
    (he : s.entry id = some e) (he' : s'.entry id = some e') : e.expiresAt ≤ e'.expiresAt := by
  rcases h.expiry he' with ⟨e₀, he₀, hsame, -⟩ | ⟨hnew, -⟩
  · cases he.symm.trans he₀
    exact Nat.le_of_eq hsame.symm
  · obtain ⟨e₁, he₁, -, httl⟩ := h.grows.entry id e he
    cases he'.symm.trans he₁
    rw [hnew, httl]
    exact within id e he

/-- No session comes to be expired, for a time that has been read, by what happens later. -/
theorem WithinTtl.expiredAt_lost (within : s.WithinTtl) (h : s.Trans a s')
    (hcreated : s.entry id ≠ none) (hid : id ∈ s'.expiredAt read) : id ∈ s.expiredAt read := by
  obtain ⟨hkey, hdue⟩ := mem_expiredAt.mp hid
  obtain ⟨e', he', hexpired⟩ := due_iff.mp hdue
  obtain ⟨e, he⟩ := Option.ne_none_iff_exists'.mp hcreated
  refine mem_expiredAt.mpr ⟨h.key_old he hkey, due_iff.mpr ⟨e, he, ?_⟩⟩
  exact Nat.le_trans (within.expiry_le h he he') hexpired

/-- What has happened to the sessions since the clock was read in state `s₀`. -/
structure Since (s₀ s : Server) : Prop where
  past : s₀.app.now ≤ s.app.now
  within : s.WithinTtl
  kept : ∀ id, s₀.entry id ≠ none → s.entry id ≠ none
  lost : ∀ id, s₀.entry id ≠ none → id ∈ s.expiredAt s₀.app.now → id ∈ s₀.expiredAt s₀.app.now
  born : ∀ id e, s₀.entry id = none → s.entry id = some e → s₀.app.now + e.ttl ≤ e.expiresAt
  told : ∀ id, s₀.deletions id ≤ s.deletions id

omit [Crates] in
theorem Since.refl (within : s.WithinTtl) : s.Since s where
  past := Nat.le_refl _
  within := within
  kept _ h := h
  lost _ _ h := h
  born _ _ hnone he := nomatch hnone.symm.trans he
  told _ := Nat.le_refl _

/-- **Step lemma**: whatever the others do. -/
theorem Since.step (since : s₀.Since s) (h : s.step a = some s') : s₀.Since s' := by
  have htrans := step_cases h
  have hnow : s.app.now ≤ s'.app.now := htrans.grows.now
  refine ⟨since.past.trans hnow, since.within.step h, ?_, ?_, ?_, ?_⟩
  · intro id hcreated
    obtain ⟨e, he⟩ := Option.ne_none_iff_exists'.mp (since.kept id hcreated)
    obtain ⟨e', he', -⟩ := htrans.grows.entry id e he
    rw [entry, he']
    exact Option.some_ne_none e'
  · intro id hcreated hid
    exact since.lost id hcreated (since.within.expiredAt_lost htrans (since.kept id hcreated) hid)
  · intro id e' hnone he'
    rcases htrans.expiry he' with ⟨e, he, hsame, httl⟩ | ⟨hnew, -⟩
    · rw [hsame, httl]
      exact since.born id e hnone he
    · rw [hnew]
      exact Nat.add_le_add_right since.past _
  · intro id
    apply (since.told id).trans
    cases passage h with
    | stay _ _ hsame _ => exact Nat.le_of_eq (hsame id).symm
    | enter _ _ _ _ hsame _ => exact Nat.le_of_eq (hsame id).symm
    | delete _ _ _ hcount _ =>
      rw [hcount id]
      exact Nat.le_add_right _ _
    | reap _ _ _ _ _ hsame _ => exact Nat.le_of_eq (hsame id).symm

end Server

/-! ## A round of the reaper -/

namespace Fine

variable {sharding : Sharding} {s₀ : Server} {f f' : Fine} {a : Action}

/-- What it takes to be collected in a round that has begun in `s₀`: to have expired then, or, of a
session that was not there yet, to have no time to live. -/
def Taken (s₀ s : Server) (id : Uuid) : Prop :=
  (s₀.entry id ≠ none → id ∈ s₀.expiredAt s₀.app.now) ∧
    (s₀.entry id = none → ∃ e, s.entry id = some e ∧ e.ttl = 0)

/-- Of the sessions there were in `s₀`, those that still count as expired. -/
def Stays (s₀ s : Server) (id : Uuid) : Prop :=
  s₀.entry id ≠ none ∧ id ∈ s.expiredAt s₀.app.now

/-- Where a round of the reaper stands that has begun in `s₀`. -/
structure Round (sharding : Sharding) (s₀ : Server) (f : Fine) : Prop where
  since : s₀.Since f.server
  passing : ∀ pass ∈ f.pass, pass.read = s₀.app.now ∧ f.server.expired = [] ∧
    pass.scan.Held sharding.shard f.server.keys ∧ pass.scan.Sound (Taken s₀ f.server) ∧
    pass.scan.Complete sharding.shard (Stays s₀ f.server)
  collected : ∀ id ∈ f.server.expired, Taken s₀ f.server id
  missed : f.pass = none → ∀ id, Stays s₀ f.server id → id ∈ f.server.expired
  left : ∀ id ∈ s₀.keys, s₀.entry id ≠ none → id ∈ f.server.keys ∨
    s₀.deletions id < f.server.deletions id ∨ id ∈ s₀.expiredAt s₀.app.now

variable [Crates]

theorem Round.read (within : f.server.WithinTtl) (h : step sharding f .read = some f') :
    Round sharding f.server f' := by
  cases step_cases h with
  | read _ hexpired =>
    refine ⟨.refl within, ?_, ?_, nofun, fun id hid _ => .inl hid⟩
    · intro pass hpass
      cases hpass
      exact ⟨rfl, hexpired, Scan.Held.start _, Scan.Sound.start _,
        Scan.Complete.start sharding.shard_lt⟩
    · intro id hid
      rw [show ({ f with pass := _ } : Fine).server.expired = [] from hexpired] at hid
      cases hid

theorem Taken.step {s s' : Server} {a : MontyServer.Action} {id : Uuid} (taken : Taken s₀ s id)
    (h : s.step a = some s') : Taken s₀ s' id := by
  refine ⟨taken.1, ?_⟩
  intro hnone
  obtain ⟨e, he, httl⟩ := taken.2 hnone
  obtain ⟨e', he', -, hsame⟩ := (Server.step_cases h).grows.entry id e he
  exact ⟨e', he', hsame.trans httl⟩

theorem Stays.of_step {s s' : Server} {a : MontyServer.Action} {id : Uuid} (since : s₀.Since s)
    (h : s.step a = some s') (stays : Stays s₀ s' id) : Stays s₀ s id :=
  ⟨stays.1, since.within.expiredAt_lost (Server.step_cases h) (since.kept id stays.1) stays.2⟩

omit [Crates] in
/-- What the filter picks has expired since before the round, or has never had time to live. -/
theorem Taken.of_due {s : Server} {id : Uuid} (since : s₀.Since s) (hkey : id ∈ s.keys)
    (hdue : s.app.sessions.due s₀.app.now id = true) : Taken s₀ s id := by
  constructor
  · intro hcreated
    exact since.lost id hcreated (Server.mem_expiredAt.mpr ⟨hkey, hdue⟩)
  · intro hnone
    obtain ⟨e, he, hexpired⟩ := Server.due_iff.mp hdue
    refine ⟨e, he, ?_⟩
    have hborn := (since.born id e hnone he).trans hexpired
    exact Nat.le_zero.mp (Nat.le_of_add_le_add_left hborn)

/-- Nothing is collected but at the end of a pass. -/
theorem mem_expired_of_step {s s' : Server} {a : MontyServer.Action} (ha : a ≠ .collect)
    (h : s.step a = some s') {id : Uuid} (hid : id ∈ s'.expired) : id ∈ s.expired := by
  rcases (Server.step_cases h).collected hid with hid | ⟨hcollect, -⟩
  · exact hid
  · exact (ha hcollect).elim

/-- **Step lemma**: whatever the server does in the round, the pass waiting or not. -/
theorem Round.server (round : Round sharding s₀ f) {a : MontyServer.Action} {server : Server}
    (ha : a ≠ .collect) (hstep : f.server.step a = some server)
    (hadmits : f.Admits sharding server) : Round sharding s₀ { f with server } where
  since := round.since.step hstep
  passing pass hpass := by
    obtain ⟨hread, hexpired, held, sound, complete⟩ := round.passing pass hpass
    refine ⟨hread, ?_, held.change (hadmits pass hpass), ?_, ?_⟩
    · apply List.eq_nil_iff_forall_not_mem.mpr
      intro id hid
      have hbefore := mem_expired_of_step ha hstep hid
      rw [hexpired] at hbefore
      cases hbefore
    · exact sound.change fun id taken => taken.step hstep
    · exact complete.change fun id stays => stays.of_step round.since hstep
  collected id hid := (round.collected id (mem_expired_of_step ha hstep hid)).step hstep
  missed hpass id stays := by
    have hbefore := round.missed hpass id (stays.of_step round.since hstep)
    cases Server.step_cases hstep with
    | collect => exact (ha rfl).elim
    | @evict id' rest hcons =>
      rw [hcons] at hbefore
      rcases List.mem_cons.mp hbefore with rfl | hrest
      · -- its key has just been removed
        have hkey := (Server.mem_expiredAt.mp stays.2).1
        exact (of_decide_eq_true (List.mem_filter.mp hkey).2 rfl).elim
      · exact hrest
    | _ => exact hbefore
  left id hid hcreated := by
    rcases round.left id hid hcreated with hkey | htold | hexpired
    · cases Server.passage hstep with
      | stay _ hkeys _ _ =>
        left
        show id ∈ server.app.sessions.sessions
        rw [hkeys]
        exact hkey
      | enter _ _ _ hkeys _ _ =>
        left
        show id ∈ server.app.sessions.sessions
        rw [hkeys]
        exact List.mem_cons_of_mem _ hkey
      | delete id' _ hkeys hcount _ =>
        by_cases hsame : id = id'
        · subst hsame
          right; left
          rw [hcount id, if_pos ⟨rfl, hkey⟩]
          exact Nat.lt_succ_of_le (round.since.told id)
        · left
          show id ∈ server.app.sessions.sessions
          rw [hkeys]
          exact List.mem_filter.mpr ⟨hkey, decide_eq_true hsame⟩
      | reap id' rest _ hcons hkeys _ _ =>
        by_cases hsame : id = id'
        · subst hsame
          have hcollected : id ∈ f.server.expired := hcons ▸ List.mem_cons_self
          exact .inr (.inr ((round.collected id hcollected).1 hcreated))
        · left
          show id ∈ server.app.sessions.sessions
          rw [hkeys]
          exact List.mem_filter.mpr ⟨hkey, decide_eq_true hsame⟩
    · exact .inr (.inl (Nat.lt_of_lt_of_le htold
        ((Server.Since.refl round.since.within).step hstep |>.told id)))
    · exact .inr (.inr hexpired)

/-- **Step lemma**: a round goes on. -/
theorem Round.step (round : Round sharding s₀ f) (ha : a ≠ .read)
    (h : step sharding f a = some f') : Round sharding s₀ f' := by
  cases step_cases h with
  | server hserver hmove hadmits => exact round.server hserver hmove hadmits
  | read => exact (ha rfl).elim
  | @visit pass scan hpass hnext =>
    obtain ⟨hread, hexpired, held, sound, complete⟩ := round.passing pass hpass
    refine ⟨round.since, ?_, round.collected, nofun, round.left⟩
    intro pass' hpass'
    cases hpass'
    refine ⟨hread, hexpired, held.next hnext, sound.next held ?_ hnext, complete.next ?_ hnext⟩
    · intro id hkey hdue
      rw [hread] at hdue
      exact Taken.of_due round.since hkey hdue
    · intro id stays
      rw [hread]
      exact Server.mem_expiredAt.mp stays.2
  | @finish pass hpass hover =>
    obtain ⟨hread, hexpired, held, sound, complete⟩ := round.passing pass hpass
    refine ⟨⟨round.since.past, round.since.within, round.since.kept, round.since.lost,
      round.since.born, round.since.told⟩, nofun, sound, ?_, round.left⟩
    intro _ id stays
    exact complete.over hover stays

/-- **Run lemma**: a round, from when the clock is read. -/
theorem round_of_exec (within : f.server.WithinTtl) {as : List Action} (hno : .read ∉ as)
    {g : Fine} (h : Run.exec (step sharding) f (.read :: as) = some g) :
    Round sharding f.server g := by
  obtain ⟨f', hread, hrest⟩ := Run.exec_cons.mp h
  apply Run.exec_invariant_of_forall (fun _ _ _ round ha hstep => Round.step round ha hstep)
    (Round.read within hread) _ hrest
  rintro _ ha rfl
  exact hno ha

/-- **Run lemma**: no session expires later than it may and every key leads to a session, whether
the pass goes on or not. -/
theorem keyed_of_exec {config : Config} {as : List Action}
    (h : Run.exec (step sharding) (.new config) as = some f) :
    f.server.WithinTtl ∧ f.server.Keyed := by
  apply Run.exec_invariant (I := fun f : Fine => f.server.WithinTtl ∧ f.server.Keyed) _ _ h
  · intro f a f' ⟨within, keyed⟩ hstep
    cases step_cases hstep with
    | server _ hmove _ => exact ⟨within.step hmove, keyed.step hmove⟩
    | finish => exact ⟨within, keyed.once, keyed.entry⟩
    | _ => exact ⟨within, keyed⟩
  · refine ⟨?_, .new config⟩
    intro id e he
    cases he

end Fine

/-! ## The pass in one step -/

/-- All keys in one shard. -/
def Sharding.single : Sharding where
  count := 1
  shard _ := 0
  shard_lt _ := Nat.one_pos

namespace Server

variable [Crates]

/-- Without interruption the pass goes through what is left of its shard. -/
theorem exec_visits (s : Server) (sharding : Sharding) (read : Instant) (scan : Scan Uuid) :
    Run.exec (Fine.step sharding) ⟨s, some ⟨read, scan⟩⟩
        (List.replicate scan.keys.length .visit) =
      some ⟨s, some ⟨read, { scan with
        keys := []
        found := scan.found ++ scan.keys.filter (s.app.sessions.due read) }⟩⟩ := by
  obtain ⟨shards, locked, keys, found⟩ := scan
  induction keys generalizing found with
  | nil => simp
  | cons key keys ih =>
    apply Run.exec_cons.mpr
    refine ⟨_, rfl, ?_⟩
    rw [ih, List.filter_cons]
    dsimp only
    split
    · rw [List.append_assoc, List.singleton_append]
    · rfl

/-- **The first pass in one step** is a pass that nothing comes between. -/
theorem exec_collect {s s' : Server} (h : s.step .collect = some s') :
    Run.exec (Fine.step .single) ⟨s, none⟩
        (.read :: .visit :: (List.replicate s.keys.length .visit ++ [.finish])) =
      some ⟨s', none⟩ := by
  cases step_cases h with
  | collect hnil =>
    have hall : s.keys.filter (fun id => decide (Sharding.single.shard id = 0)) = s.keys :=
      List.filter_eq_self.mpr fun _ _ => rfl
    apply Run.exec_cons.mpr
    refine ⟨⟨s, some ⟨s.app.now, .start 1⟩⟩, ?_, ?_⟩
    · exact if_pos ⟨rfl, hnil⟩
    apply Run.exec_cons.mpr
    refine ⟨⟨s, some ⟨s.app.now, [], some 0, s.keys, []⟩⟩, ?_, ?_⟩
    · show some (⟨s, some ⟨s.app.now, [], some 0, s.keys.filter _, []⟩⟩ : Fine) = _
      rw [hall]
    exact Run.exec_append.mpr ⟨_, exec_visits s .single s.app.now ⟨[], some 0, s.keys, []⟩, rfl⟩

/-- **Every run of the server is one of the finer machine.** -/
theorem exec_fine {config : Config} {as : List Action} {s : Server}
    (h : Run.exec step (.new config) as = some s) :
    ∃ bs, Run.exec (Fine.step .single) (.new config) bs = some ⟨s, none⟩ := by
  apply Run.exec_of_steps (f := fun s => (⟨s, none⟩ : Fine)) _ h
  intro s a s' hstep
  by_cases ha : a = .collect
  · subst ha
    exact ⟨_, exec_collect hstep⟩
  · refine ⟨[.server a], Run.exec_cons.mpr ⟨⟨s', none⟩, ?_, rfl⟩⟩
    have hadmits : (⟨s, none⟩ : Fine).Admits .single s' := nofun
    rw [Fine.step_server ha, hstep, Option.bind_some, if_pos hadmits]

end Server

/-! ## Sample runs -/

namespace Sample

/-- Even keys and odd keys. -/
def sharding : Sharding where
  count := 2
  shard id := id % 2
  shard_lt id := Nat.mod_lt id (by decide)

/-- Two sessions, 7 and 8, a minute old. -/
def aged : List Action :=
  opening ++
    [.arrive "other" (.create { source := { code := some "try: x\nexcept NameError: y" } }),
      .move 1 .advance] ++
    executed 1 ++ [.move 1 .advance, .move 1 (.insert 8), .tick 60000000000]

/-- Request `i`, which has taken the progress of a session a minute old, stores its step. -/
def stepped (i : RequestId) : List Action :=
  [.move i .acquire, .move i .spawn, .move i .start, .move i (.finish 60000000000 {}),
    .move i .advance]

/-- Both are resumed. -/
def resumedBoth : List Action :=
  taking 2 ++ stepped 2 ++
    [.arrive "other" (.resume 8 undefined), .move 3 .advance, .move 3 .advance] ++ stepped 3

/-- The pass comes by session 8; then both are resumed; then the pass comes by session 7. -/
def crossed : List Fine.Action :=
  [.visit, .visit] ++ resumedBoth.map .server ++ [.visit, .visit]

end Sample

/-- **A round of the reaper takes the sessions that nobody has resumed, and no others.** When it is
over, of the sessions that were in the map when the clock was read, those that are left have not
expired by then, having been resumed if they had; and those that are not left had, unless a request
has been told that it has deleted them. -/
theorem round_takes_expired [Crates] {sharding : Sharding} {config : Config}
    {before round : List Fine.Action} {f g : Fine}
    (hbefore : Run.exec (Fine.step sharding) (.new config) before = some f)
    (hround : Run.exec (Fine.step sharding) f (.read :: round) = some g)
    (hone : .read ∉ round) (hpass : g.pass = none) (hdone : g.server.expired = []) {id : Uuid}
    (hid : id ∈ f.server.keys) :
    (id ∈ g.server.keys →
      ∃ e, g.server.entry id = some e ∧ f.server.app.now < e.expiresAt) ∧
    (id ∉ g.server.keys → id ∈ f.server.expiredAt f.server.app.now ∨
      f.server.deletions id < g.server.deletions id) := by
  obtain ⟨within, keyed⟩ := Fine.keyed_of_exec hbefore
  have round := Fine.round_of_exec within hone hround
  have hcreated := keyed.entry id hid
  constructor
  · intro hkey
    obtain ⟨e, he⟩ := Option.ne_none_iff_exists'.mp (round.since.kept id hcreated)
    refine ⟨e, he, ?_⟩
    apply Nat.lt_of_not_le
    intro hexpired
    have hstays : id ∈ g.server.expiredAt f.server.app.now :=
      Server.mem_expiredAt.mpr ⟨hkey, Server.due_iff.mpr ⟨e, he, hexpired⟩⟩
    have hleft := round.missed hpass id ⟨hcreated, hstays⟩
    rw [hdone] at hleft
    cases hleft
  · intro hgone
    rcases round.left id hid hcreated with hkey | htold | hexpired
    · exact (hgone hkey).elim
    · exact .inr htold
    · exact .inl hexpired

/-- Session 8 was resumed after the pass had come by, and is taken all the same; session 7 was
resumed before, and stays. -/
theorem round_takes_expired_crossed :
    ∃ (_ : Crates) (f g : Fine),
      Run.exec (Fine.step Sample.sharding) (.new Sample.config) (Sample.aged.map .server) =
        some f ∧
      Run.exec (Fine.step Sample.sharding) f
        (.read :: (Sample.crossed ++ [.finish, .server .evict])) = some g ∧
      g.server.keys = [7] ∧
      (∃ e, g.server.entry 7 = some e ∧ f.server.app.now < e.expiresAt) ∧
      (8 ∈ f.server.expiredAt f.server.app.now ∨ f.server.deletions 8 < g.server.deletions 8) := by
  let _ := Sample.crates
  have hrun : (Run.exec (Fine.step Sample.sharding) (.new Sample.config)
      (Sample.aged.map .server)).any (fun f =>
        (Run.exec (Fine.step Sample.sharding) f
          (.read :: (Sample.crossed ++ [.finish, .server .evict]))).any
          fun g => g.pass.isNone ∧ g.server.expired = [] ∧ f.server.keys = [8, 7] ∧
            g.server.keys = [7]) = true := by
    decide +kernel
  obtain ⟨f, hf, hrun⟩ := (Option.any_eq_true _ _).mp hrun
  obtain ⟨g, hg, hafter⟩ := (Option.any_eq_true _ _).mp hrun
  obtain ⟨hpass, hdone, hbefore, hkeys⟩ := of_decide_eq_true hafter
  have hno : .read ∉ Sample.crossed ++ [.finish, .server .evict] := by simp [Sample.crossed]
  have hpass := Option.isNone_iff_eq_none.mp hpass
  have hstays : 7 ∈ f.server.keys := by simp [hbefore]
  have hleaves : 8 ∈ f.server.keys := by simp [hbefore]
  exact ⟨Sample.crates, f, g, hf, hg, hkeys,
    (round_takes_expired hf hg hno hpass hdone hstays).1 (by simp [hkeys]),
    (round_takes_expired hf hg hno hpass hdone hleaves).2 (by simp [hkeys])⟩

end MontyServer
