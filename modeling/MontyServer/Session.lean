import MontyServer.Engine

/-!
# The session store

`session.rs`. An `Arc<Mutex<SessionEntry>>` is a pointer: several handlers can hold it, and it stays
valid after the map has dropped its own copy. The store below therefore keeps two things apart, the
keys of the map (`sessions`) and the entries the pointers lead to (`entries`); a pointer is the id
the entry was created under. Each function is one atomic operation on the map or on one locked
entry.

An entry's tracker is an `Arc` as well, shared with the execution that runs on it: the entry holds
the tracker's current state, and an execution changes it in place.
-/

namespace MontyServer

abbrev Uuid := Nat

/-- Serializable summary of a session's most recent step. -/
inductive StepSnapshot
  | Paused (output : Output) (stats : ExecStats)
  | Completed (result : MontyObject) (output : Output) (stats : ExecStats)
  | Failed (exception : MontyException) (breach : Option Breach) (output : Output)
      (stats : ExecStats)

/-- One session's mutable state, guarded by its `Mutex`. -/
structure SessionEntry where
  principal : String
  ttl : Duration
  createdAt : Instant
  expiresAt : Instant
  tracker : StatsTracker
  progress : Option RunProgress
  terminal : Bool
  snapshot : StepSnapshot

/-- Why a session could not be taken for a resume. -/
inductive AcquireError
  | NotFound
  | Busy
  | Finished
  deriving DecidableEq, Repr

/-- Splits an engine step into the pieces a `SessionEntry` stores. -/
def splitStep : SessionStep → Option RunProgress × Bool × StepSnapshot
  | .Paused progress output stats => (some progress, false, .Paused output stats)
  | .Complete result output stats => (none, true, .Completed result output stats)
  | .Failed exception breach output stats => (none, true, .Failed exception breach output stats)

namespace SessionEntry

/-- The entry `SessionStore::create` builds at `now`. -/
def new (principal : String) (ttl : Duration) (tracker : StatsTracker) (step : SessionStep)
    (now : Instant) : SessionEntry where
  principal := principal
  ttl := ttl
  createdAt := now
  expiresAt := now + ttl
  tracker := tracker
  progress := (splitStep step).1
  terminal := (splitStep step).2.1
  snapshot := (splitStep step).2.2

/-- Takes the progress out for a resume, marking the session busy. The tracker is cloned, which
changes nothing. -/
def acquireForResume (e : SessionEntry) : Except AcquireError (RunProgress × SessionEntry) :=
  if e.terminal then .error .Finished
  -- a paused entry without its progress is busy
  else match e.progress with
    | none => .error .Busy
    | some progress => .ok (progress, { e with progress := none })

/-- Puts an un-stepped progress back, leaving the session resumable again. -/
def restore (e : SessionEntry) (progress : RunProgress) : SessionEntry :=
  { e with progress := some progress }

/-- Records the result of a completed resume step and extends the TTL. -/
def storeStep (e : SessionEntry) (step : SessionStep) (now : Instant) : SessionEntry :=
  { e with
    progress := (splitStep step).1
    terminal := (splitStep step).2.1
    snapshot := (splitStep step).2.2
    expiresAt := now + e.ttl }

end SessionEntry

/-- Process-local registry of live sessions. -/
structure SessionStore where
  /-- The keys of the map. -/
  sessions : List Uuid
  /-- Where the `Arc`s lead. -/
  entries : Uuid → Option SessionEntry
  maxSessions : Nat

namespace SessionStore

def new (maxSessions : Nat) : SessionStore where
  sessions := []
  entries := fun _ => none
  maxSessions := maxSessions

def len (s : SessionStore) : Nat := s.sessions.length

/-- The length check of `create`. -/
def hasRoom (s : SessionStore) : Bool := s.len < s.maxSessions

/-- The insertion of `create`. -/
def insert (s : SessionStore) (id : Uuid) (entry : SessionEntry) : SessionStore :=
  { s with
    sessions := id :: s.sessions
    entries := fun i => if i = id then some entry else s.entries i }

/-- Whether the map holds `id` and its entry belongs to `principal`. -/
def owned (s : SessionStore) (id : Uuid) (principal : String) : Bool :=
  s.sessions.contains id && (s.entries id).any fun e => e.principal = principal

/-- Fetches a session visible to `principal`: the pointer to its entry. -/
def get (s : SessionStore) (id : Uuid) (principal : String) : Option Uuid :=
  if s.owned id principal then some id else none

/-- `self.sessions.remove(id)`, on the map alone. -/
def removeKey (s : SessionStore) (id : Uuid) : SessionStore :=
  { s with sessions := s.sessions.filter (· ≠ id) }

/-- The first pass of `reap_expired`: the ids of the sessions past their expiry at `now`. -/
def expired (s : SessionStore) (now : Instant) : List Uuid :=
  s.sessions.filter fun id => (s.entries id).any fun e => e.expiresAt ≤ now

/-- Writes through the pointer `id`. -/
def setEntry (s : SessionStore) (id : Uuid) (entry : SessionEntry) : SessionStore :=
  { s with entries := fun i => if i = id then some entry else s.entries i }

end SessionStore

end MontyServer
