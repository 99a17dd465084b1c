import MontyServer.Startup
import MontyServer.WellFormed
import MontyServer.Lib.Drain

/-!
# Requests come to an end

A handler never goes back: every move takes it further, so a request makes a bounded number of moves
(`moves_le_budget`). And it is never stuck: from every state the scheduler alone, with time passing
and no client giving up, can take every request to its answer (`every_request_answered`). A request
that waits for a permit waits for a task that can go on, since the permits it does not find are with
other requests (`Server.Reachable.conserved`).
-/

namespace MontyServer

/-! ## How far a request has got -/

namespace Spawn

variable {W R : Type}

/-- How far a call has got. A task goes on without its handler, which counts as further. -/
def rank : Spawn W R → Nat
  | .queued _ => 1
  | .admitted _ => 2
  | .spawned _ true => 3
  | .spawned _ false => 4
  | .running _ _ true => 4
  | .running _ _ false => 5
  | .finished _ => 5
  | .dropped => 6

theorem rank_le (s : Spawn W R) : s.rank ≤ 6 := by
  fun_cases rank s <;> omega

/-- Whether the handler is still there. -/
def Waits : Spawn W R → Prop
  | .queued _ | .admitted _ | .finished _ => True
  | .spawned _ awaited | .running _ _ awaited => awaited = true
  | .dropped => False

theorem rank_settled (awaited : Bool) (result : Option R) :
    5 ≤ (settled awaited result : Spawn W R).rank := by
  cases awaited
  · exact Nat.le_succ 5
  · exact Nat.le_refl 5

theorem rank_running_lt (work : W) (since : Instant) (awaited : Bool) (result : Option R) :
    (running work since awaited : Spawn W R).rank < (settled awaited result : Spawn W R).rank := by
  cases awaited
  · exact Nat.lt_succ_self 5
  · exact Nat.lt_succ_self 4

theorem move_rank {s s' : Spawn W R} {m : Move} {free free' : Nat} {now : Instant}
    (h : s.move free now m = some (free', s')) : s.rank < s'.rank := by
  unfold move at h
  split at h
  · split at h <;> cases h
    exact Nat.lt_succ_self 1
  · cases h
    exact Nat.lt_succ_self 2
  · next work awaited =>
    cases h
    cases awaited
    · exact Nat.lt_succ_self 4
    · exact Nat.lt_succ_self 3
  · next work awaited =>
    cases h
    cases awaited
    · exact Nat.lt_of_lt_of_le (Nat.lt_succ_self 4) (rank_settled false none)
    · exact Nat.lt_of_lt_of_le (Nat.lt_add_of_pos_right Nat.two_pos) (rank_settled true none)
  · cases h
    simp [rank]
  · cases h
    simp [rank]
  · cases h
    exact Nat.lt_succ_self 3
  · cases h
    exact Nat.lt_succ_self 4
  · cases h
    exact Nat.lt_succ_self 5
  · cases h

theorem finish_rank {s s' : Spawn W R} {free free' : Nat} {now entered : Instant}
    {run : W → Option R × Instant} (h : s.finish free now entered run = some (free', s')) :
    s.rank < s'.rank := by
  obtain ⟨work, since, awaited, result, ended, rfl, -, -, -, rfl⟩ := finish_cases h
  exact rank_running_lt ..

end Spawn

def Create.rank : Create → Nat
  | .received => 0
  | .executing _ _ spawn => spawn.rank
  | .checked .. => 6
  | .inserted _ => 7
  | .fetched _ => 8
  | .done _ | .dropped => 9

def Resume.rank : Resume → Nat
  | .received => 0
  | .found _ => 1
  | .executing _ spawn => 1 + spawn.rank
  | .stored => 7
  | .done _ | .rejected | .dropped => 8

def Status.rank : Status → Nat
  | .received => 0
  | .found => 1
  | .done _ | .dropped => 2

def Delete.rank : Delete → Nat
  | .received => 0
  | .owned => 1
  | .done _ | .dropped => 2

def Stateless.rank {W R : Type} : Stateless W R → Nat
  | .received => 0
  | .executing spawn => spawn.rank
  | .done _ | .dropped => 6

namespace Handler

/-- How many moves a handler has made at least. -/
def rank : Handler → Nat
  | .create _ phase => phase.rank
  | .resume _ _ phase => phase.rank
  | .status _ phase => phase.rank
  | .delete _ phase => phase.rank
  | .run _ phase => phase.rank
  | .compile _ phase => phase.rank

/-- How many moves a handler makes at most. -/
def budget : Handler → Nat
  | .create .. => 9
  | .resume .. => 8
  | .status .. | .delete .. => 2
  | .run .. | .compile .. => 6

theorem rank_le_budget (handler : Handler) : handler.rank ≤ handler.budget := by
  cases handler with
  | create request phase =>
    cases phase with
    | executing ttl limits spawn => exact Nat.le_trans spawn.rank_le (Nat.le_add_right 6 3)
    | _ => simp [rank, budget, Create.rank]
  | resume id body phase =>
    cases phase with
    | executing input spawn =>
      have := spawn.rank_le
      show 1 + spawn.rank ≤ 8
      omega
    | _ => simp [rank, budget, Resume.rank]
  | status id phase => cases phase <;> simp [rank, budget, Status.rank]
  | delete id phase => cases phase <;> simp [rank, budget, Delete.rank]
  | run fields phase =>
    cases phase with
    | executing spawn => exact spawn.rank_le
    | _ => simp [rank, budget, Stateless.rank]
  | compile request phase =>
    cases phase with
    | executing spawn => exact spawn.rank_le
    | _ => simp [rank, budget, Stateless.rank]

end Handler

variable [Crates]

theorem Create.step_rank {app app' : AppState} {i : RequestId} {caller : String}
    {request : CreateSessionRequest} {m : Move} {phase phase' : Create}
    (h : phase.step app i caller request m = some (app', phase')) : phase.rank < phase'.rank := by
  unfold Create.step at h
  split at h
  · -- `advance`
    unfold Create.advance at h
    split at h
    · cases h
      split <;> simp [rank, Spawn.rank]
    · cases h
      simp [rank, Spawn.rank]
    · cases h
      simp [rank, Spawn.rank]
    · cases h
      split <;> simp [rank, Spawn.rank]
    · cases h
      split <;> simp [rank]
    · obtain ⟨e, -, h⟩ := Option.bind_eq_some_iff.mp h
      cases h
      exact Nat.lt_succ_self 8
    · cases h
  · -- `insert`
    unfold Create.insert at h
    split at h
    · split at h <;> cases h
      exact Nat.lt_succ_self 6
    · cases h
  · cases h
    exact Nat.zero_lt_succ 8
  · obtain ⟨⟨free, spawn'⟩, hs, h⟩ := Option.bind_eq_some_iff.mp h
    cases h
    exact Spawn.finish_rank hs
  · obtain ⟨⟨free, spawn'⟩, hs, h⟩ := Option.bind_eq_some_iff.mp h
    cases h
    exact Spawn.move_rank hs
  · cases h

theorem Resume.step_rank {app app' : AppState} {i : RequestId} {caller : String} {id : Uuid}
    {body : Value} {m : Move} {phase phase' : Resume}
    (h : phase.step app i caller id body m = some (app', phase')) : phase.rank < phase'.rank := by
  unfold Resume.step at h
  split at h
  · -- `advance`
    unfold Resume.advance at h
    split at h
    · cases h
      grind [rank]
    · obtain ⟨e, -, h⟩ := Option.bind_eq_some_iff.mp h
      split at h <;> cases h <;> simp [rank, Spawn.rank]
    · cases h
      simp [rank, Spawn.rank]
    · obtain ⟨e, -, h⟩ := Option.bind_eq_some_iff.mp h
      cases h
      exact Nat.lt_succ_self 6
    · obtain ⟨e, -, h⟩ := Option.bind_eq_some_iff.mp h
      cases h
      simp [rank, Spawn.rank]
    · obtain ⟨e, -, h⟩ := Option.bind_eq_some_iff.mp h
      cases h
      exact Nat.lt_succ_self 7
    · cases h
  · cases h
    exact Nat.zero_lt_succ 7
  · -- `finish`
    unfold Resume.finish at h
    obtain ⟨e, -, h⟩ := Option.bind_eq_some_iff.mp h
    dsimp only at h
    split at h <;> cases h
    exact Nat.add_lt_add_left (Spawn.rank_running_lt ..) 1
  · obtain ⟨⟨free, spawn'⟩, hs, h⟩ := Option.bind_eq_some_iff.mp h
    cases h
    exact Nat.add_lt_add_left (Spawn.move_rank hs) 1
  · cases h

omit [Crates] in
theorem Stateless.step_rank {W R : Type} {app app' : AppState} {work : ApiResult W}
    {run : Instant → Lag → W → Option (ApiResult R) × Instant} {m : Move}
    {phase phase' : Stateless W R} (h : Stateless.step app work run m phase = some (app', phase')) :
    phase.rank < phase'.rank := by
  unfold Stateless.step at h
  split at h
  · cases h
    split <;> simp [rank, Spawn.rank]
  · cases h
    exact Nat.lt_succ_self 5
  · cases h
    exact Nat.lt_succ_self 5
  · cases h
    exact Nat.zero_lt_succ 5
  · obtain ⟨⟨free, spawn'⟩, hs, h⟩ := Option.bind_eq_some_iff.mp h
    cases h
    exact Spawn.finish_rank hs
  · obtain ⟨⟨free, spawn'⟩, hs, h⟩ := Option.bind_eq_some_iff.mp h
    cases h
    exact Spawn.move_rank hs
  · cases h

/-- **Step lemma**: a move takes a handler further, and stays within its budget. -/
theorem Handler.step_rank {app app' : AppState} {i : RequestId} {caller : String} {m : Move}
    {handler handler' : Handler} (h : handler.step app i caller m = some (app', handler')) :
    handler.rank < handler'.rank ∧ handler'.budget = handler.budget := by
  cases handler with
  | create request phase =>
    obtain ⟨⟨app', phase'⟩, hphase, h⟩ := Option.bind_eq_some_iff.mp h
    cases h
    exact ⟨Create.step_rank hphase, rfl⟩
  | resume id body phase =>
    obtain ⟨⟨app', phase'⟩, hphase, h⟩ := Option.bind_eq_some_iff.mp h
    cases h
    exact ⟨Resume.step_rank hphase, rfl⟩
  | status id phase =>
    obtain ⟨⟨app', phase'⟩, hphase, h⟩ := Option.bind_eq_some_iff.mp h
    cases h
    obtain ⟨-, htrans⟩ := Status.step_cases hphase
    refine ⟨?_, rfl⟩
    cases htrans <;> simp [rank, Status.rank]
  | delete id phase =>
    obtain ⟨⟨app', phase'⟩, hphase, h⟩ := Option.bind_eq_some_iff.mp h
    cases h
    refine ⟨?_, rfl⟩
    cases Delete.step_cases hphase <;> simp [rank, Delete.rank]
  | run fields phase =>
    obtain ⟨⟨app', phase'⟩, hphase, h⟩ := Option.bind_eq_some_iff.mp h
    cases h
    exact ⟨Stateless.step_rank hphase, rfl⟩
  | compile request phase =>
    obtain ⟨⟨app', phase'⟩, hphase, h⟩ := Option.bind_eq_some_iff.mp h
    cases h
    exact ⟨Stateless.step_rank hphase, rfl⟩

/-! ## What can happen next -/

/-- The move is the server's own: nobody gives up for it, and nothing is cancelled. -/
def Move.Scheduled : Move → Prop
  | .drop | .abort => False
  | _ => True

/-- Time passes, or a request moves on by itself. -/
def Action.Scheduled : Action → Prop
  | .tick _ => True
  | .move _ m => m.Scheduled
  | _ => False

def Stateless.Over {W R : Type} : Stateless W R → Prop
  | .done _ | .dropped | .executing .dropped => True
  | _ => False

def Stateless.Waits {W R : Type} : Stateless W R → Prop
  | .executing spawn => spawn.Waits
  | .dropped => False
  | _ => True

namespace Handler

/-- The client has its answer. -/
def Answered : Handler → Prop
  | .create _ (.done _) | .resume _ _ (.done _) | .resume _ _ .rejected => True
  | .status _ (.done _) | .delete _ (.done _) | .run _ (.done _) | .compile _ (.done _) => True
  | _ => False

/-- The client, or the timeout layer, has not given up. -/
def Waits : Handler → Prop
  | .create _ .dropped | .resume _ _ .dropped | .status _ .dropped | .delete _ .dropped => False
  | .create _ (.executing _ _ spawn) => spawn.Waits
  | .resume _ _ (.executing _ spawn) => spawn.Waits
  | .run _ phase => phase.Waits
  | .compile _ phase => phase.Waits
  | _ => True

/-- Nothing is left to do: the client has its answer, or has gone, and so has its task. -/
def Over : Handler → Prop
  | .create _ (.done _) | .create _ .dropped | .create _ (.executing _ _ .dropped) => True
  | .resume _ _ (.done _) | .resume _ _ .rejected | .resume _ _ .dropped => True
  | .resume _ _ (.executing _ .dropped) => True
  | .status _ (.done _) | .status _ .dropped | .delete _ (.done _) | .delete _ .dropped => True
  | .run _ phase => phase.Over
  | .compile _ phase => phase.Over
  | _ => False

omit [Crates] in
/-- A client that has not given up is answered by the time nothing is left to do. -/
theorem answered_of_over {handler : Handler} (hover : handler.Over) (hwaits : handler.Waits) :
    handler.Answered := by
  unfold Over Stateless.Over at hover
  unfold Waits Stateless.Waits Spawn.Waits at hwaits
  unfold Answered
  grind

end Handler

/-! ## Nobody gives up -/

section Waits

omit [Crates] in
theorem Spawn.move_waits {W R : Type} {s s' : Spawn W R} {m : Move} {free free' : Nat}
    {now : Instant} (h : s.move free now m = some (free', s')) (hm : m.Scheduled)
    (hwaits : s.Waits) : s'.Waits := by
  unfold move at h
  split at h
  · split at h <;> cases h
    trivial
  · cases h
    rfl
  · cases h
    exact hwaits
  · exact hm.elim
  · exact hm.elim
  · exact hm.elim
  · exact hm.elim
  · exact hm.elim
  · exact hm.elim
  · cases h

omit [Crates] in
theorem Spawn.waits_settled {W R : Type} {awaited : Bool} (h : awaited = true)
    (result : Option R) : (settled awaited result : Spawn W R).Waits := by
  rw [h]
  trivial

omit [Crates] in
theorem Spawn.finish_waits {W R : Type} {s s' : Spawn W R} {free free' : Nat}
    {now entered : Instant} {run : W → Option R × Instant}
    (h : s.finish free now entered run = some (free', s')) (hwaits : s.Waits) : s'.Waits := by
  obtain ⟨work, since, awaited, result, ended, rfl, -, -, -, rfl⟩ := finish_cases h
  exact waits_settled hwaits result

theorem Create.step_waits {app app' : AppState} {i : RequestId} {caller : String}
    {request : CreateSessionRequest} {m : Move} {phase phase' : Create}
    (h : phase.step app i caller request m = some (app', phase')) (hm : m.Scheduled)
    (hwaits : (Handler.create request phase).Waits) :
    (Handler.create request phase').Waits := by
  unfold Create.step at h
  split at h
  · unfold Create.advance at h
    split at h
    · cases h
      split <;> trivial
    · cases h
      trivial
    · cases h
      trivial
    · cases h
      split <;> trivial
    · cases h
      split <;> trivial
    · obtain ⟨e, -, h⟩ := Option.bind_eq_some_iff.mp h
      cases h
      trivial
    · cases h
  · unfold Create.insert at h
    split at h
    · split at h <;> cases h
      trivial
    · cases h
  · exact hm.elim
  · obtain ⟨⟨free, spawn'⟩, hs, h⟩ := Option.bind_eq_some_iff.mp h
    cases h
    exact Spawn.finish_waits hs hwaits
  · obtain ⟨⟨free, spawn'⟩, hs, h⟩ := Option.bind_eq_some_iff.mp h
    cases h
    exact Spawn.move_waits hs hm hwaits
  · cases h

theorem Resume.step_waits {app app' : AppState} {i : RequestId} {caller : String} {id : Uuid}
    {body : Value} {m : Move} {phase phase' : Resume}
    (h : phase.step app i caller id body m = some (app', phase')) (hm : m.Scheduled)
    (hwaits : (Handler.resume id body phase).Waits) :
    (Handler.resume id body phase').Waits := by
  unfold Resume.step at h
  split at h
  · unfold Resume.advance at h
    split at h
    · cases h
      split
      · trivial
      · trivial
      · split <;> trivial
    · obtain ⟨e, -, h⟩ := Option.bind_eq_some_iff.mp h
      split at h <;> cases h <;> trivial
    · cases h
      trivial
    · obtain ⟨e, -, h⟩ := Option.bind_eq_some_iff.mp h
      cases h
      trivial
    · obtain ⟨e, -, h⟩ := Option.bind_eq_some_iff.mp h
      cases h
      trivial
    · obtain ⟨e, -, h⟩ := Option.bind_eq_some_iff.mp h
      cases h
      trivial
    · cases h
  · exact hm.elim
  · unfold Resume.finish at h
    obtain ⟨e, -, h⟩ := Option.bind_eq_some_iff.mp h
    dsimp only at h
    split at h <;> cases h
    exact Spawn.waits_settled hwaits _
  · obtain ⟨⟨free, spawn'⟩, hs, h⟩ := Option.bind_eq_some_iff.mp h
    cases h
    exact Spawn.move_waits hs hm hwaits
  · cases h

omit [Crates] in
/-- The endpoint's handler is still there. -/
theorem Stateless.step_waits {W R : Type} {app app' : AppState} {work : ApiResult W}
    {run : Instant → Lag → W → Option (ApiResult R) × Instant} {m : Move}
    {phase phase' : Stateless W R} (h : Stateless.step app work run m phase = some (app', phase'))
    (hm : m.Scheduled) (hwaits : phase.Waits) : phase'.Waits := by
  unfold Stateless.step at h
  split at h
  · cases h
    split <;> trivial
  · cases h
    trivial
  · cases h
    trivial
  · exact hm.elim
  · obtain ⟨⟨free, spawn'⟩, hs, h⟩ := Option.bind_eq_some_iff.mp h
    cases h
    exact Spawn.finish_waits hs hwaits
  · obtain ⟨⟨free, spawn'⟩, hs, h⟩ := Option.bind_eq_some_iff.mp h
    cases h
    exact Spawn.move_waits hs hm hwaits
  · cases h

/-- **Step lemma**: on a move of its own a handler stays with its client. -/
theorem Handler.step_waits {app app' : AppState} {i : RequestId} {caller : String} {m : Move}
    {handler handler' : Handler} (h : handler.step app i caller m = some (app', handler'))
    (hm : m.Scheduled) (hwaits : handler.Waits) : handler'.Waits := by
  cases handler with
  | create request phase =>
    obtain ⟨⟨app', phase'⟩, hphase, h⟩ := Option.bind_eq_some_iff.mp h
    cases h
    exact Create.step_waits hphase hm hwaits
  | resume id body phase =>
    obtain ⟨⟨app', phase'⟩, hphase, h⟩ := Option.bind_eq_some_iff.mp h
    cases h
    exact Resume.step_waits hphase hm hwaits
  | status id phase =>
    obtain ⟨⟨app', phase'⟩, hphase, h⟩ := Option.bind_eq_some_iff.mp h
    cases h
    obtain ⟨-, htrans⟩ := Status.step_cases hphase
    cases htrans with
    | drop => exact hm.elim
    | _ => trivial
  | delete id phase =>
    obtain ⟨⟨app', phase'⟩, hphase, h⟩ := Option.bind_eq_some_iff.mp h
    cases h
    cases Delete.step_cases hphase with
    | drop => exact hm.elim
    | _ => trivial
  | run fields phase =>
    obtain ⟨⟨app', phase'⟩, hphase, h⟩ := Option.bind_eq_some_iff.mp h
    cases h
    exact Stateless.step_waits hphase hm hwaits
  | compile request phase =>
    obtain ⟨⟨app', phase'⟩, hphase, h⟩ := Option.bind_eq_some_iff.mp h
    cases h
    exact Stateless.step_waits hphase hm hwaits

end Waits

/-! ## Something can always go on -/

/-- The state a while later. -/
def AppState.later (app : AppState) (d : Duration) : AppState := { app with now := app.now + d }

/-- Sooner or later the handler can make a move of its own. -/
def Handler.GoesOn (handler : Handler) (app : AppState) (i : RequestId) (caller : String) : Prop :=
  ∃ d m, m.Scheduled ∧ (handler.step (app.later d) i caller m).isSome

section GoesOn

variable {app : AppState} {i : RequestId} {caller : String}

theorem Create.goesOn {request : CreateSessionRequest} {phase : Create}
    (hok : (Handler.create request phase).Ok app caller)
    (hover : ¬ (Handler.create request phase).Over)
    (hpermit : (Handler.create request phase).Queued → 0 < app.concurrency)
    (hfresh : ∃ id, app.sessions.entries id = none) :
    (Handler.create request phase).GoesOn app i caller := by
  cases phase with
  | received => exact ⟨0, .advance, trivial, rfl⟩
  | executing ttl limits spawn =>
    cases spawn with
    | queued spec =>
      have hfree : 0 < (app.later 0).concurrency := hpermit trivial
      refine ⟨0, .acquire, trivial, ?_⟩
      simp [Handler.step, Create.step, Spawn.move, hfree]
    | admitted spec => exact ⟨0, .spawn, trivial, rfl⟩
    | spawned spec awaited => exact ⟨0, .start, trivial, rfl⟩
    | running spec since awaited =>
      -- the clock is let run until the work has ended
      refine ⟨(spec.start limits since {}).2, .finish since {}, trivial, ?_⟩
      simp [Handler.step, Create.step, Spawn.finish, AppState.later]
    | finished result =>
      refine ⟨0, .advance, trivial, ?_⟩
      cases result with
      | none => rfl
      | some started => cases started <;> rfl
    | dropped => exact (hover trivial).elim
  | checked ttl tracker step =>
    obtain ⟨id, hnone⟩ := hfresh
    refine ⟨0, .insert id, trivial, ?_⟩
    simp [Handler.step, Create.step, Create.insert, AppState.later, hnone]
  | inserted id => exact ⟨0, .advance, trivial, rfl⟩
  | fetched id =>
    obtain ⟨e, he, -⟩ := hok
    refine ⟨0, .advance, trivial, ?_⟩
    simp [Handler.step, Create.step, Create.advance, AppState.later, he]
  | done response => exact (hover trivial).elim
  | dropped => exact (hover trivial).elim

theorem Resume.goesOn {id : Uuid} {body : Value} {phase : Resume}
    (hok : (Handler.resume id body phase).Ok app caller)
    (hover : ¬ (Handler.resume id body phase).Over)
    (hpermit : (Handler.resume id body phase).Queued → 0 < app.concurrency) :
    (Handler.resume id body phase).GoesOn app i caller := by
  cases phase with
  | received => exact ⟨0, .advance, trivial, rfl⟩
  | found input =>
    obtain ⟨-, e, he, -⟩ := hok
    refine ⟨0, .advance, trivial, ?_⟩
    cases hacquire : e.acquireForResume <;>
      simp [Handler.step, Resume.step, Resume.advance, AppState.later, he, hacquire]
  | executing input spawn =>
    obtain ⟨-, e, he, -⟩ := hok
    cases spawn with
    | queued progress =>
      have hfree : 0 < (app.later 0).concurrency := hpermit trivial
      refine ⟨0, .acquire, trivial, ?_⟩
      simp [Handler.step, Resume.step, Spawn.move, hfree]
    | admitted progress => exact ⟨0, .spawn, trivial, rfl⟩
    | spawned progress awaited => exact ⟨0, .start, trivial, rfl⟩
    | running progress since awaited =>
      refine ⟨(resumeSession progress e.tracker input since {}).2.now, .finish since {}, trivial,
        ?_⟩
      simp [Handler.step, Resume.step, Resume.finish, AppState.later, he]
    | finished result =>
      refine ⟨0, .advance, trivial, ?_⟩
      cases result with
      | none => rfl
      | some result =>
        cases result <;> simp [Handler.step, Resume.step, Resume.advance, AppState.later, he]
    | dropped => exact (hover trivial).elim
  | stored =>
    obtain ⟨e, he, -⟩ := hok
    refine ⟨0, .advance, trivial, ?_⟩
    simp [Handler.step, Resume.step, Resume.advance, AppState.later, he]
  | done response => exact (hover trivial).elim
  | rejected => exact (hover trivial).elim
  | dropped => exact (hover trivial).elim

omit [Crates] in
theorem Stateless.goesOn {W R : Type} (app : AppState) (work : ApiResult W)
    (run : Instant → Lag → W → Option (ApiResult R) × Instant) {phase : Stateless W R}
    (hover : ¬ phase.Over)
    (hpermit : (∃ w, phase = .executing (.queued w)) → 0 < app.concurrency) :
    ∃ d m, m.Scheduled ∧ (Stateless.step (app.later d) work run m phase).isSome := by
  cases phase with
  | received => exact ⟨0, .advance, trivial, rfl⟩
  | executing spawn =>
    cases spawn with
    | queued w =>
      have hfree : 0 < (app.later 0).concurrency := hpermit ⟨w, rfl⟩
      refine ⟨0, .acquire, trivial, ?_⟩
      simp [Stateless.step, Spawn.move, hfree]
    | admitted w => exact ⟨0, .spawn, trivial, rfl⟩
    | spawned w awaited => exact ⟨0, .start, trivial, rfl⟩
    | running w since awaited =>
      refine ⟨(run since {} w).2, .finish since {}, trivial, ?_⟩
      simp [Stateless.step, Spawn.finish, AppState.later]
    | finished result => cases result <;> exact ⟨0, .advance, trivial, rfl⟩
    | dropped => exact (hover trivial).elim
  | done response => exact (hover trivial).elim
  | dropped => exact (hover trivial).elim

/-- **A handler that is not over goes on**, unless it waits for a permit and there is none. -/
theorem Handler.goesOn {handler : Handler} (hok : handler.Ok app caller) (hover : ¬ handler.Over)
    (hpermit : handler.Queued → 0 < app.concurrency)
    (hfresh : ∃ id, app.sessions.entries id = none) : handler.GoesOn app i caller := by
  cases handler with
  | create request phase => exact Create.goesOn hok hover hpermit hfresh
  | resume id body phase => exact Resume.goesOn hok hover hpermit
  | status id phase =>
    cases phase with
    | received => exact ⟨0, .advance, trivial, rfl⟩
    | found =>
      obtain ⟨e, he, -⟩ := hok
      refine ⟨0, .advance, trivial, ?_⟩
      simp [step, Status.step, AppState.later, he]
    | done response => exact (hover trivial).elim
    | dropped => exact (hover trivial).elim
  | delete id phase =>
    cases phase with
    | received => exact ⟨0, .advance, trivial, rfl⟩
    | owned => exact ⟨0, .advance, trivial, rfl⟩
    | done response => exact (hover trivial).elim
    | dropped => exact (hover trivial).elim
  | run fields phase =>
    have hqueued : (∃ w, phase = .executing (.queued w)) → 0 < app.concurrency := by
      rintro ⟨_, rfl⟩
      exact hpermit trivial
    have hgoes : ∃ d m, Move.Scheduled m ∧
        (RunCode.step (app.later d) fields m phase).isSome :=
      Stateless.goesOn app
        (do return (← fields.intoSpec, resolveLimits fields.limits app.config.limits)) _ hover
        hqueued
    obtain ⟨d, m, hm, hsome⟩ := hgoes
    obtain ⟨next, hnext⟩ := Option.isSome_iff_exists.mp hsome
    exact ⟨d, m, hm, by simp [step, hnext]⟩
  | compile request phase =>
    have hqueued : (∃ w, phase = .executing (.queued w)) → 0 < app.concurrency := by
      rintro ⟨_, rfl⟩
      exact hpermit trivial
    obtain ⟨d, m, hm, hsome⟩ := Stateless.goesOn app (.ok request)
      (fun entered _ request => (some (CompileRequest.work request), entered)) hover hqueued
    obtain ⟨next, hnext⟩ := Option.isSome_iff_exists.mp hsome
    have hcompile : CompileCode.step (app.later d) request m phase = some next := hnext
    exact ⟨d, m, hm, by simp [step, hcompile]⟩

end GoesOn

namespace Server

variable {s s' : Server} {a : Action} {config : Config}

/-! ## Fresh ids -/

/-- Only an insertion brings a new entry. -/
theorem Trans.entry_new (h : s.Trans a s') {id : Uuid} (hnone : s.app.sessions.entries id = none) :
    s'.app.sessions.entries id = none ∨ ∃ i, a = .move i (.insert id) := by
  cases h with
  | @create i m caller request phase phase' app hr h =>
    cases h with
    | @insert ttl tracker step j _ =>
      by_cases hid : id = j
      · exact .inr ⟨i, by rw [hid]⟩
      · exact .inl (by simpa [hid] using hnone)
    | _ => exact .inl hnone
  | @resume i m caller j body phase phase' app hr h =>
    by_cases hid : id = j
    · subst hid
      cases h with
      | take he _ _ => cases hnone.symm.trans he
      | ran he _ => cases hnone.symm.trans he
      | store he => cases hnone.symm.trans he
      | restore he => cases hnone.symm.trans he
      | _ => exact .inl hnone
    · exact .inl ((h.other hid).1.trans hnone)
  | delete _ h => cases h <;> exact .inl hnone
  | _ => exact .inl hnone

/-- From some id on, no id has had a session. -/
def FreshFrom (s : Server) (bound : Uuid) : Prop :=
  ∀ id, bound ≤ id → s.app.sessions.entries id = none

theorem FreshFrom.step {bound : Uuid} (fresh : s.FreshFrom bound) (h : s.step a = some s') :
    ∃ bound', s'.FreshFrom bound' := by
  by_cases hinsert : ∃ i id, a = .move i (.insert id)
  · obtain ⟨i, id, rfl⟩ := hinsert
    refine ⟨max bound (id + 1), ?_⟩
    intro id' hid'
    rcases (step_cases h).entry_new (fresh id' (le_of_max_le_left hid')) with hnone | ⟨j, heq⟩
    · exact hnone
    · cases heq
      exact absurd (le_of_max_le_right hid') (Nat.not_succ_le_self _)
  · refine ⟨bound, ?_⟩
    intro id hid
    rcases (step_cases h).entry_new (fresh id hid) with hnone | ⟨i, heq⟩
    · exact hnone
    · exact (hinsert ⟨i, id, heq⟩).elim

/-- **Run lemma**: there is always an id that no session has had. -/
theorem Reachable.exists_fresh (h : Reachable config s) :
    ∃ id, s.app.sessions.entries id = none := by
  have hfresh : ∃ bound, s.FreshFrom bound :=
    Run.Reachable.invariant (I := fun s : Server => ∃ bound, s.FreshFrom bound)
      (fun _ _ _ ⟨_, hs⟩ hstep => hs.step hstep) ⟨0, fun _ _ => rfl⟩ h
  obtain ⟨bound, hbound⟩ := hfresh
  exact ⟨bound, hbound bound (Nat.le_refl bound)⟩

/-! ## Every request comes to an end -/

/-- How far request `i` has got. -/
def rank (s : Server) (i : RequestId) : Nat := (s.requests[i]?).elim 0 fun r => r.handler.rank

/-- The action is a move of request `i`. -/
def moves (i : RequestId) : Action → Bool
  | .move j _ => j = i
  | _ => false

/-- **Step lemma**: a move takes its request further, and nothing takes a request back. -/
theorem rank_step (h : s.step a = some s') (i : RequestId) :
    s.rank i + (if moves i a then 1 else 0) ≤ s'.rank i := by
  cases a with
  | move j m =>
    obtain ⟨r, hr, h⟩ := Option.bind_eq_some_iff.mp h
    obtain ⟨⟨app, handler⟩, hstep, h⟩ := Option.bind_eq_some_iff.mp h
    cases h
    have hj : j < s.requests.length := (List.getElem?_eq_some_iff.mp hr).1
    by_cases hji : j = i
    · subst hji
      have hbefore : s.rank j = r.handler.rank := by simp [rank, hr]
      have hmine : moves j (.move j m) = true := decide_eq_true rfl
      rw [hbefore, if_pos hmine]
      simpa [rank, hj] using Nat.succ_le_of_lt (Handler.step_rank hstep).1
    · simp [rank, moves, hji]
  | arrive caller call =>
    cases h
    cases hi : s.requests[i]? with
    | none => simp [rank, moves, hi]
    | some r =>
      have hlt : i < s.requests.length := (List.getElem?_eq_some_iff.mp hi).1
      simp [rank, moves, hi, List.getElem?_append_left hlt]
  | tick d =>
    cases h
    exact Nat.le_refl _
  | collect =>
    rw [step] at h
    split at h <;> cases h
    exact Nat.le_refl _
  | evict =>
    rw [step] at h
    split at h <;> cases h
    exact Nat.le_refl _

end Server

/-- **Every request makes a bounded number of moves**, whatever happens around it: a create at most
nine, a resume eight, a run or a compile six, a status or a delete two. -/
theorem moves_le_budget {config : Config} {as : List Action} {s : Server}
    (h : Run.exec Server.step (.new config) as = some s) {i : RequestId} {r : Request}
    (hr : s.requests[i]? = some r) : as.countP (Server.moves i) ≤ r.handler.budget := by
  have hspent := Run.rank_add_countP_le (fun _ _ _ hstep => Server.rank_step hstep i) h
  have hrank : s.rank i = r.handler.rank := by simp [Server.rank, hr]
  calc as.countP (Server.moves i)
      ≤ s.rank i := by simpa [Server.rank, Server.new] using hspent
    _ = r.handler.rank := hrank
    _ ≤ r.handler.budget := r.handler.rank_le_budget

omit [Crates] in
/-- A create and a resume that make all their moves. -/
theorem moves_le_budget_attained :
    ∃ (_ : Crates) (s : Server) (r₀ r₁ : Request),
      Run.exec Server.step (.new Sample.config) (Sample.opening ++ Sample.resuming 1) = some s ∧
      s.requests[0]? = some r₀ ∧ s.requests[1]? = some r₁ ∧
      (Sample.opening ++ Sample.resuming 1).countP (Server.moves 0) = 9 ∧
      (Sample.opening ++ Sample.resuming 1).countP (Server.moves 0) ≤ r₀.handler.budget ∧
      (Sample.opening ++ Sample.resuming 1).countP (Server.moves 1) = 8 ∧
      (Sample.opening ++ Sample.resuming 1).countP (Server.moves 1) ≤ r₁.handler.budget := by
  let _ := Sample.crates
  have hrun : (Run.exec Server.step (.new Sample.config)
      (Sample.opening ++ Sample.resuming 1)).any (fun s => s.requests.length = 2) = true := by
    decide
  obtain ⟨s, hs, htwo⟩ := Option.any_eq_true _ _ |>.mp hrun
  have hlength : s.requests.length = 2 := of_decide_eq_true htwo
  have hr₀ : s.requests[0]? = some (s.requests[0]) := List.getElem?_eq_getElem (by omega)
  have hr₁ : s.requests[1]? = some (s.requests[1]) := List.getElem?_eq_getElem (by omega)
  exact ⟨Sample.crates, s, _, _, hs, hr₀, hr₁, by decide, moves_le_budget hs hr₀, by decide,
    moves_le_budget hs hr₁⟩

/-! ## Every request can be answered -/

namespace Server

variable {s s' : Server} {a : Action} {config : Config}

/-- What all requests together have left to do. -/
def left (s : Server) : Nat :=
  (s.requests.map fun r => r.handler.budget - r.handler.rank).sum

/-- Nothing is left to do for anybody. -/
def Drained (s : Server) : Prop :=
  ∀ (i : RequestId) (r : Request), s.requests[i]? = some r → r.handler.Over

omit [Crates] in
/-- A request that has a permit does not wait for one, and is not over. -/
theorem permit_busy {handler : Handler} (h : handler.stage ≠ .without) :
    ¬ handler.Over ∧ ¬ handler.Queued := by
  constructor
  · intro hover
    apply h
    unfold Handler.Over Stateless.Over at hover
    grind [Handler.stage, Create.stage, Resume.stage, Stateless.stage, Spawn.stage]
  · intro hqueued
    apply h
    unfold Handler.Queued at hqueued
    grind [Handler.stage, Create.stage, Resume.stage, Stateless.stage, Spawn.stage]

omit [Crates] in
/-- Permits that the semaphore does not have are with requests. -/
theorem exists_holder (h : s.held ≠ 0) :
    ∃ (i : RequestId) (r : Request), s.requests[i]? = some r ∧ r.handler.stage ≠ .without := by
  obtain ⟨n, hn, hpos⟩ := List.sum_pos_iff_exists_pos_nat.mp (Nat.pos_of_ne_zero h)
  obtain ⟨r, hr, rfl⟩ := List.mem_map.mp hn
  obtain ⟨i, hi⟩ := List.mem_iff_getElem?.mp hr
  refine ⟨i, r, hi, ?_⟩
  intro hwithout
  rw [hwithout] at hpos
  exact Nat.lt_irrefl 0 hpos

/-- **Some request can go on**, as long as one of them is not over. -/
theorem exists_goesOn (h : Reachable config s) (hpermit : 0 < config.maxConcurrency)
    (hdrained : ¬ s.Drained) :
    ∃ (i : RequestId) (r : Request),
      s.requests[i]? = some r ∧ r.handler.GoesOn s.app i r.caller := by
  have hok := h.wf.handlers
  have hfresh := h.exists_fresh
  simp only [Drained, not_forall] at hdrained
  obtain ⟨i, r, hr, hover⟩ := hdrained
  by_cases hwaits : r.handler.Queued → 0 < s.app.concurrency
  · exact ⟨i, r, hr, Handler.goesOn (hok i r hr) hover hwaits hfresh⟩
  · -- the permit that request `i` waits for is with request `j`
    have hfree : ¬ 0 < s.app.concurrency := fun h => hwaits fun _ => h
    have hall : s.app.concurrency + s.held = config.maxConcurrency := h.conserved
    obtain ⟨j, r', hr', hstage⟩ := exists_holder (s := s) (by omega)
    obtain ⟨hover', hqueued⟩ := permit_busy hstage
    exact ⟨j, r', hr', Handler.goesOn (hok j r' hr') hover' (fun h => (hqueued h).elim) hfresh⟩

/-- **Step lemma**: a state in which a request is not over leads to one with less left to do. -/
theorem left_lt (h : Reachable config s) (hpermit : 0 < config.maxConcurrency)
    (hdrained : ¬ s.Drained) :
    ∃ as t, (∀ a ∈ as, Action.Scheduled a) ∧ Run.exec step s as = some t ∧ t.left < s.left := by
  obtain ⟨i, r, hr, d, m, hm, hsome⟩ := exists_goesOn h hpermit hdrained
  obtain ⟨⟨app, handler⟩, hstep⟩ := Option.isSome_iff_exists.mp hsome
  refine ⟨[.tick d, .move i m], ({ s with app := s.app.later d }).advanced app i { r with handler },
    ?_, ?_, ?_⟩
  · intro a ha
    rcases List.mem_pair.mp ha with rfl | rfl
    · trivial
    · exact hm
  · have htick : s.step (.tick d) = some { s with app := s.app.later d } := rfl
    have hmove : ({ s with app := s.app.later d } : Server).step (.move i m) =
        some (({ s with app := s.app.later d } : Server).advanced app i { r with handler }) := by
      simp [step, hr, hstep, advanced]
    rw [Run.exec, htick, Option.bind_some, Run.exec, hmove, Option.bind_some, Run.exec]
  · apply Run.sum_map_set_lt hr
    obtain ⟨hrank, hbudget⟩ := Handler.step_rank hstep
    have hle := handler.rank_le_budget
    show handler.budget - handler.rank < r.handler.budget - r.handler.rank
    omega

/-- The clients that had not given up in `s` have not given up. -/
def WaitsOn (s t : Server) : Prop :=
  ∀ (i : RequestId) (r : Request), s.requests[i]? = some r → r.handler.Waits →
    ∃ r', t.requests[i]? = some r' ∧ r'.caller = r.caller ∧ r'.handler.Waits

theorem WaitsOn.step {s₀ : Server} (hwaits : s₀.WaitsOn s) (ha : a.Scheduled)
    (h : s.step a = some s') : s₀.WaitsOn s' := by
  intro i r₀ hr₀ hw₀
  obtain ⟨r, hr, hcaller, hw⟩ := hwaits i r₀ hr₀ hw₀
  cases a with
  | tick d =>
    cases h
    exact ⟨r, hr, hcaller, hw⟩
  | move j m =>
    obtain ⟨r', hr', h⟩ := Option.bind_eq_some_iff.mp h
    obtain ⟨⟨app, handler⟩, hstep, h⟩ := Option.bind_eq_some_iff.mp h
    cases h
    by_cases hij : i = j
    · subst hij
      cases hr.symm.trans hr'
      exact ⟨{ r with handler }, (advanced_request hr).mpr (.inl ⟨rfl, rfl⟩), hcaller,
        Handler.step_waits hstep ha hw⟩
    · exact ⟨r, (advanced_request hr').mpr (.inr ⟨hij, hr⟩), hcaller, hw⟩
  | _ => exact ha.elim

end Server

/-- **Every request can be answered.** From every state reached, the clock and the requests' own
moves alone lead to a state in which every client that has not given up has its answer, nothing is
left to do, and all permits are back: nobody has to give up, and nothing has to be cancelled. -/
theorem every_request_answered {config : Config} (hpermit : 0 < config.maxConcurrency) {s : Server}
    (h : s.Reachable config) :
    ∃ as t, (∀ a ∈ as, Action.Scheduled a) ∧ Run.exec Server.step s as = some t ∧
      (∀ (i : RequestId) (r : Request), s.requests[i]? = some r → r.handler.Waits →
        ∃ r', t.requests[i]? = some r' ∧ r'.caller = r.caller ∧ r'.handler.Answered) ∧
      t.Drained ∧ t.app.concurrency = config.maxConcurrency := by
  have go : ∀ u : Server, u.Reachable config → ¬ u.Drained →
      ∃ as t, (∀ a ∈ as, Action.Scheduled a) ∧ Run.exec Server.step u as = some t ∧
        t.Reachable config ∧ t.left < u.left := by
    intro u hu hdrained
    obtain ⟨as, t, has, ht, hless⟩ := Server.left_lt hu hpermit hdrained
    obtain ⟨bs, hbs⟩ := hu
    exact ⟨as, t, has, ht, ⟨bs ++ as, Run.exec_append.mpr ⟨u, hbs, ht⟩⟩, hless⟩
  obtain ⟨as, t, has, ht, hreachable, hdrained⟩ := Run.exists_done go h
  refine ⟨as, t, has, ht, ?_, hdrained, ?_⟩
  · have hwaits : s.WaitsOn t := Run.exec_invariant_of_forall (I := s.WaitsOn)
      (fun _ _ _ hs ha hstep => hs.step ha hstep) (fun i r hr hw => ⟨r, hr, rfl, hw⟩) has ht
    intro i r hr hw
    obtain ⟨r', hr', hcaller, hw'⟩ := hwaits i r hr hw
    exact ⟨r', hr', hcaller, Handler.answered_of_over (hdrained i r' hr') hw'⟩
  · have hall : t.app.concurrency + t.held = config.maxConcurrency := hreachable.conserved
    have hheld : t.held = 0 := by
      by_contra hsome
      obtain ⟨i, r, hr, hstage⟩ := Server.exists_holder hsome
      exact (Server.permit_busy hstage).1 (hdrained i r hr)
    omega

namespace Sample

/-- One permit, which is with the task of a client that has gone, and one request waiting for it. -/
def crowded : List Action :=
  [.arrive "a" (.compile { code := "" }), .arrive "b" (.compile { code := "" }),
    .move 0 .advance, .move 1 .advance, .move 0 .acquire, .move 0 .spawn, .move 0 .start,
    .move 0 .drop]

/-- Room for one execution at a time. -/
def narrow : Config := ⟨bounds, ⟨60000000000, 60000000000, 1⟩, 1⟩

end Sample

omit [Crates] in
/-- The one that waits gets its answer. -/
theorem every_request_answered_crowded :
    ∃ (_ : Crates) (s : Server), s.Reachable Sample.narrow ∧ s.app.concurrency = 0 ∧
      ∃ as t, (∀ a ∈ as, Action.Scheduled a) ∧ Run.exec Server.step s as = some t ∧
        (∀ (i : RequestId) (r : Request), s.requests[i]? = some r → r.handler.Waits →
          ∃ r', t.requests[i]? = some r' ∧ r'.caller = r.caller ∧ r'.handler.Answered) ∧
        t.Drained ∧ t.app.concurrency = Sample.narrow.maxConcurrency := by
  let _ := Sample.crates
  have hrun : (Run.exec Server.step (.new Sample.narrow) Sample.crowded).any
      (fun s => s.app.concurrency = 0) = true := by decide
  obtain ⟨s, hs, hfree⟩ := Option.any_eq_true _ _ |>.mp hrun
  have hreachable : s.Reachable Sample.narrow := ⟨_, hs⟩
  exact ⟨Sample.crates, s, hreachable, of_decide_eq_true hfree,
    every_request_answered Nat.one_pos hreachable⟩

end MontyServer
