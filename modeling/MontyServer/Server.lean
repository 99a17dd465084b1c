import MontyServer.Api.Handlers
import MontyServer.Lib.Run

/-!
# The server as one machine

Any number of requests, each where its handler is, around one shared state, plus the reaper. Every
action is one atomic step of one of them, so a list of actions is an interleaving, and every
interleaving is a list of actions.
-/

namespace MontyServer

/-- A request, after authentication. -/
inductive Call
  | create (request : CreateSessionRequest)
  | resume (id : Uuid) (body : Value)
  | status (id : Uuid)
  | delete (id : Uuid)
  | run (fields : SourceFields)
  | compile (request : CompileRequest)

/-- A call and where its handler is. -/
inductive Handler
  | create (request : CreateSessionRequest) (phase : Create)
  | resume (id : Uuid) (body : Value) (phase : Resume)
  | status (id : Uuid) (phase : Status)
  | delete (id : Uuid) (phase : Delete)
  | run (fields : SourceFields) (phase : RunCode)
  | compile (request : CompileRequest) (phase : CompileCode)

def Call.handler : Call → Handler
  | .create request => .create request .received
  | .resume id body => .resume id body .received
  | .status id => .status id .received
  | .delete id => .delete id .received
  | .run fields => .run fields .received
  | .compile request => .compile request .received

/-- A request with the id of its `Caller`. -/
structure Request where
  caller : String
  handler : Handler

/-- `expired` is what `reap_expired` has collected and not removed yet. -/
structure Server where
  app : AppState
  requests : List Request
  expired : List Uuid

def Server.new (config : Config) : Server where
  app := .new config
  requests := []
  expired := []

/-- One atomic step. -/
inductive Action
  | tick (d : Duration)
  | arrive (caller : String) (call : Call)
  | move (i : RequestId) (m : Move)
  /-- The reaper's first pass, over the whole map. -/
  | collect
  /-- The reaper removes the next session it has collected. -/
  | evict

section Step

variable [Crates]

def Handler.step (app : AppState) (i : RequestId) (caller : String) (m : Move) :
    Handler → Option (AppState × Handler)
  | .create request phase => do
    let (app, phase) ← phase.step app i caller request m
    some (app, .create request phase)
  | .resume id body phase => do
    let (app, phase) ← phase.step app i caller id body m
    some (app, .resume id body phase)
  | .status id phase => do
    let (app, phase) ← phase.step app caller id m
    some (app, .status id phase)
  | .delete id phase => do
    let (app, phase) ← phase.step app caller id m
    some (app, .delete id phase)
  | .run fields phase => do
    let (app, phase) ← RunCode.step app fields m phase
    some (app, .run fields phase)
  | .compile request phase => do
    let (app, phase) ← CompileCode.step app request m phase
    some (app, .compile request phase)

namespace Server

/-- One step of the server; `none` is an action that is not possible. -/
def step (s : Server) : Action → Option Server
  | .tick d => some { s with app := { s.app with now := s.app.now + d } }
  | .arrive caller call => some { s with requests := s.requests ++ [⟨caller, call.handler⟩] }
  | .move i m => do
    let r ← s.requests[i]?
    let (app, handler) ← r.handler.step s.app i r.caller m
    some { s with app, requests := s.requests.set i { r with handler } }
  | .collect =>
    match s.expired with
    | [] => some { s with expired := s.app.sessions.expired s.app.now }
    | _ :: _ => none
  | .evict =>
    match s.expired with
    | [] => none
    -- whatever has become of the session since it was collected
    | id :: expired =>
      some { s with app := { s.app with sessions := s.app.sessions.removeKey id }, expired }

/-- Every state of the server. -/
def Reachable (config : Config) (s : Server) : Prop := Run.Reachable step (.new config) s

end Server

end Step

/-! ## Sample runs -/

namespace Sample

/-- Room for two sessions, which live a minute unless a client asks for less. -/
def config : Config := ⟨bounds, ⟨60000000000, 60000000000, 2⟩, 4⟩

/-- Request `i`, just arrived, is taken to where its blocking task has returned. -/
def executed (i : RequestId) : List Action :=
  [.move i .acquire, .move i .spawn, .move i .start, .move i (.finish 0 {})]

/-- Request 0 creates session 7, which waits for an unknown name twice. -/
def opening : List Action :=
  [.arrive "owner" (.create { source := { code := some "try: x\nexcept NameError: y" } }),
    .move 0 .advance] ++ executed 0 ++
  [.move 0 .advance, .move 0 (.insert 7), .move 0 .advance, .move 0 .advance]

/-- The answer that a name is not defined. -/
def undefined : Value := .object [("undefined", .bool true)]

/-- Request `i` asks to resume session 7 and takes the progress. -/
def taking (i : RequestId) : List Action :=
  [.arrive "owner" (.resume 7 undefined), .move i .advance, .move i .advance]

/-- Request `i` resumes session 7 and answers. -/
def resuming (i : RequestId) : List Action :=
  taking i ++ executed i ++ [.move i .advance, .move i .advance]

end Sample

end MontyServer
