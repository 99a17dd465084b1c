import MontyServer.Session
import MontyServer.Api.Dto

/-!
# `/v1/sessions`: request bodies and views

The pure parts of `api/sessions.rs`: what serde makes of a resume body, how a `ResumeRequest`
becomes a `ResumeInput`, and how a stored entry is rendered. The handlers, which lock and await,
are in `MontyServer.Api.Handlers`.

A derived `Deserialize` accepts a struct as a JSON object and as a JSON array of its fields in
order. Its rejections carry serde's own texts, which nothing here reads, so they are `none`.
-/

namespace MontyServer

/-! ## `serde::Deserialize` -/

/-- The member of that name. Duplicates of a field are rejected. -/
def field (map : List (String × Value)) (name : String) : Option (Option Value) :=
  match map.filter (fun member => member.1 = name) with
  | [] => some none
  | [(_, value)] => some (some value)
  | _ => none

/-- `Option<T>`: absent and `null` are both `None`. -/
def optional {α : Type} (de : Value → Option α) : Option Value → Option (Option α)
  | none => some none
  | some .null => some none
  | some v => (de v).map some

/-- A field that must be there. -/
def required {α : Type} (de : Value → Option α) : Option Value → Option α
  | none => none
  | some v => de v

def deserializeBool : Value → Option Bool
  | .bool b => some b
  | _ => none

def deserializeString : Value → Option String
  | .string s => some s
  | _ => none

def deserializeU32 : Value → Option UInt32
  | .number (.posInt n) => if n.toNat < UInt32.size then some n.toUInt32 else none
  | .number (.literal text) => (Text.parseU32 text).toOption
  | _ => none

def deserializeVec {α : Type} (de : Value → Option α) : Value → Option (List α)
  | .array items => items.mapM de
  | _ => none

/-- A client-supplied exception, used to raise into a paused session. -/
structure ExceptionInput where
  excType : String
  message : Option String
  deriving DecidableEq, Repr

/-- The struct from its two field slots. -/
def ExceptionInput.ofFields (excType message : Option Value) : Option ExceptionInput := do
  return { excType := ← required deserializeString excType,
           message := ← optional deserializeString message }

def ExceptionInput.deserialize : Value → Option ExceptionInput
  | .object map => do ExceptionInput.ofFields (← field map "type") (← field map "message")
  | .array [excType, message] => ExceptionInput.ofFields excType message
  | _ => none

/-- One pending future's result. -/
structure FutureInput where
  callId : UInt32
  returnValue : Option Value
  exception : Option ExceptionInput

/-- The struct from its three field slots. -/
def FutureInput.ofFields (callId returnValue exception : Option Value) : Option FutureInput := do
  return { callId := ← required deserializeU32 callId,
           returnValue := ← optional some returnValue,
           exception := ← optional ExceptionInput.deserialize exception }

def FutureInput.deserialize : Value → Option FutureInput
  | .object map => do
    FutureInput.ofFields (← field map "call_id") (← field map "return") (← field map "exception")
  | .array [callId, returnValue, exception] =>
    FutureInput.ofFields callId returnValue exception
  | _ => none

/-- Request body for `POST /v1/sessions/{id}/resume`. -/
structure ResumeRequest where
  returnValue : Option Value := none
  exception : Option ExceptionInput := none
  pending : Option Bool := none
  value : Option Value := none
  undefined : Option Bool := none
  futures : Option (List FutureInput) := none

/-- The names of the fields; any other member is rejected (`deny_unknown_fields`). -/
def ResumeRequest.FIELDS : List String :=
  ["return", "exception", "pending", "value", "undefined", "futures"]

/-- The struct from its six field slots. -/
def ResumeRequest.ofFields (returnValue exception pending value undefined futures : Option Value) :
    Option ResumeRequest := do
  return { returnValue := ← optional some returnValue,
           exception := ← optional ExceptionInput.deserialize exception,
           pending := ← optional deserializeBool pending,
           value := ← optional some value,
           undefined := ← optional deserializeBool undefined,
           futures := ← optional (deserializeVec FutureInput.deserialize) futures }

def ResumeRequest.deserialize : Value → Option ResumeRequest
  | .object map =>
    if map.all fun member => ResumeRequest.FIELDS.contains member.1 then do
      ResumeRequest.ofFields (← field map "return") (← field map "exception")
        (← field map "pending") (← field map "value") (← field map "undefined")
        (← field map "futures")
    else none
  | .array [returnValue, exception, pending, value, undefined, futures] =>
    ResumeRequest.ofFields returnValue exception pending value undefined futures
  | _ => none

/-! ## From the body to the engine's input -/

section Input

variable [Crates]

def badValue (err : ConvertError) : ApiError :=
  .BadRequest ("invalid value: " ++ err.message)

def ExceptionInput.intoException (e : ExceptionInput) : ApiResult MontyException :=
  (exceptionFromParts e.excType e.message).mapError fun err => .BadRequest err.message

def FutureInput.intoOutcome (f : FutureInput) : ApiResult (UInt32 × FutureOutcome) :=
  match f.returnValue, f.exception with
  | some value, none => do
    let value ← (jsonToMonty value).mapError badValue
    return (f.callId, .Return value)
  | none, some exc => do
    let exc ← exc.intoException
    return (f.callId, .Raise exc)
  | _, _ => .error (.BadRequest
      ("future " ++ toString f.callId.toNat ++ " must set exactly one of `return` or `exception`"))

/-- The six presence flags `into_input` counts. -/
def ResumeRequest.set (r : ResumeRequest) : List Bool :=
  [r.returnValue.isSome, r.exception.isSome, r.pending = some true, r.value.isSome,
   r.undefined = some true, r.futures.isSome]

/-- Validates that exactly one resume action is set and converts it into an engine
`ResumeInput`. -/
def ResumeRequest.intoInput (r : ResumeRequest) : ApiResult ResumeInput :=
  if r.set.countP id ≠ 1 then
    .error (.BadRequest ("resume body must set exactly one of: `return`, `exception`, " ++
      "`pending`, `value`, `undefined`, `futures`"))
  else match r with
    | { returnValue := some value, .. } => do
      return .Return (← (jsonToMonty value).mapError badValue)
    | { exception := some exc, .. } => do
      return .Raise (← exc.intoException)
    | { pending := some true, .. } => .ok .Pending
    | { value := some value, .. } => do
      return .Name (← (jsonToMonty value).mapError badValue)
    | { undefined := some true, .. } => .ok .NameUndefined
    | { futures := some futures, .. } => do
      return .Futures (← futures.mapM FutureInput.intoOutcome)
    | _ => .error .Internal

end Input

/-! ## Views -/

/-- Why a session is paused, and the data needed to answer it. -/
inductive Pause
  | FunctionCall (callId : UInt32) (function : String) (methodCall : Bool) (args kwargs : Value)
  | NameLookup (name : String)
  | ResolveFutures (pendingCallIds : List UInt32)

/-- The `status`-tagged body of a `SessionView`. -/
inductive SessionState
  | Paused (pause : Pause) (stdout stderr : String) (stats : Stats)
  | Completed (result : Value) (stdout stderr : String) (stats : Stats)
  | Exception (exception : ApiException) (stdout stderr : String) (stats : Stats)
  | LimitExceeded (limit : String) (exception : ApiException) (stdout stderr : String)
      (stats : Stats)

/-- A session's state, as returned by create / resume / status. -/
structure SessionView where
  sessionId : Uuid
  expiresInSeconds : Nat
  state : SessionState

section Render

variable [Crates]

/-- Replaces whatever went wrong by `ApiError::Internal`. -/
def orInternal {α : Type} : Except ConvertError α → ApiResult α
  | .ok a => .ok a
  | .error _ => .error .Internal

/-- Describes the pause a live progress represents. -/
def describePause : RunProgress → ApiResult Pause
  | .FunctionCall call _ _ => do
    let args ← orInternal (montySliceToJson call.args)
    let kwargs ← orInternal (montyPairsToJson call.kwargs)
    return .FunctionCall call.callId call.functionName call.methodCall args kwargs
  | .NameLookup name _ => .ok (.NameLookup name)
  | .ResolveFutures pendingCallIds _ => .ok (.ResolveFutures pendingCallIds)
  | .OsCall .. => .error .Internal
  | .Complete .. => .error .Internal

/-- Converts a stored snapshot (plus the live progress, when paused) into the serializable
state. -/
def renderState (snapshot : StepSnapshot) (progress : Option RunProgress) :
    ApiResult SessionState :=
  match snapshot with
  | .Paused output stats =>
    -- a paused snapshot must always have its progress kept alongside it
    match progress with
    | none => .error .Internal
    | some progress => do
      let pause ← describePause progress
      return .Paused pause output.stdout output.stderr (.from stats)
  | .Completed result output stats => do
    let result ← orInternal (montyToJson result)
    return .Completed result output.stdout output.stderr (.from stats)
  | .Failed exception breach output stats =>
    .ok (match breach with
      | some breach => .LimitExceeded (breachName breach) (.from exception) output.stdout
          output.stderr (.from stats)
      | none => .Exception (.from exception) output.stdout output.stderr (.from stats))

/-- Builds the API view of a session from its stored entry, at `now`. -/
def render (id : Uuid) (entry : SessionEntry) (now : Instant) : ApiResult SessionView := do
  let state ← renderState entry.snapshot entry.progress
  return { sessionId := id,
           expiresInSeconds := Duration.asSecs (entry.expiresAt - now),
           state }

end Render

/-- Maps a session-store acquire failure to the right HTTP error. -/
def acquireError : AcquireError → ApiError
  | .NotFound => .SessionNotFound
  | .Busy => .SessionBusy
  | .Finished => .BadRequest "session has already finished and cannot be resumed"

/-- Session store sizing and lifetime. -/
structure SessionConfig where
  defaultTtl : Duration
  maxTtl : Duration
  maxSessions : Nat

/-- Resolves the session TTL: the requested value, defaulted and clamped. -/
def resolveTtl (requested : Option UInt64) (config : SessionConfig) : Duration :=
  min ((requested.map Duration.fromSecs).getD config.defaultTtl) config.maxTtl

end MontyServer
