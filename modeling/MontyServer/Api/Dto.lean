import MontyServer.Convert
import MontyServer.Engine
import MontyServer.Error

/-!
# Request and response types shared across the endpoints

`api/dto.rs`: which program a request runs (`intoSpec`), and the shape of a terminal outcome.
-/

namespace MontyServer

variable [Crates]

/-- The default script name used when a request omits `filename`. -/
def DEFAULT_FILENAME : String := "main.py"

/-- Fields that say *what* to execute. -/
structure SourceFields where
  code : Option String := none
  snapshot : Option String := none
  filename : Option String := none
  inputs : Option Value := none
  limits : Option LimitsRequest := none

/-- A validated, ready-to-execute program plus its bound inputs. -/
inductive SourceSpec
  | Code (code filename : String) (inputNames : List String) (inputs : List MontyObject)
  | Snapshot (run : MontyRun) (inputs : List MontyObject)

def badInput (err : ConvertError) : ApiError :=
  .BadRequest ("invalid input value: " ++ err.message)

/-- Decodes a base64 `MontyRun` snapshot. -/
def decodeSnapshot (snapshot : String) : ApiResult MontyRun :=
  match Crates.base64Decode snapshot with
  | .error e => .error (.BadRequest ("`snapshot` is not valid base64: " ++ e))
  | .ok bytes =>
    match Crates.load bytes with
    | .error e => .error (.BadRequest ("`snapshot` is not a valid monty snapshot: " ++ e))
    | .ok run => .ok run

/-- The loop of `inputs_for_code` over the members of the object. -/
def namedInputs : List (String × Value) → ApiResult (List String × List MontyObject)
  | [] => .ok ([], [])
  | (name, value) :: map => do
    let value ← (jsonToMonty value).mapError badInput
    let (names, values) ← namedInputs map
    return (name :: names, value :: values)

/-- Parses `inputs` for a `code` request: a JSON object of `name -> value`. -/
def inputsForCode : Option Value → ApiResult (List String × List MontyObject)
  | none => .ok ([], [])
  | some (.object map) => namedInputs map
  | some (.array []) => .ok ([], [])
  | some _ => .error (.BadRequest
      "with `code`, `inputs` must be a JSON object mapping input names to values")

/-- Parses `inputs` for a `snapshot` request: a positional JSON array. -/
def inputsForSnapshot : Option Value → ApiResult (List MontyObject)
  | none => .ok []
  | some (.array items) => items.mapM fun v => (jsonToMonty v).mapError badInput
  | some (.object []) => .ok []
  | some _ => .error (.BadRequest "with `snapshot`, `inputs` must be a positional JSON array")

/-- Validates the source fields and converts inputs into monty values. -/
def SourceFields.intoSpec (fields : SourceFields) : ApiResult SourceSpec :=
  match fields.code, fields.snapshot with
  | some _, some _ => .error (.BadRequest "provide either `code` or `snapshot`, not both")
  | none, none => .error (.BadRequest "one of `code` or `snapshot` is required")
  | some code, none => do
    let (inputNames, inputs) ← inputsForCode fields.inputs
    return .Code code (fields.filename.getD DEFAULT_FILENAME) inputNames inputs
  | none, some snapshot => do
    let run ← decodeSnapshot snapshot
    let inputs ← inputsForSnapshot fields.inputs
    return .Snapshot run inputs

/-- Observable execution counters, in the response JSON shape; the milliseconds are exact. -/
structure Stats where
  durationMs : Rat
  allocations : UInt64
  peakMemoryBytes : Usize
  deriving DecidableEq, Repr

/-- `impl From<ExecStats> for Stats`. -/
def Stats.from (stats : ExecStats) : Stats where
  durationMs := (stats.duration : Rat) / 1000000
  allocations := stats.allocations
  peakMemoryBytes := stats.peakMemoryBytes

/-- The name of a breached resource limit, for the `limit` response field. -/
def breachName : Breach → String
  | .Time => "time"
  | .Memory => "memory"
  | .Allocations => "allocations"
  | .Recursion => "recursion"

/-- A terminal execution outcome, tagged by `status`. -/
inductive Outcome
  | Completed (result : Value) (stdout stderr : String) (stats : Stats)
  | Exception (exception : ApiException) (stdout stderr : String) (stats : Stats)
  | LimitExceeded (limit : String) (exception : ApiException) (stdout stderr : String)
      (stats : Stats)
  | CompileError (exception : ApiException)

/-- `Outcome::from_exec_result`. -/
def Outcome.fromExecResult : ExecResult → ApiResult Outcome
  | .Completed result output stats =>
    match montyToJson result with
    | .error _ => .error .Internal
    | .ok result => .ok (.Completed result output.stdout output.stderr (.from stats))
  | .Failed exception breach output stats =>
    .ok (match breach with
      | some breach => .LimitExceeded (breachName breach) (.from exception) output.stdout
          output.stderr (.from stats)
      | none => .Exception (.from exception) output.stdout output.stderr (.from stats))

/-- `Outcome::compile_error`. -/
def Outcome.compileError (exception : MontyException) : Outcome :=
  .CompileError (.from exception)

def resolveLimits (request : Option LimitsRequest) (bounds : LimitBounds) : ResolvedLimits :=
  .resolve request bounds

end MontyServer
