import MontyServer.Api.Dto

/-!
# `/v1/compile` and `/v1/run`

`api/compile.rs` and `api/run.rs`: the work of the two stateless endpoints. Neither touches a
session.
-/

namespace MontyServer

variable [Crates]

/-- Request body for `POST /v1/compile`. -/
structure CompileRequest where
  code : String
  filename : Option String := none
  inputs : Option (List String) := none

/-- Response body for `POST /v1/compile`. -/
inductive CompileResponse
  | Compiled (snapshot : String) (inputNames : List String)
  | CompileError (exception : ApiException)

/-- The work `compile` hands to `spawn_execution`. -/
def CompileRequest.work (request : CompileRequest) : ApiResult CompileResponse :=
  let filename := request.filename.getD DEFAULT_FILENAME
  let inputNames := request.inputs.getD []
  match Crates.compile request.code filename inputNames with
  | .error exc => .ok (.CompileError (.from exc))
  | .ok run =>
    match Crates.dump run with
    | .error _ => .error .Internal
    | .ok bytes => .ok (.Compiled (Crates.base64Encode bytes) inputNames)

/-- The program a `SourceSpec` runs and the values it runs on. -/
def SourceSpec.program : SourceSpec → Except MontyException (MontyRun × List MontyObject)
  | .Code code filename inputNames inputs => do
    return (← Crates.compile code filename inputNames, inputs)
  | .Snapshot run inputs => .ok (run, inputs)

/-- The work `run` hands to `spawn_execution`, and when it ends; `none` is a panic. -/
def SourceSpec.run (spec : SourceSpec) (limits : ResolvedLimits) (now : Instant) (lag : Lag) :
    Option (ApiResult Outcome) × Instant :=
  match spec.program with
  | .error exc => (some (.ok (.compileError exc)), now)
  | .ok (run, inputs) =>
    let (result, w) := runToCompletion run inputs limits now lag
    (result.map Outcome.fromExecResult, w.now)

end MontyServer
