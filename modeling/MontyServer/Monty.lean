import Mathlib.Algebra.Order.Ring.Nat
import Mathlib.Data.List.Basic

/-!
# The interpreter and the other crates, as the server sees them

`monty`, `serde_json` and `base64` are not in the repository. What the server takes from them is
collected here: the data types that cross the border, and one class, `Crates`, of the functions it
calls. Nothing is assumed about those functions; a theorem that needs a documented fact of one of
them takes it as a hypothesis.

An execution of the interpreter is a **tree** (`Execution`): a leaf is the way it ends, a node is a
thing it does that the server can notice (time passes, it prints, it calls the resource tracker),
and below a tracker call there is one branch for every answer. A paused program (`RunProgress`)
holds one such tree for every answer its client may send. An arbitrary tree is an arbitrary
interpreter, so a theorem about every tree is a theorem about whatever monty does.
-/

namespace MontyServer

/-- `usize` on the 64-bit targets the server is built for. -/
abbrev Usize := UInt64

/-- `std::time::Duration`, in nanoseconds. -/
abbrev Duration := Nat

/-- `std::time::Instant`, in nanoseconds on the monotonic clock. -/
abbrev Instant := Nat

def Duration.fromSecs (secs : UInt64) : Duration := secs.toNat * 1000000000

def Duration.fromMillis (millis : UInt64) : Duration := millis.toNat * 1000000

/-- `Duration::as_secs`: whole seconds, rounded down. -/
def Duration.asSecs (d : Duration) : Nat := d / 1000000000

theorem Duration.asSecs_mul_le (d : Duration) : Duration.asSecs d * 1000000000 ≤ d :=
  Nat.div_mul_le_self d 1000000000

/-- An `f64`, by its bits; nothing here computes with one. The NaNs are one value. -/
structure F64 where
  bits : UInt64
  oneNan : 0x7FF0000000000000 < bits.toNat % 2 ^ 63 → bits = 0x7FF8000000000000 := by decide
  deriving DecidableEq, Repr

def F64.NAN : F64 := .mk 0x7FF8000000000000
def F64.INFINITY : F64 := .mk 0x7FF0000000000000
def F64.NEG_INFINITY : F64 := .mk 0xFFF0000000000000

def F64.isFinite (f : F64) : Bool := f.bits.toNat % 2 ^ 63 < 0x7FF0000000000000

/-- The three values that are not finite. -/
theorem F64.eq_of_not_isFinite {f : F64} (h : f.isFinite = false) :
    f = NAN ∨ f = INFINITY ∨ f = NEG_INFINITY := by
  obtain ⟨bits, oneNan⟩ := f
  have hle : ¬ bits.toNat % 2 ^ 63 < 0x7FF0000000000000 := by simpa [isFinite] using h
  have hbound := bits.toNat_lt
  simp only [NAN, INFINITY, NEG_INFINITY, F64.mk.injEq]
  by_cases hnan : 0x7FF0000000000000 < bits.toNat % 2 ^ 63
  · exact .inl (oneNan hnan)
  · refine .inr ?_
    rw [← UInt64.toNat_inj, ← UInt64.toNat_inj]
    show bits.toNat = 0x7FF0000000000000 ∨ bits.toNat = 0xFFF0000000000000
    omega

/-! ## JSON -/

/-- `serde_json::Number`: one of the first three without the `arbitrary_precision` feature, and the
text of the literal with it. -/
inductive Number
  | posInt (n : UInt64)
  | negInt (i : Int64)
  | float (f : F64) (finite : f.isFinite = true)
  | literal (text : String)
  deriving DecidableEq, Repr

/-- `serde_json::Value`; the members of an object stand in the map's iteration order. -/
inductive Value
  | null
  | bool (b : Bool)
  | number (n : Number)
  | string (s : String)
  | array (items : List Value)
  | object (map : List (String × Value))

/-! ## Values and exceptions -/

/-- `monty::MontyObject`. `Other` stands for the variants the server never builds itself. -/
inductive MontyObject
  | None
  | Ellipsis
  | Bool (b : Bool)
  | Int (i : Int64)
  | Float (f : F64)
  | String (s : String)
  | Bytes (bytes : List UInt8)
  | List (items : List MontyObject)
  | Tuple (items : List MontyObject)
  | Set (items : List MontyObject)
  | FrozenSet (items : List MontyObject)
  | Dict (pairs : List (MontyObject × MontyObject))
  | Function (name : String) (docstring : Option String)
  | Path (path : String)
  | Other (repr : String)

/-- `monty::ExcType`, by its Python name. -/
structure ExcType where
  name : String
  deriving DecidableEq, Repr

def ExcType.PermissionError : ExcType := ⟨"PermissionError"⟩

/-- `monty::ResourceError`: what a tracker answers when it refuses a call. -/
inductive ResourceError
  | Allocation (limit count : Usize)
  | Memory (limit used : Usize)
  | Time (limit elapsed : Duration)
  | Recursion (limit depth : Usize)
  deriving DecidableEq, Repr

structure CodeLoc where
  line : UInt32
  column : UInt32
  deriving DecidableEq, Repr

structure StackFrame where
  filename : String
  frameName : Option String
  start : CodeLoc
  stop : CodeLoc
  previewLine : Option String
  deriving DecidableEq, Repr

/-- `monty::MontyException`. `refusal` is not a field of the crate's type: it keeps where the
exception comes from, the tracker's refusal monty turned into it, or `none` for one the program
or the client raised. No definition of the server reads it. -/
structure MontyException where
  excType : ExcType
  message : Option String
  traceback : List StackFrame := []
  refusal : Option ResourceError := none
  deriving DecidableEq, Repr

/-- `MontyException::new`. -/
def MontyException.new (excType : ExcType) (message : Option String) : MontyException :=
  { excType, message }

/-! ## Executions -/

inductive PrintStream
  | Stdout
  | Stderr
  deriving DecidableEq, Repr

/-- A call of one of the `monty::ResourceTracker` methods that can change the tracker. -/
inductive TrackerCall
  | onAllocate (size : Usize)
  | onFree (size : Usize)
  | onGrow (additionalBytes : Usize)
  | checkTime
  | checkRecursionDepth (currentDepth : Usize)
  | checkLargeResult (estimatedBytes : Usize)
  deriving DecidableEq, Repr

/-- What a tracker call returns. -/
abbrev Answer := Except ResourceError Unit

/-- Everything an execution does until it returns an `α`, raises or panics. -/
inductive Execution (α : Type)
  | ret (a : α)
  | raise (exc : MontyException)
  | panic
  | elapse (d : Duration) (rest : Execution α)
  | print (stream : PrintStream) (text : String) (rest : Execution α)
  | call (c : TrackerCall) (answered : Answer → Execution α)

inductive ExtFunctionResult
  | Return (value : MontyObject)
  | Error (exc : MontyException)

inductive NameLookupResult
  | Value (value : MontyObject)
  | Undefined

/-- The public fields of `monty::FunctionCall`. -/
structure FunctionCall where
  callId : UInt32
  functionName : String
  methodCall : Bool
  args : List MontyObject
  kwargs : List (MontyObject × MontyObject)

/-- `monty::RunProgress`: a settled program, with its consuming `resume` as one more field. -/
inductive RunProgress
  | FunctionCall (call : FunctionCall) (resume : ExtFunctionResult → Execution RunProgress)
      (resumePending : Execution RunProgress)
  | OsCall (resume : ExtFunctionResult → Execution RunProgress)
  | NameLookup (name : String) (resume : NameLookupResult → Execution RunProgress)
  | ResolveFutures (pendingCallIds : List UInt32)
      (resume : List (UInt32 × ExtFunctionResult) → Execution RunProgress)
  | Complete (result : MontyObject)

/-- `monty::MontyRun`, a compiled program, by the executions of its two entry points. -/
structure MontyRun where
  run : List MontyObject → Execution MontyObject
  start : List MontyObject → Execution RunProgress

/-! ## The functions of the other crates -/

class Crates where
  /-- `MontyRun::new(code, filename, input_names)`. -/
  compile : String → String → List String → Except MontyException MontyRun
  /-- `MontyRun::dump`. -/
  dump : MontyRun → Except String (List UInt8)
  /-- `MontyRun::load`. -/
  load : List UInt8 → Except String MontyRun
  /-- `<ExcType as FromStr>::from_str`. -/
  parseExcType : String → Option ExcType
  /-- `MontyException::summary`. -/
  summary : MontyException → String
  /-- `<MontyException as Display>::to_string`. -/
  display : MontyException → String
  /-- `serde_json::to_value(JsonMontyObject(object))`. -/
  toValue : MontyObject → Except String Value
  /-- `serde_json::to_value(JsonMontyArray(objects))`. -/
  toValueArray : List MontyObject → Except String Value
  /-- `<Number as Display>::to_string` of a number that holds an `f64`. -/
  displayF64 : F64 → String
  /-- `n as f64`. -/
  u64AsF64 : UInt64 → F64
  /-- `i as f64`. -/
  i64AsF64 : Int64 → F64
  /-- `f64::from_str`. -/
  parseF64 : String → Option F64
  /-- The `f64` that `serde_json` reads an integer literal as when it cannot keep it as an integer;
  infinite when the literal is out of range. -/
  literalAsF64 : String → F64
  /-- `format!("{s:?}")`: the quoted string with its escapes. -/
  debug : String → String
  /-- `BASE64.encode`. -/
  base64Encode : List UInt8 → String
  /-- `BASE64.decode`. -/
  base64Decode : String → Except String (List UInt8)

/-! ## A sample interpreter

Enough of the crates to run two programs the way monty does. In `await add(2, 3)` the unknown name
`add` is looked up, the host function it resolves to is called, and where the call is left pending
its future is awaited, whose outcome is the result; a value that is there at once cannot be awaited.
The other falls back from one unknown name to a second. -/

namespace Sample

/-- `await add(2, 3)` once `add` is a host function. -/
def callAdd : Execution RunProgress :=
  .ret (.FunctionCall ⟨0, "add", false, [.Int 2, .Int 3], []⟩
    (fun | .Return _ => .raise (.new ⟨"TypeError"⟩ (some "object can't be awaited"))
         | .Error exc => .raise exc)
    (.ret (.ResolveFutures [0] fun
      | [(0, .Return value)] => .ret (.Complete value)
      | [(0, .Error exc)] => .raise exc
      | _ => .raise (.new ⟨"RuntimeError"⟩ none))))

/-- `await add(2, 3)` from the start. -/
def lookupAdd : Execution RunProgress :=
  .ret (.NameLookup "add" fun
    | .Value (.Function _ _) => callAdd
    | .Value _ => .raise (.new ⟨"TypeError"⟩ (some "object is not callable"))
    | .Undefined => .raise (.new ⟨"NameError"⟩ (some "name 'add' is not defined")))

def addRun : MontyRun where
  run := fun _ => .raise (.new ⟨"NameError"⟩ (some "name 'add' is not defined"))
  start := fun _ => lookupAdd

/-- `try: x` and `except NameError: y`. -/
def fallbackRun : MontyRun where
  run := fun _ => .raise (.new ⟨"NameError"⟩ (some "name 'y' is not defined"))
  start := fun _ => .ret (.NameLookup "x" fun
    | .Value value => .ret (.Complete value)
    | .Undefined => .ret (.NameLookup "y" fun
      | .Value value => .ret (.Complete value)
      | .Undefined => .raise (.new ⟨"NameError"⟩ (some "name 'y' is not defined"))))

/-- Bytes as text, one character for each; the empty text for no bytes. -/
def encodeBytes (bytes : List UInt8) : String := String.ofList (bytes.map Char.ofUInt8)

def decodeBytes (s : String) : Except String (List UInt8) := .ok (s.toList.map Char.toUInt8)

theorem decodeBytes_encodeBytes (bytes : List UInt8) :
    decodeBytes (encodeBytes bytes) = .ok bytes := by
  have hbyte : ∀ b : UInt8, (Char.ofUInt8 b).toUInt8 = b := fun b => UInt8.toUInt8_toUInt32 b
  rw [decodeBytes, encodeBytes, String.toList_ofList, List.map_map]
  simp [Function.comp_def, hbyte]

@[reducible] def crates : Crates where
  compile := fun code _ _ =>
    if code = "await add(2, 3)" then .ok addRun
    else if code = "try: x\nexcept NameError: y" then .ok fallbackRun
    else .error (.new ⟨"SyntaxError"⟩ none)
  dump := fun _ => .error "not a sample"
  load := fun _ => .error "not a sample"
  parseExcType := fun name =>
    if name = "ValueError" ∨ name = "TypeError" then some ⟨name⟩ else none
  summary := fun exc => exc.excType.name
  display := fun exc => exc.excType.name
  toValue := fun
    | .Bool b => .ok (.bool b)
    | .Int i =>
      .ok (.number (if 0 ≤ i.toInt then .posInt (UInt64.ofNat i.toInt.toNat) else .negInt i))
    | .String s => .ok (.string s)
    | _ => .ok .null
  toValueArray := fun _ => .ok (.array [])
  displayF64 := fun _ => "0.0"
  u64AsF64 := fun _ => .mk 0
  i64AsF64 := fun _ => .mk 0
  parseF64 := fun _ => none
  literalAsF64 := fun _ => .mk 0
  debug := fun s => s
  base64Encode := encodeBytes
  base64Decode := decodeBytes

end Sample

end MontyServer
