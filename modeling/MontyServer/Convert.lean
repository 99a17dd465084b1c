import MontyServer.Lib.Rounds
import MontyServer.Lib.Text
import MontyServer.Monty

/-!
# Converting between JSON and monty's values

`convert.rs`. Decoding (`jsonToMonty`) is the server's own code: JSON-native values map directly,
a single-key object whose key starts with `$` is a tagged special form, every other object a
string-keyed dict. Encoding is monty's serializer and comes from `Crates`.
-/

namespace MontyServer

variable [Crates]

/-- A value could not be converted between JSON and monty's representation. -/
structure ConvertError where
  message : String
  deriving DecidableEq, Repr

/-! ## Numbers -/

/-- `Number::as_i64`. -/
def Number.asI64 : Number → Option Int64
  | .posInt n => if n.toNat < 2 ^ 63 then some (Int64.ofNat n.toNat) else none
  | .negInt i => some i
  | .float .. => none
  | .literal text => Text.parseI64 text

/-- `Number::as_u64`. -/
def Number.asU64 : Number → Option UInt64
  | .posInt n => some n
  | .negInt _ | .float .. => none
  | .literal text => Text.parseU64 text

/-- `Number::as_f64`. -/
def Number.asF64 : Number → Option F64
  | .posInt n => some (Crates.u64AsF64 n)
  | .negInt i => some (Crates.i64AsF64 i)
  | .float f _ => some f
  | .literal text => (Crates.parseF64 text).filter F64.isFinite

/-- `Number::to_string`. -/
def Number.toString : Number → String
  | .posInt n => ToString.toString n.toNat
  | .negInt i => ToString.toString i.toInt
  | .float f _ => Crates.displayF64 f
  | .literal text => text

/-- `literal.contains(['.', 'e', 'E'])`: the text is that of a float. -/
def floatText (literal : String) : Bool :=
  literal.toList.any fun c => c = '.' || c = 'e' || c = 'E'

def numberToMonty (n : Number) : Except ConvertError MontyObject :=
  match n.asI64 with
  | some i => .ok (.Int i)
  | none =>
    let literal := n.toString
    if floatText literal then
      match n.asF64 with
      | some f => .ok (.Float f)
      | none => .error ⟨"unsupported JSON number: " ++ literal⟩
    else .error ⟨"integer " ++ literal ++ " is outside the supported i64 input range"⟩

/-- An integer of `i64` is decoded to itself. -/
theorem numberToMonty_of_asI64 {n : Number} {i : Int64} (h : n.asI64 = some i) :
    numberToMonty n = .ok (.Int i) := by
  rw [numberToMonty, h]

/-- A number without `.` and `e` is an integer, and rejected if it is not one of `i64`. -/
theorem numberToMonty_of_integer {n : Number} (h : n.asI64 = none)
    (htext : floatText n.toString = false) :
    numberToMonty n =
      .error ⟨"integer " ++ n.toString ++ " is outside the supported i64 input range"⟩ := by
  rw [numberToMonty, h]
  show (if floatText n.toString = true then _ else _) = _
  rw [htext]
  rfl

/-- A number with `.` or `e` is a float. -/
theorem numberToMonty_of_float {f : F64} {hf : f.isFinite = true}
    (h : floatText (Crates.displayF64 f) = true) :
    numberToMonty (.float f hf) = .ok (.Float f) := by
  show (if floatText (Crates.displayF64 f) = true then _ else _) = _
  rw [h]
  rfl

/-! ## Tagged forms without nested values -/

/-- `Value::as_str`. -/
def Value.asStr : Value → Option String
  | .string s => some s
  | _ => none

/-- `Value::as_u64`. -/
def Value.asU64 : Value → Option UInt64
  | .number n => n.asU64
  | _ => none

/-- The loop of `bytes_to_monty` over an array. -/
def bytesOfArray : List Value → Except ConvertError (List UInt8)
  | [] => .ok []
  | item :: items =>
    match item.asU64.filter (· ≤ 255) with
    | none => .error ⟨"$bytes array contains a non-byte value"⟩
    | some byte => (bytesOfArray items).map (byte.toUInt8 :: ·)

/-- Accepts `bytes` as either a base64 string or an array of byte-valued integers. -/
def bytesToMonty : Value → Except ConvertError MontyObject
  | .string encoded =>
    match Crates.base64Decode encoded with
    | .ok bytes => .ok (.Bytes bytes)
    | .error e => .error ⟨"$bytes is not valid base64: " ++ e⟩
  | .array items => (bytesOfArray items).map .Bytes
  | _ => .error ⟨"$bytes expects a base64 string or an array of bytes"⟩

def floatTagToMonty (body : Value) : Except ConvertError MontyObject :=
  match body.asStr with
  | some s =>
    if s = "nan" then .ok (.Float F64.NAN)
    else if s = "inf" then .ok (.Float F64.INFINITY)
    else if s = "-inf" then .ok (.Float F64.NEG_INFINITY)
    else .error ⟨"$float expects \"nan\", \"inf\", or \"-inf\""⟩
  | none => .error ⟨"$float expects \"nan\", \"inf\", or \"-inf\""⟩

def functionTagToMonty (body : Value) : Except ConvertError MontyObject :=
  match body.asStr with
  | some name => .ok (.Function name none)
  | none => .error ⟨"$function expects a function name string"⟩

def pathTagToMonty (body : Value) : Except ConvertError MontyObject :=
  match body.asStr with
  | some path => .ok (.Path path)
  | none => .error ⟨"$path expects a path string"⟩

/-! ## The decoder -/

/-- Returns the `(tag, body)` of a single-key object whose key starts with `$`. -/
def singleDollarTag : List (String × Value) → Option (String × Value)
  | [(key, value)] => if key.toList.head? = some '$' then some (key, value) else none
  | _ => none

omit [Crates] in
theorem singleDollarTag_eq_some {map : List (String × Value)} {tag : String} {body : Value}
    (h : singleDollarTag map = some (tag, body)) : map = [(tag, body)] := by
  match map with
  | [] => simp [singleDollarTag] at h
  | [(key, value)] =>
    simp only [singleDollarTag, Option.ite_none_right_eq_some, Option.some.injEq,
      Prod.mk.injEq] at h
    rw [h.2.1, h.2.2]
  | _ :: _ :: _ => simp [singleDollarTag] at h

-- the second measure orders the calls that pass the same value on
mutual
def jsonToMonty : Value → Except ConvertError MontyObject
  | .null => .ok .None
  | .bool b => .ok (.Bool b)
  | .number n => numberToMonty n
  | .string s => .ok (.String s)
  | .array items => (jsonArrayToMonty items).map .List
  | .object map => objectToMonty map
termination_by v => (sizeOf v, 0)

def jsonArrayToMonty : List Value → Except ConvertError (List MontyObject)
  | [] => .ok []
  | item :: items => do
    let o ← jsonToMonty item
    let os ← jsonArrayToMonty items
    return o :: os
termination_by items => (sizeOf items, 0)

/-- Either a single-key `$`-tagged special form, or a plain object that becomes a string-keyed
dict. -/
def objectToMonty (map : List (String × Value)) : Except ConvertError MontyObject :=
  match h : singleDollarTag map with
  | some (tag, body) =>
    have : sizeOf body < sizeOf map := by
      rw [singleDollarTag_eq_some h]; simp; omega
    taggedToMonty tag body
  | none => (membersToMonty map).map .Dict
termination_by (sizeOf map, 1)

/-- The loop of `object_to_monty` over a plain object. -/
def membersToMonty : List (String × Value) → Except ConvertError (List (MontyObject × MontyObject))
  | [] => .ok []
  | (key, value) :: map => do
    let o ← jsonToMonty value
    let pairs ← membersToMonty map
    return (.String key, o) :: pairs
termination_by map => (sizeOf map, 0)

def taggedToMonty (tag : String) (body : Value) : Except ConvertError MontyObject :=
  if tag = "$tuple" then (expectArray tag body).map .Tuple
  else if tag = "$set" then (expectArray tag body).map .Set
  else if tag = "$frozenset" then (expectArray tag body).map .FrozenSet
  else if tag = "$bytes" then bytesToMonty body
  else if tag = "$ellipsis" then .ok .Ellipsis
  else if tag = "$float" then floatTagToMonty body
  else if tag = "$dict" then dictTagToMonty body
  else if tag = "$function" then functionTagToMonty body
  else if tag = "$path" then pathTagToMonty body
  else .error ⟨"unsupported tagged value " ++ Crates.debug tag⟩
termination_by (sizeOf body, 2)

def expectArray (tag : String) : Value → Except ConvertError (List MontyObject)
  | .array items => jsonArrayToMonty items
  | _ => .error ⟨tag ++ " expects an array"⟩
termination_by body => (sizeOf body, 0)

def dictTagToMonty : Value → Except ConvertError MontyObject
  | .array entries => (dictEntriesToMonty entries).map .Dict
  | _ => .error ⟨"$dict expects an array of [key, value] pairs"⟩
termination_by body => (sizeOf body, 0)

/-- The loop of `dict_tag_to_monty` over the entries. -/
def dictEntriesToMonty : List Value → Except ConvertError (List (MontyObject × MontyObject))
  | [] => .ok []
  | .array [k, v] :: entries => do
    let key ← jsonToMonty k
    let value ← jsonToMonty v
    let pairs ← dictEntriesToMonty entries
    return (key, value) :: pairs
  | _ :: _ => .error ⟨"$dict entries must be [key, value] pairs"⟩
termination_by entries => (sizeOf entries, 0)
end

/-! ## The decoder's loops -/

/-- An entry of a `$dict` body. -/
def dictEntryToMonty : Value → Except ConvertError (MontyObject × MontyObject)
  | .array [k, v] => do
    let key ← jsonToMonty k
    let value ← jsonToMonty v
    return (key, value)
  | _ => .error ⟨"$dict entries must be [key, value] pairs"⟩

/-- A member of a plain object. -/
def memberToMonty (member : String × Value) : Except ConvertError (MontyObject × MontyObject) := do
  let o ← jsonToMonty member.2
  return (.String member.1, o)

theorem jsonArrayToMonty_eq_mapM (items : List Value) :
    jsonArrayToMonty items = items.mapM jsonToMonty := by
  induction items with
  | nil => simp [jsonArrayToMonty]; rfl
  | cons item items ih => rw [jsonArrayToMonty, ih, List.mapM_cons]

theorem membersToMonty_eq_mapM (map : List (String × Value)) :
    membersToMonty map = map.mapM memberToMonty := by
  induction map with
  | nil => simp [membersToMonty]; rfl
  | cons member map ih =>
    rw [membersToMonty, ih, List.mapM_cons]
    simp [memberToMonty]

theorem dictEntriesToMonty_eq_mapM (entries : List Value) :
    dictEntriesToMonty entries = entries.mapM dictEntryToMonty := by
  induction entries with
  | nil => simp [dictEntriesToMonty]; rfl
  | cons entry entries ih =>
    rw [List.mapM_cons, ← ih]
    by_cases hpair : ∃ k v, entry = .array [k, v]
    · obtain ⟨k, v, rfl⟩ := hpair
      simp [dictEntriesToMonty, dictEntryToMonty]
    · have hentry : dictEntryToMonty entry =
          .error ⟨"$dict entries must be [key, value] pairs"⟩ := by
        unfold dictEntryToMonty
        split
        · exact absurd ⟨_, _, rfl⟩ hpair
        · rfl
      rw [hentry, dictEntriesToMonty]
      · rfl
      · exact fun k v h => hpair ⟨k, v, h⟩

/-- The three tags whose body is the array of the elements. -/
inductive ArrayTag
  | tuple
  | set
  | frozenset
  deriving DecidableEq, Repr

def ArrayTag.name : ArrayTag → String
  | tuple => "$tuple"
  | set => "$set"
  | frozenset => "$frozenset"

def ArrayTag.wrap : ArrayTag → List MontyObject → MontyObject
  | tuple => .Tuple
  | set => .Set
  | frozenset => .FrozenSet

/-! ## Encoding -/

def montyToJson (object : MontyObject) : Except ConvertError Value :=
  match Crates.toValue object with
  | .ok v => .ok v
  | .error e => .error ⟨"failed to encode result as JSON: " ++ e⟩

def montySliceToJson (objects : List MontyObject) : Except ConvertError Value :=
  match Crates.toValueArray objects with
  | .ok v => .ok v
  | .error e => .error ⟨"failed to encode values as JSON: " ++ e⟩

/-- `Map::insert`: the map is a `BTreeMap`, iterated in key order, and a later entry of the same
key replaces the earlier one. -/
def mapInsert (map : List (String × Value)) (key : String) (value : Value) :
    List (String × Value) :=
  match map with
  | [] => [(key, value)]
  | (k, v) :: rest =>
    if key = k then (key, value) :: rest
    else if key < k then (key, value) :: (k, v) :: rest
    else (k, v) :: mapInsert rest key value

/-- The loop of `monty_pairs_to_json`. -/
def montyPairsToMap (map : List (String × Value)) :
    List (MontyObject × MontyObject) → Except ConvertError (List (String × Value))
  | [] => .ok map
  | (.String name, value) :: pairs => do
    let value ← montyToJson value
    montyPairsToMap (mapInsert map name value) pairs
  | _ :: _ => .error ⟨"keyword argument name was not a string"⟩

/-- Converts monty key/value pairs (e.g. call kwargs) into a JSON object. -/
def montyPairsToJson (pairs : List (MontyObject × MontyObject)) : Except ConvertError Value :=
  (montyPairsToMap [] pairs).map .object

/-! ## Exceptions -/

/-- One frame of a structured traceback. -/
structure ApiFrame where
  filename : String
  function : Option String
  line : UInt32
  column : UInt32
  endLine : UInt32
  endColumn : UInt32
  source : Option String
  deriving DecidableEq, Repr

/-- A monty exception in a stable, client-friendly JSON shape. -/
structure ApiException where
  excType : String
  message : Option String
  summary : String
  traceback : List ApiFrame
  tracebackText : String
  deriving DecidableEq, Repr

/-- `impl From<&monty::StackFrame> for ApiFrame`. -/
def ApiFrame.from (frame : StackFrame) : ApiFrame where
  filename := frame.filename
  function := frame.frameName
  line := frame.start.line
  column := frame.start.column
  endLine := frame.stop.line
  endColumn := frame.stop.column
  source := frame.previewLine

/-- `impl From<&MontyException> for ApiException`. -/
def ApiException.from (exc : MontyException) : ApiException where
  excType := exc.excType.name
  message := exc.message
  summary := Crates.summary exc
  traceback := exc.traceback.map ApiFrame.from
  tracebackText := Crates.display exc

/-- Builds a monty exception from a client-supplied `{type, message}` pair. -/
def exceptionFromParts (excType : String) (message : Option String) :
    Except ConvertError MontyException :=
  match Crates.parseExcType excType with
  | some parsed => .ok (.new parsed message)
  | none => .error ⟨"unknown exception type " ++ Crates.debug excType⟩

end MontyServer
