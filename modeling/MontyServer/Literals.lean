import MontyServer.Convert

/-!
# Integer literals

`number_to_monty` decides between an integer and a float by the text that `serde_json` prints for a
number. That is the text received only if the number was kept as an integer, so the decision is the
right one exactly for the literals that fit `u64` or `i64`. With the `arbitrary_precision` feature
the text itself is kept.
-/

namespace MontyServer

variable [Crates]

/-! ## Places in a value -/

/-- One level of a value around a place where a value is decoded. An object around it is a plain
one. -/
inductive Frame
  | item (before after : List Value)
  | member (before : List (String × Value)) (key : String) (after : List (String × Value))
      (plain : before ≠ [] ∨ after ≠ [] ∨ key.toList.head? ≠ some '$')
  | tagged (tag : ArrayTag) (before after : List Value)
  | dictKey (before : List Value) (value : Value) (after : List Value)
  | dictValue (before : List Value) (key : Value) (after : List Value)

/-- The value with `v` at the place. -/
def Frame.fill (v : Value) : Frame → Value
  | item before after => .array (before ++ v :: after)
  | member before key after _ => .object (before ++ (key, v) :: after)
  | tagged tag before after => .object [(tag.name, .array (before ++ v :: after))]
  | dictKey before value after => .object [("$dict", .array (before ++ .array [v, value] :: after))]
  | dictValue before key after => .object [("$dict", .array (before ++ .array [key, v] :: after))]

/-- The object around the place if what stands there decodes to `decoded`. -/
def Frame.decode (decoded : Except ConvertError MontyObject) :
    Frame → Except ConvertError MontyObject
  | item before after => do
    let os ← jsonArrayToMonty before
    let o ← decoded
    let os' ← jsonArrayToMonty after
    return .List (os ++ o :: os')
  | member before key after _ => do
    let pairs ← membersToMonty before
    let o ← decoded
    let pairs' ← membersToMonty after
    return .Dict (pairs ++ (.String key, o) :: pairs')
  | tagged tag before after => do
    let os ← jsonArrayToMonty before
    let o ← decoded
    let os' ← jsonArrayToMonty after
    return tag.wrap (os ++ o :: os')
  | dictKey before value after => do
    let pairs ← dictEntriesToMonty before
    let o ← decoded
    let value ← jsonToMonty value
    let pairs' ← dictEntriesToMonty after
    return .Dict (pairs ++ (o, value) :: pairs')
  | dictValue before key after => do
    let pairs ← dictEntriesToMonty before
    let key ← jsonToMonty key
    let o ← decoded
    let pairs' ← dictEntriesToMonty after
    return .Dict (pairs ++ (key, o) :: pairs')

/-- A place at any depth of a value, by the levels around it from the outside in. -/
abbrev Place := List Frame

def Place.fill (place : Place) (v : Value) : Value := place.foldr (fun f v => f.fill v) v

def Place.decode (place : Place) (decoded : Except ConvertError MontyObject) :
    Except ConvertError MontyObject :=
  place.foldr (fun f r => f.decode r) decoded

/-- **Decoding goes level by level.** -/
theorem Frame.jsonToMonty_fill (f : Frame) (v : Value) :
    jsonToMonty (f.fill v) = f.decode (jsonToMonty v) := by
  cases f with
  | item before after =>
    simp [fill, decode, jsonToMonty, jsonArrayToMonty_eq_mapM, Rounds.exceptMap_eq,
      map_bind]
  | member before key after plain =>
    have htag : singleDollarTag (before ++ (key, v) :: after) = none := by
      cases before with
      | nil =>
        cases after with
        | nil => simpa [singleDollarTag] using plain
        | cons member after => rfl
      | cons member before => cases before <;> rfl
    rw [fill, jsonToMonty, objectToMonty]
    split
    · next tag body h => rw [htag] at h; cases h
    · simp [decode, membersToMonty_eq_mapM, memberToMonty, Rounds.exceptMap_eq,
      map_bind]
  | tagged tag before after =>
    cases tag <;>
      simp [fill, decode, jsonToMonty, objectToMonty, singleDollarTag, taggedToMonty, expectArray,
        ArrayTag.name, ArrayTag.wrap, jsonArrayToMonty_eq_mapM, Rounds.exceptMap_eq,
      map_bind]
  | dictKey before value after =>
    simp [fill, decode, jsonToMonty, objectToMonty, singleDollarTag, taggedToMonty, dictTagToMonty,
      dictEntriesToMonty_eq_mapM, dictEntryToMonty, Rounds.exceptMap_eq,
      map_bind]
  | dictValue before key after =>
    simp [fill, decode, jsonToMonty, objectToMonty, singleDollarTag, taggedToMonty, dictTagToMonty,
      dictEntriesToMonty_eq_mapM, dictEntryToMonty, Rounds.exceptMap_eq,
      map_bind]

theorem Place.jsonToMonty_fill (place : Place) (v : Value) :
    jsonToMonty (place.fill v) = place.decode (jsonToMonty v) := by
  induction place with
  | nil => rfl
  | cons f place ih =>
    calc jsonToMonty (f.fill (fill place v))
        = f.decode (jsonToMonty (fill place v)) := f.jsonToMonty_fill _
      _ = f.decode (decode place (jsonToMonty v)) := by rw [ih]

/-- An error at the place, or one before it, is the error of the whole. -/
theorem Frame.decode_error (f : Frame) (e : ConvertError) :
    ∃ e', f.decode (.error e) = .error e' := by
  cases f with
  | item before after => exact Rounds.bind_error fun _ => ⟨e, rfl⟩
  | member before key after plain => exact Rounds.bind_error fun _ => ⟨e, rfl⟩
  | tagged tag before after => exact Rounds.bind_error fun _ => ⟨e, rfl⟩
  | dictKey before value after => exact Rounds.bind_error fun _ => ⟨e, rfl⟩
  | dictValue before key after =>
    exact Rounds.bind_error fun _ => Rounds.bind_error fun _ => ⟨e, rfl⟩

theorem Place.decode_error (place : Place) (e : ConvertError) :
    ∃ e', place.decode (.error e) = .error e' := by
  induction place with
  | nil => exact ⟨e, rfl⟩
  | cons f place ih =>
    obtain ⟨e', he'⟩ := ih
    show ∃ e'', f.decode (decode place (.error e)) = .error e''
    rw [he']
    exact f.decode_error e'

/-! ## Integer literals -/

/-- `Number::from_f64`. -/
def Number.fromF64 (f : F64) : Option Number :=
  if h : f.isFinite = true then some (.float f h) else none

/-- A JSON integer literal. It has no leading zeros, so its sign and its magnitude give it. -/
structure IntegerLiteral where
  minus : Bool
  magnitude : Nat
  deriving DecidableEq, Repr

namespace IntegerLiteral

variable {lit : IntegerLiteral} {n : Number}

def text (lit : IntegerLiteral) : String :=
  if lit.minus then "-" ++ toString lit.magnitude else toString lit.magnitude

def value (lit : IntegerLiteral) : Int :=
  if lit.minus then -(lit.magnitude : Int) else lit.magnitude

/-- What `serde_json` stores for the literal without `arbitrary_precision`; nothing if it rejects
the whole text, for a literal out of the range of `f64`. -/
def parse (lit : IntegerLiteral) : Option Number :=
  if lit.minus = false ∧ lit.magnitude < 2 ^ 64 then some (.posInt (.ofNat lit.magnitude))
  else if lit.minus = true ∧ 0 < lit.magnitude ∧ lit.magnitude ≤ 2 ^ 63 then
    some (.negInt (.ofInt lit.value))
  else Number.fromF64 (Crates.literalAsF64 lit.text)

/-- The value is one of `i64`. -/
def Fits (lit : IntegerLiteral) : Prop := -2 ^ 63 ≤ lit.value ∧ lit.value < 2 ^ 63

/-- The literals `serde_json` keeps as integers: those of `u64` and of `i64`, but not `-0`. -/
def Kept (lit : IntegerLiteral) : Prop :=
  -2 ^ 63 ≤ lit.value ∧ lit.value < 2 ^ 64 ∧ ¬ (lit.minus = true ∧ lit.magnitude = 0)

/-- What is promised of the literal where `serde_json` stores `n` for it: at every place of a value
it is decoded to its own value if that is one of `i64`, and the whole is an error if not; and with
`arbitrary_precision` the same comes out. -/
def Exact (lit : IntegerLiteral) (n : Number) : Prop :=
  ∀ place : Place,
    (lit.Fits → ∃ i : Int64, i.toInt = lit.value ∧
      jsonToMonty (place.fill (.number n)) = place.decode (.ok (.Int i))) ∧
    (¬ lit.Fits → ∃ e, jsonToMonty (place.fill (.number n)) = .error e) ∧
    jsonToMonty (place.fill (.number n)) =
      jsonToMonty (place.fill (.number (.literal lit.text)))

instance : Decidable lit.Fits := inferInstanceAs (Decidable (_ ∧ _))

omit [Crates] in
theorem parseInt_text : Text.parseInt lit.text = some lit.value := by
  obtain ⟨minus, magnitude⟩ := lit
  cases minus with
  | false => exact Text.parseInt_toString magnitude
  | true => exact Text.parseInt_neg_toString magnitude

omit [Crates] in
/-- The text is read back as `i64` exactly if the value is one. -/
theorem parseI64_text :
    Text.parseI64 lit.text = if lit.Fits then some (Int64.ofInt lit.value) else none := by
  by_cases hfits : lit.Fits
  · rw [if_pos hfits, Text.parseI64_of_parseInt parseInt_text hfits.1 hfits.2]
  · have hbounds : ¬ decide (-2 ^ 63 ≤ lit.value ∧ lit.value < 2 ^ 63) = true :=
      fun h => hfits (of_decide_eq_true h)
    rw [Text.parseI64, parseInt_text, if_neg hfits, Option.filter_some, if_neg hbounds,
      Option.map_none]

omit [Crates] in
/-- Nothing in the text of an integer literal says that it is a float. -/
theorem floatText_text : floatText lit.text = false := by
  have hdigits : ∀ c ∈ (toString lit.magnitude).toList,
      ¬ (c = '.' || c = 'e' || c = 'E') = true := by
    intro c hc hfloat
    have hdigit := Text.isDigit_of_mem_toString hc
    simp only [Bool.or_eq_true, decide_eq_true_eq] at hfloat
    rcases hfloat with (rfl | rfl) | rfl <;> exact absurd hdigit (by decide)
  rw [floatText, List.any_eq_false]
  unfold text
  split
  · intro c hc
    rw [String.toList_append] at hc
    rcases List.mem_append.mp hc with hsign | hc
    · have hminus : c = '-' := List.mem_singleton.mp hsign
      rw [hminus]
      decide
    · exact hdigits c hc
  · exact hdigits

/-- **With `arbitrary_precision` the literal is decoded to its value or not at all.** -/
theorem numberToMonty_literal :
    numberToMonty (.literal lit.text) =
      if lit.Fits then .ok (.Int (.ofInt lit.value))
      else .error ⟨"integer " ++ lit.text ++ " is outside the supported i64 input range"⟩ := by
  by_cases hfits : lit.Fits
  · have hread : (Number.literal lit.text).asI64 = some (Int64.ofInt lit.value) := by
      rw [Number.asI64, parseI64_text, if_pos hfits]
    rw [if_pos hfits, numberToMonty_of_asI64 hread]
  · have hread : (Number.literal lit.text).asI64 = none := by
      rw [Number.asI64, parseI64_text, if_neg hfits]
    rw [if_neg hfits, numberToMonty_of_integer hread floatText_text]
    rfl

/-- A literal that is not kept becomes a float. -/
theorem parse_eq_float (hparse : lit.parse = some n) (h : ¬ lit.Kept) :
    ∃ f hf, n = .float f hf := by
  have hfloat : Number.fromF64 (Crates.literalAsF64 lit.text) = some n := by
    rw [← hparse, parse]
    by_cases hminus : lit.minus = true
    · have hvalue : lit.value = -(lit.magnitude : Int) := by rw [value, if_pos hminus]
      rw [if_neg (by simp [hminus]), if_neg]
      rintro ⟨-, hpos, hle⟩
      exact h ⟨by omega, by omega, by omega⟩
    · have hvalue : lit.value = lit.magnitude := by rw [value, if_neg hminus]
      rw [if_neg, if_neg (by simp [hminus])]
      rintro ⟨-, hlt⟩
      exact h ⟨by omega, by omega, fun hzero => hminus hzero.1⟩
  rw [Number.fromF64] at hfloat
  split at hfloat
  · next hf => exact ⟨_, hf, (Option.some.inj hfloat).symm⟩
  · cases hfloat

/-- **A literal that is kept is decoded as its own text would be.** -/
theorem numberToMonty_kept (hparse : lit.parse = some n) (h : lit.Kept) :
    numberToMonty n = numberToMonty (.literal lit.text) := by
  obtain ⟨hlow, hhigh, hzero⟩ := h
  rw [numberToMonty_literal]
  by_cases hminus : lit.minus = true
  · have hvalue : lit.value = -(lit.magnitude : Int) := by rw [value, if_pos hminus]
    have hpos : 0 < lit.magnitude := Nat.pos_of_ne_zero fun h0 => hzero ⟨hminus, h0⟩
    have hn : n = .negInt (.ofInt lit.value) := by
      rw [parse, if_neg (by simp [hminus]), if_pos ⟨hminus, hpos, by omega⟩] at hparse
      exact (Option.some.inj hparse).symm
    have hfits : lit.Fits := ⟨hlow, by omega⟩
    rw [if_pos hfits, hn]
    rfl
  · have hvalue : lit.value = lit.magnitude := by rw [value, if_neg hminus]
    have hlt : lit.magnitude < 2 ^ 64 := by omega
    have hn : n = .posInt (.ofNat lit.magnitude) := by
      rw [parse, if_pos ⟨by simpa using hminus, hlt⟩] at hparse
      exact (Option.some.inj hparse).symm
    have hnat : (UInt64.ofNat lit.magnitude).toNat = lit.magnitude :=
      UInt64.toNat_ofNat_of_lt' hlt
    have hread : n.asI64 =
        if lit.magnitude < 2 ^ 63 then some (Int64.ofNat lit.magnitude) else none := by
      rw [hn, Number.asI64, hnat]
    have htext : n.toString = lit.text := by
      rw [hn, Number.toString, hnat, text, if_neg hminus]
    by_cases hsmall : lit.magnitude < 2 ^ 63
    · have hfits : lit.Fits := ⟨hlow, by omega⟩
      rw [if_pos hsmall] at hread
      rw [if_pos hfits, numberToMonty_of_asI64 hread, hvalue]
      rfl
    · have hfits : ¬ lit.Fits := fun h => hsmall (by have := h.2; omega)
      rw [if_neg hsmall] at hread
      rw [if_neg hfits, numberToMonty_of_integer hread (htext ▸ floatText_text), htext]

end IntegerLiteral

/-- **An integer literal is decoded as promised exactly if `serde_json` keeps it as an integer.**
Any other literal, one past the range of `u64` or below that of `i64` or `-0`, is decoded to a
float. -/
theorem integer_literal_exact_iff {lit : IntegerLiteral} {n : Number}
    (hdisplay : ∀ f : F64, f.isFinite = true → floatText (Crates.displayF64 f) = true)
    (hparse : lit.parse = some n) : lit.Exact n ↔ lit.Kept := by
  constructor
  · intro hexact
    by_contra hkept
    obtain ⟨f, hf, rfl⟩ := IntegerLiteral.parse_eq_float hparse hkept
    have hfloat : jsonToMonty (.number (.float f hf)) = .ok (.Float f) := by
      rw [jsonToMonty, numberToMonty_of_float (hdisplay f hf)]
    obtain ⟨hfits, hunfit, -⟩ := hexact []
    by_cases h : lit.Fits
    · obtain ⟨i, -, hint⟩ := hfits h
      cases hfloat.symm.trans hint
    · obtain ⟨e, he⟩ := hunfit h
      cases hfloat.symm.trans he
  · intro hkept place
    have hsame := IntegerLiteral.numberToMonty_kept hparse hkept
    simp only [Place.jsonToMonty_fill, jsonToMonty, hsame]
    refine ⟨?_, ?_, trivial⟩
    · intro hfits
      refine ⟨.ofInt lit.value, Int64.toInt_ofInt_of_le hfits.1 hfits.2, ?_⟩
      rw [IntegerLiteral.numberToMonty_literal, if_pos hfits]
    · intro hfits
      rw [IntegerLiteral.numberToMonty_literal, if_neg hfits]
      exact place.decode_error _

/-- The crates on the literal `18446744073709551616`. -/
@[reducible] def Sample.numberCrates : Crates :=
  { Sample.crates with
    displayF64 := fun _ => "1.8446744073709552e19"
    literalAsF64 := fun _ => .mk 0x43F0000000000000 }

omit [Crates] in
theorem Sample.floatText_displayF64 (f : F64) :
    floatText (Sample.numberCrates.displayF64 f) = true := by
  show floatText "1.8446744073709552e19" = true
  decide

omit [Crates] in
theorem integer_literal_exact_iff_two_pow_63 :
    ∃ (_ : Crates) (n : Number), IntegerLiteral.parse ⟨false, 2 ^ 63⟩ = some n ∧
      IntegerLiteral.Exact ⟨false, 2 ^ 63⟩ n := by
  let _ := Sample.numberCrates
  refine ⟨Sample.numberCrates, .posInt (.ofNat (2 ^ 63)), rfl, ?_⟩
  exact (integer_literal_exact_iff (fun f _ => Sample.floatText_displayF64 f) rfl).mpr
    ⟨by decide, by decide, by decide⟩

omit [Crates] in
/-- `18446744073709551616` is decoded to the float `1.8446744073709552e19`. -/
theorem integer_literal_not_exact :
    ¬ ∀ (_ : Crates),
      (∀ f : F64, f.isFinite = true → floatText (Crates.displayF64 f) = true) →
      ∀ (lit : IntegerLiteral) (n : Number), lit.parse = some n → lit.Exact n := by
  intro h
  let _ := Sample.numberCrates
  have hfinite : (F64.mk 0x43F0000000000000).isFinite = true := by decide
  have hexact := h Sample.numberCrates (fun f _ => Sample.floatText_displayF64 f) ⟨false, 2 ^ 64⟩
    (.float (.mk 0x43F0000000000000) hfinite) rfl
  have hfloat : jsonToMonty (.number (.float (.mk 0x43F0000000000000) hfinite)) =
      .ok (.Float (.mk 0x43F0000000000000)) := by
    rw [jsonToMonty, numberToMonty_of_float (Sample.floatText_displayF64 _)]
  obtain ⟨-, hunfit, -⟩ := hexact []
  obtain ⟨e, he⟩ := hunfit (by decide)
  cases hfloat.symm.trans he

end MontyServer
