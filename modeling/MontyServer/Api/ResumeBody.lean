import MontyServer.Api.Sessions

/-!
# What a resume body can carry

A resume body holds a value under `return` or `value`, or a list of future results. The README
promises that any JSON value can be returned. Whether a member is there is read off an
`Option<Value>`, and serde makes `None` of a member whose value is `null`, so the bodies that carry
a bare `null` are taken for bodies that carry nothing: they are rejected, and Python's `None` cannot
be sent back. Every other value arrives.
-/

namespace MontyServer

variable [Crates]

/-- What `resume` makes of a body before it looks at any session; `none` is a body the extractor
rejects. -/
def resumeInput (body : Value) : Option (ApiResult ResumeInput) :=
  (ResumeRequest.deserialize body).map ResumeRequest.intoInput

/-- An entry of a `futures` answer, as the README writes it. -/
inductive FutureAnswer
  | returned (callId : UInt32) (v : Value)
  | raised (callId : UInt32) (e : Value)

/-- The JSON of an entry. -/
def FutureAnswer.body : FutureAnswer → Value
  | .returned callId v =>
    .object [("call_id", .number (.posInt callId.toUInt64)), ("return", v)]
  | .raised callId e =>
    .object [("call_id", .number (.posInt callId.toUInt64)), ("exception", e)]

/-- The outcome an entry stands for: its value decoded, or its exception if the type is known. -/
def FutureAnswer.outcome : FutureAnswer → Option (UInt32 × FutureOutcome)
  | .returned callId v =>
    match jsonToMonty v with
    | .ok o => some (callId, .Return o)
    | .error _ => none
  | .raised callId e => do
    let e ← ExceptionInput.deserialize e
    match e.intoException with
    | .ok exc => some (callId, .Raise exc)
    | .error _ => none

/-- An entry that returns a bare `null`. -/
def FutureAnswer.ReturnsNull : FutureAnswer → Prop
  | .returned _ v => v = .null
  | .raised .. => False

/-! ## `Option` fields -/

omit [Crates] in
/-- `null` is the one value an optional field loses. -/
theorem optional_some {α : Type} (de : Value → Option α) {v : Value} (hv : v ≠ .null) :
    optional de (some v) = (de v).map some := by
  cases v with
  | null => exact absurd rfl hv
  | _ => rfl

omit [Crates] in
@[simp] theorem optional_null {α : Type} (de : Value → Option α) :
    optional de (some .null) = some none := rfl

omit [Crates] in
@[simp] theorem optional_none {α : Type} (de : Value → Option α) :
    optional de none = some none := rfl

omit [Crates] in
theorem deserializeU32_posInt (c : UInt32) :
    deserializeU32 (.number (.posInt c.toUInt64)) = some c := by
  have hc : c.toUInt64.toNat < UInt32.size := by simpa using c.toNat_lt
  rw [deserializeU32, if_pos hc]
  simp

/-! ## One member -/

/-- A body `{"return": v}`. -/
theorem resumeInput_return {v : Value} (hv : v ≠ .null) :
    resumeInput (.object [("return", v)]) =
      some (do return .Return (← (jsonToMonty v).mapError badValue)) := by
  simp [resumeInput, ResumeRequest.deserialize, ResumeRequest.FIELDS, ResumeRequest.ofFields,
    field, optional_some _ hv, ResumeRequest.intoInput, ResumeRequest.set]

/-- A body `{"value": v}`. -/
theorem resumeInput_value {v : Value} (hv : v ≠ .null) :
    resumeInput (.object [("value", v)]) =
      some (do return .Name (← (jsonToMonty v).mapError badValue)) := by
  simp [resumeInput, ResumeRequest.deserialize, ResumeRequest.FIELDS, ResumeRequest.ofFields,
    field, optional_some _ hv, ResumeRequest.intoInput, ResumeRequest.set]

/-- A body `{"return": null}` or `{"value": null}` sets nothing. -/
theorem resumeInput_null {name : String} (hname : name = "return" ∨ name = "value") :
    ∃ message, resumeInput (.object [(name, .null)]) = some (.error (.BadRequest message)) := by
  rcases hname with rfl | rfl <;>
    simp [resumeInput, ResumeRequest.deserialize, ResumeRequest.FIELDS, ResumeRequest.ofFields,
      field, ResumeRequest.intoInput, ResumeRequest.set]

/-- A body `{"futures": [...]}`. -/
theorem resumeInput_futures (items : List Value) :
    resumeInput (.object [("futures", .array items)]) =
      (items.mapM FutureInput.deserialize).map fun futures =>
        (do return .Futures (← futures.mapM FutureInput.intoOutcome)) := by
  have hnull : Value.array items ≠ .null := by simp
  cases h : items.mapM FutureInput.deserialize with
  | none =>
    simp [resumeInput, ResumeRequest.deserialize, ResumeRequest.FIELDS, ResumeRequest.ofFields,
      field, optional_some _ hnull, deserializeVec, h]
  | some futures =>
    simp [resumeInput, ResumeRequest.deserialize, ResumeRequest.FIELDS, ResumeRequest.ofFields,
      field, optional_some _ hnull, deserializeVec, h, ResumeRequest.intoInput, ResumeRequest.set]

/-! ## The entries of `futures` -/

/-- An entry with an outcome is understood, and unless it returns `null` it becomes that
outcome. -/
theorem FutureAnswer.deserialize_body {a : FutureAnswer} {out : UInt32 × FutureOutcome}
    (h : a.outcome = some out) :
    ∃ f, FutureInput.deserialize a.body = some f ∧
      (¬ a.ReturnsNull → f.intoOutcome = .ok out) ∧
      (a.ReturnsNull → ∃ e, f.intoOutcome = .error e) := by
  cases a with
  | returned callId v =>
    simp only [FutureAnswer.outcome] at h
    split at h
    · next o ho =>
      cases h
      by_cases hv : v = .null
      · subst hv
        refine ⟨⟨callId, none, none⟩, ?_, fun hn => absurd rfl hn, fun _ => ⟨_, rfl⟩⟩
        simp [FutureAnswer.body, FutureInput.deserialize, FutureInput.ofFields, field, required,
          deserializeU32_posInt]
      · refine ⟨⟨callId, some v, none⟩, ?_, ?_, fun hn => absurd hn hv⟩
        · simp [FutureAnswer.body, FutureInput.deserialize, FutureInput.ofFields, field, required,
            deserializeU32_posInt, optional_some _ hv]
        · intro _
          simp only [FutureInput.intoOutcome, ho]
          rfl
    · cases h
  | raised callId e =>
    simp only [FutureAnswer.outcome, Option.bind_eq_bind, Option.bind_eq_some_iff] at h
    obtain ⟨x, hx, h⟩ := h
    split at h
    · next exc hexc =>
      cases h
      have he : e ≠ .null := by
        rintro rfl
        simp [ExceptionInput.deserialize] at hx
      refine ⟨⟨callId, none, some x⟩, ?_, ?_, fun hn => hn.elim⟩
      · simp [FutureAnswer.body, FutureInput.deserialize, FutureInput.ofFields, field, required,
          deserializeU32_posInt, optional_some _ he, hx]
      · intro _
        simp only [FutureInput.intoOutcome, hexc]
        rfl
    · cases h

/-- A list of entries becomes its outcomes, in order, exactly if no entry returns `null`; by
induction on the list, the entry's own case above at the head. -/
theorem futures_arrive_iff {answers : List FutureAnswer} {outs : List (UInt32 × FutureOutcome)}
    (h : answers.mapM FutureAnswer.outcome = some outs) :
    ∃ futures, (answers.map FutureAnswer.body).mapM FutureInput.deserialize = some futures ∧
      (futures.mapM FutureInput.intoOutcome = .ok outs ↔ ∀ a ∈ answers, ¬ a.ReturnsNull) := by
  induction answers generalizing outs with
  | nil =>
    simp only [List.mapM_nil, Option.pure_def, Option.some.injEq] at h
    subst h
    exact ⟨[], rfl, by simp [pure, Except.pure]⟩
  | cons a answers ih =>
    simp only [List.mapM_cons, Option.bind_eq_bind, Option.pure_def, Option.bind_eq_some_iff,
      Option.some.injEq] at h
    obtain ⟨out, hout, outs', houts, rfl⟩ := h
    obtain ⟨f, hf, hok, herr⟩ := FutureAnswer.deserialize_body hout
    obtain ⟨futures, hfs, hiff⟩ := ih houts
    refine ⟨f :: futures, by simp [hf, hfs], ?_⟩
    rw [List.mapM_cons, List.forall_mem_cons]
    by_cases hn : a.ReturnsNull
    · obtain ⟨e, he⟩ := herr hn
      simp [he, hn, bind, Except.bind]
    · rw [hok hn, ← hiff]
      cases hm : futures.mapM FutureInput.intoOutcome with
      | error e => simp [bind, Except.bind]
      | ok os => simp [bind, Except.bind, pure, Except.pure, hn]

/-! ## What arrives -/

/-- **Every value but a bare `null` arrives.** A decodable value sent under `return` or `value`, or
a list of future results of any length, becomes the resume input it stands for exactly if it is not
`null` and none of the entries returns `null`. -/
theorem resume_body_arrives_iff_not_null :
    (∀ v o, jsonToMonty v = .ok o →
      (resumeInput (.object [("return", v)]) = some (.ok (.Return o)) ↔ v ≠ .null)) ∧
    (∀ v o, jsonToMonty v = .ok o →
      (resumeInput (.object [("value", v)]) = some (.ok (.Name o)) ↔ v ≠ .null)) ∧
    (∀ (answers : List FutureAnswer) (outs : List (UInt32 × FutureOutcome)),
      answers.mapM FutureAnswer.outcome = some outs →
      (resumeInput (.object [("futures", .array (answers.map FutureAnswer.body))]) =
        some (.ok (.Futures outs)) ↔ ∀ a ∈ answers, ¬ a.ReturnsNull)) := by
  refine ⟨fun v o ho => ⟨?_, fun hv => ?_⟩, fun v o ho => ⟨?_, fun hv => ?_⟩, ?_⟩
  · rintro h rfl
    obtain ⟨message, hm⟩ := resumeInput_null (.inl rfl)
    rw [hm] at h
    cases h
  · rw [resumeInput_return hv, ho]
    rfl
  · rintro h rfl
    obtain ⟨message, hm⟩ := resumeInput_null (.inr rfl)
    rw [hm] at h
    cases h
  · rw [resumeInput_value hv, ho]
    rfl
  · intro answers outs h
    obtain ⟨futures, hfs, hiff⟩ := futures_arrive_iff h
    rw [resumeInput_futures, hfs, ← hiff]
    cases hm : futures.mapM FutureInput.intoOutcome with
    | error e => simp [hm, bind, Except.bind]
    | ok os => simp [hm, bind, Except.bind, pure, Except.pure]

omit [Crates] in
/-- `None` decodes from `null`, and cannot be sent back. -/
theorem return_null_rejected :
    ¬ ∀ (_ : Crates) (v : Value) (o : MontyObject), jsonToMonty v = .ok o →
      resumeInput (.object [("return", v)]) = some (.ok (.Return o)) := by
  intro h
  let _ := Sample.crates
  have hnull := h Sample.crates .null .None (by simp [jsonToMonty])
  obtain ⟨message, hm⟩ := resumeInput_null (.inl rfl)
  rw [hm] at hnull
  cases hnull

end MontyServer
