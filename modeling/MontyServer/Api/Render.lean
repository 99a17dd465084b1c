import MontyServer.Api.Sessions

/-!
# What can be rendered

A stored entry is rendered from its snapshot and, if it is paused, from the progress kept alongside.
Given that monty encodes the values, a finished entry always renders, and a paused one exactly if
its progress is there and names its keyword arguments by strings (`SessionEntry.renders_iff`).
-/

namespace MontyServer

variable [Crates]

/-- monty encodes the values a pause shows. -/
def RunProgress.Encodes : RunProgress → Prop
  | .FunctionCall call _ _ =>
    (∃ v, Crates.toValueArray call.args = .ok v) ∧
      ∀ pair ∈ call.kwargs, ∃ v, Crates.toValue pair.2 = .ok v
  | _ => True

/-- monty encodes the values a snapshot shows. -/
def StepSnapshot.Encodes : StepSnapshot → Prop
  | .Completed result _ _ => ∃ v, Crates.toValue result = .ok v
  | _ => True

/-- monty encodes the values an entry shows. -/
def SessionEntry.Encodes (e : SessionEntry) : Prop :=
  e.snapshot.Encodes ∧ ∀ p, e.progress = some p → p.Encodes

omit [Crates] in
/-- The keyword arguments of the pause are named by strings, as Python's always are. -/
def RunProgress.StringKeys : RunProgress → Prop
  | .FunctionCall call _ _ => ∀ pair ∈ call.kwargs, ∃ name, pair.1 = .String name
  | _ => True

omit [Crates] in
def isString : MontyObject → Bool
  | .String _ => true
  | _ => false

omit [Crates] in
theorem isString_iff {object : MontyObject} :
    isString object = true ↔ ∃ name, object = .String name := by
  cases object <;> simp [isString]

omit [Crates] in
instance : DecidablePred RunProgress.StringKeys := fun
  | .FunctionCall call _ _ =>
    decidable_of_iff (call.kwargs.all fun pair => isString pair.1)
      (by simp [RunProgress.StringKeys, isString_iff])
  | .OsCall .. | .NameLookup .. | .ResolveFutures .. | .Complete .. => isTrue trivial

omit [Crates] in
/-- A snapshot goes with the flag and the progress it is stored with. -/
def SessionEntry.Consistent (e : SessionEntry) : Prop :=
  (∀ p, e.progress = some p → p.Actionable) ∧
    match e.snapshot with
    | .Paused .. => e.terminal = false
    | _ => e.terminal = true

/-- If monty encodes everything, it encodes what an entry shows. -/
theorem StepSnapshot.encodes (h : ∀ object, ∃ v, Crates.toValue object = .ok v)
    (snapshot : StepSnapshot) : snapshot.Encodes := by
  cases snapshot with
  | Completed result output stats => exact h result
  | _ => trivial

theorem RunProgress.encodes (h : ∀ object, ∃ v, Crates.toValue object = .ok v)
    (h' : ∀ objects, ∃ v, Crates.toValueArray objects = .ok v) (p : RunProgress) : p.Encodes := by
  cases p with
  | FunctionCall call resume resumePending => exact ⟨h' call.args, fun pair _ => h pair.2⟩
  | _ => trivial

theorem montyToJson_ok_iff {object : MontyObject} :
    (∃ v, montyToJson object = .ok v) ↔ ∃ v, Crates.toValue object = .ok v := by
  unfold montyToJson
  cases Crates.toValue object with
  | ok v => exact iff_of_true ⟨v, rfl⟩ ⟨v, rfl⟩
  | error err => exact iff_of_false nofun nofun

theorem montySliceToJson_ok_iff {objects : List MontyObject} :
    (∃ v, montySliceToJson objects = .ok v) ↔ ∃ v, Crates.toValueArray objects = .ok v := by
  unfold montySliceToJson
  cases Crates.toValueArray objects with
  | ok v => exact iff_of_true ⟨v, rfl⟩ ⟨v, rfl⟩
  | error err => exact iff_of_false nofun nofun

theorem montyPairsToMap_ok_iff (pairs : List (MontyObject × MontyObject))
    (map : List (String × Value)) :
    (∃ map', montyPairsToMap map pairs = .ok map') ↔
      ∀ pair ∈ pairs, (∃ v, Crates.toValue pair.2 = .ok v) ∧ ∃ name, pair.1 = .String name := by
  induction pairs generalizing map with
  | nil => simp [montyPairsToMap]
  | cons pair pairs ih =>
    obtain ⟨key, value⟩ := pair
    rw [List.forall_mem_cons]
    cases key with
    | String name =>
      rw [← montyToJson_ok_iff, montyPairsToMap]
      cases montyToJson value with
      | ok v =>
        show (∃ map', montyPairsToMap (mapInsert map name v) pairs = .ok map') ↔ _
        rw [ih]
        exact ⟨fun h => ⟨⟨⟨v, rfl⟩, name, rfl⟩, h⟩, fun h => h.2⟩
      | error err =>
        apply iff_of_false
        · rintro ⟨_, h⟩
          cases h
        · rintro ⟨⟨⟨_, h⟩, _⟩, _⟩
          cases h
    | _ => simp [montyPairsToMap]

theorem describePause_ok_iff {p : RunProgress} (hp : p.Actionable) :
    (∃ pause, describePause p = .ok pause) ↔ p.Encodes ∧ p.StringKeys := by
  cases p with
  | FunctionCall call resume resumePending =>
    have hpairs : (RunProgress.FunctionCall call resume resumePending).Encodes ∧
        (RunProgress.FunctionCall call resume resumePending).StringKeys ↔
          (∃ v, montySliceToJson call.args = .ok v) ∧
            ∃ map, montyPairsToMap [] call.kwargs = .ok map := by
      rw [montySliceToJson_ok_iff, montyPairsToMap_ok_iff]
      show (_ ∧ ∀ pair ∈ call.kwargs, _) ∧ (∀ pair ∈ call.kwargs, _) ↔ _
      rw [and_assoc, ← forall₂_and]
    rw [hpairs, describePause, montyPairsToJson]
    cases montySliceToJson call.args with
    | error err => exact iff_of_false (by rintro ⟨_, h⟩; cases h) (by rintro ⟨⟨_, h⟩, _⟩; cases h)
    | ok args =>
      cases montyPairsToMap [] call.kwargs with
      | ok map => exact iff_of_true ⟨_, rfl⟩ ⟨⟨args, rfl⟩, map, rfl⟩
      | error err => exact iff_of_false (by rintro ⟨_, h⟩; cases h) (by rintro ⟨_, _, h⟩; cases h)
  | OsCall => exact hp.elim
  | NameLookup name resume => exact iff_of_true ⟨_, rfl⟩ ⟨trivial, trivial⟩
  | ResolveFutures ids resume => exact iff_of_true ⟨_, rfl⟩ ⟨trivial, trivial⟩
  | Complete => exact hp.elim

/-- The entry shows what can be encoded: a finished one its result, a paused one what it waits for,
its progress being alongside. -/
def SessionEntry.Shows (e : SessionEntry) : Prop :=
  e.snapshot.Encodes ∧
    (e.terminal = true ∨ ∃ p, e.progress = some p ∧ p.Encodes ∧ p.StringKeys)

/-- **What renders**, exactly. -/
theorem SessionEntry.shows_iff {e : SessionEntry} (he : e.Consistent) :
    (∃ st, renderState e.snapshot e.progress = .ok st) ↔ e.Shows := by
  obtain ⟨hactionable, hflag⟩ := he
  unfold Shows
  cases hs : e.snapshot with
  | Paused output stats =>
    rw [hs] at hflag
    cases hp : e.progress with
    | none => simp [renderState, hflag]
    | some p =>
      have hiff := describePause_ok_iff (hactionable p hp)
      simp only [hflag, Option.some.injEq, exists_eq_left', Bool.false_eq_true, false_or, ← hiff,
        renderState, StepSnapshot.Encodes, true_and]
      cases describePause p with
      | ok pause => exact iff_of_true ⟨_, rfl⟩ ⟨pause, rfl⟩
      | error err => exact iff_of_false nofun nofun
  | Completed result output stats =>
    rw [hs] at hflag
    rw [StepSnapshot.Encodes, ← montyToJson_ok_iff, renderState]
    cases montyToJson result with
    | ok v => exact iff_of_true ⟨_, rfl⟩ ⟨⟨v, rfl⟩, .inl hflag⟩
    | error err => exact iff_of_false (by rintro ⟨_, h⟩; cases h) (by rintro ⟨⟨_, h⟩, _⟩; cases h)
  | Failed exception breach output stats =>
    rw [hs] at hflag
    exact iff_of_true ⟨_, rfl⟩ ⟨trivial, .inl hflag⟩

/-- **What renders**, given that monty encodes the values: a finished entry, and a paused one that
has its progress alongside. -/
theorem SessionEntry.renders_iff {e : SessionEntry} (he : e.Consistent) (henc : e.Encodes) :
    (∃ st, renderState e.snapshot e.progress = .ok st) ↔
      e.terminal = true ∨ ∃ p, e.progress = some p ∧ p.StringKeys := by
  rw [shows_iff he, Shows, and_iff_right henc.1]
  apply or_congr_right
  apply exists_congr
  intro p
  apply and_congr_right
  intro hp
  exact and_iff_right (henc.2 p hp)

/-- A finished entry renders the same whatever progress is passed along. -/
theorem renderState_terminal {e : SessionEntry} (he : e.Consistent) (hterminal : e.terminal = true)
    (progress progress' : Option RunProgress) :
    renderState e.snapshot progress = renderState e.snapshot progress' := by
  have hflag := he.2
  cases hs : e.snapshot with
  | Paused output stats =>
    rw [hs] at hflag
    cases hterminal.symm.trans hflag
  | _ => rfl

/-- Only a paused snapshot with its progress renders as paused. -/
theorem renderState_paused {snapshot : StepSnapshot} {progress : Option RunProgress} {pause : Pause}
    {stdout stderr : String} {stats : Stats}
    (h : renderState snapshot progress = .ok (.Paused pause stdout stderr stats)) :
    (∃ output stats', snapshot = .Paused output stats') ∧ ∃ p, progress = some p := by
  cases snapshot with
  | Paused output stats' =>
    cases progress with
    | none => cases h
    | some p => exact ⟨⟨output, stats', rfl⟩, p, rfl⟩
  | Completed result output stats' =>
    rw [renderState] at h
    cases hresult : orInternal (montyToJson result) <;> rw [hresult] at h <;> cases h
  | Failed exception breach output stats' => cases breach <;> cases h

theorem render_ok_iff (id : Uuid) (e : SessionEntry) (now : Instant) :
    (∃ view, render id e now = .ok view) ↔ ∃ st, renderState e.snapshot e.progress = .ok st := by
  rw [render]
  cases renderState e.snapshot e.progress with
  | ok st => exact iff_of_true ⟨_, rfl⟩ ⟨st, rfl⟩
  | error err => exact iff_of_false nofun nofun

/-- What a view shows. -/
theorem render_ok {id : Uuid} {e : SessionEntry} {now : Instant} {view : SessionView}
    (h : render id e now = .ok view) :
    view.sessionId = id ∧ view.expiresInSeconds = Duration.asSecs (e.expiresAt - now) ∧
      renderState e.snapshot e.progress = .ok view.state := by
  rw [render] at h
  cases hst : renderState e.snapshot e.progress with
  | ok st =>
    rw [hst] at h
    cases h
    exact ⟨rfl, rfl, rfl⟩
  | error err =>
    rw [hst] at h
    cases h

omit [Crates] in
/-- The sample interpreter encodes every value. -/
theorem Sample.toValue_ok (object : MontyObject) : ∃ v, Sample.crates.toValue object = .ok v := by
  cases object <;> exact ⟨_, rfl⟩

end MontyServer
