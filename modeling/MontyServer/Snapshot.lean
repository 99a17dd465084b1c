import MontyServer.Server

/-!
# A snapshot for its source

`/v1/run` and `/v1/sessions` take a program either as source with named inputs or as a compiled
snapshot with positional ones. Names and values are put together on two separate paths, and the
program is encoded and decoded in between. Both come to the same (`snapshot_runs_as_source`): what
is executed is the same, and a run of the server goes the same with the one request for the other.
-/

namespace MontyServer

/-! ## What a source says to do -/

section Meaning

variable [Crates]

/-- The executions of the two entry points, on the bound values. -/
def SourceSpec.meaning (spec : SourceSpec) :
    Except MontyException (Execution MontyObject × Execution RunProgress) :=
  spec.program.map fun p => (p.1.run p.2, p.1.start p.2)

/-- Nothing but its meaning is executed of a source, by `/v1/run` or by `/v1/sessions`. -/
theorem SourceSpec.execute_congr {spec spec' : SourceSpec} (h : spec.meaning = spec'.meaning) :
    spec.run = spec'.run ∧ spec.start = spec'.start := by
  unfold meaning at h
  cases hp : spec.program with
  | error exc =>
    cases hp' : spec'.program with
    | error exc' =>
      rw [hp, hp'] at h
      cases h
      exact ⟨by funext limits now lag; simp only [run, hp, hp'],
        by funext limits now lag; simp only [start, hp, hp']⟩
    | ok p' => rw [hp, hp'] at h; cases h
  | ok p =>
    cases hp' : spec'.program with
    | error exc' => rw [hp, hp'] at h; cases h
    | ok p' =>
      rw [hp, hp'] at h
      have hpair : (p.1.run p.2, p.1.start p.2) = (p'.1.run p'.2, p'.1.start p'.2) :=
        Except.ok.inj h
      have hrun : p.1.run p.2 = p'.1.run p'.2 := congrArg Prod.fst hpair
      have hstart : p.1.start p.2 = p'.1.start p'.2 := congrArg Prod.snd hpair
      constructor
      · funext limits now lag
        simp only [run, hp, hp', runToCompletion, hrun]
      · funext limits now lag
        simp only [start, hp, hp', startSession, hstart]

/-- `/v1/run` runs this program on these values, and `/v1/sessions` starts it on them. -/
structure SourceSpec.Executes (spec : SourceSpec) (program : MontyRun) (values : List MontyObject) :
    Prop where
  run : ∀ limits now lag, spec.run limits now lag =
    ((runToCompletion program values limits now lag).1.map Outcome.fromExecResult,
      (runToCompletion program values limits now lag).2.now)
  start : ∀ limits now lag, spec.start limits now lag =
    ((startSession program values limits now lag).1.map
        (.Started (startSession program values limits now lag).2.tracker),
      (startSession program values limits now lag).2.now)

/-- A source that means a program on some values executes it on them. -/
theorem SourceSpec.executes_of_meaning {spec : SourceSpec} {program : MontyRun}
    {values : List MontyObject}
    (h : spec.meaning = .ok (program.run values, program.start values)) :
    spec.Executes program values := by
  have hsame : spec.meaning = (SourceSpec.Snapshot program values).meaning := h
  obtain ⟨hrun, hstart⟩ := SourceSpec.execute_congr hsame
  constructor
  · intro limits now lag
    rw [hrun]
    rfl
  · intro limits now lag
    rw [hstart]
    rfl

/-- Two requests that say the same: under the same limits, both are turned away with a `400`, or
both have a source of one meaning. -/
structure SourceFields.Twin (fields fields' : SourceFields) : Prop where
  limits : fields.limits = fields'.limits
  spec : (∃ t t', fields.intoSpec = .error (.BadRequest t) ∧
      fields'.intoSpec = .error (.BadRequest t')) ∨
    ∃ spec spec', fields.intoSpec = .ok spec ∧ fields'.intoSpec = .ok spec' ∧
      spec.meaning = spec'.meaning

end Meaning

/-! ## Lockstep -/

/-- What a step leads to: the same first part, and second parts that are related. -/
abbrev Lockstep {A α β : Type} (R : α → β → Prop) (x : Option (A × α)) (y : Option (A × β)) :
    Prop :=
  Option.Rel (fun r r' => r.1 = r'.1 ∧ R r.2 r'.2) x y

theorem Lockstep.refl {A α : Type} {R : α → α → Prop} (h : ∀ a, R a a) (x : Option (A × α)) :
    Lockstep R x x := by
  cases x with
  | none => exact .none
  | some r => exact .some ⟨rfl, h r.2⟩

theorem Lockstep.bind {A α β γ δ : Type} {R : α → β → Prop} {S : γ → δ → Prop}
    {x : Option (A × α)} {y : Option (A × β)} (h : Lockstep R x y) {f : A × α → Option γ}
    {g : A × β → Option δ} (hfg : ∀ c a b, R a b → Option.Rel S (f (c, a)) (g (c, b))) :
    Option.Rel S (x.bind f) (y.bind g) := by
  cases h with
  | none => exact .none
  | @some r r' hr =>
    obtain ⟨c, a⟩ := r
    obtain ⟨c', b⟩ := r'
    obtain ⟨rfl, hab⟩ := hr
    exact hfg _ a b hab

/-- Two calls at the same place, with related works. -/
inductive Spawn.Twin {W R : Type} (T : W → W → Prop) : Spawn W R → Spawn W R → Prop
  | queued {w w' : W} (h : T w w') : Twin T (.queued w) (.queued w')
  | admitted {w w' : W} (h : T w w') : Twin T (.admitted w) (.admitted w')
  | spawned {w w' : W} (awaited : Bool) (h : T w w') :
    Twin T (.spawned w awaited) (.spawned w' awaited)
  | running {w w' : W} (since : Instant) (awaited : Bool) (h : T w w') :
    Twin T (.running w since awaited) (.running w' since awaited)
  | finished (result : Option R) : Twin T (.finished result) (.finished result)
  | dropped : Twin T .dropped .dropped

namespace Spawn

variable {W R : Type} {T : W → W → Prop} {spawn spawn' : Spawn W R}

theorem Twin.refl (h : ∀ w, T w w) (spawn : Spawn W R) : Twin T spawn spawn := by
  cases spawn with
  | queued w => exact .queued (h w)
  | admitted w => exact .admitted (h w)
  | spawned w awaited => exact .spawned awaited (h w)
  | running w since awaited => exact .running since awaited (h w)
  | finished result => exact .finished result
  | dropped => exact .dropped

theorem Twin.settled (awaited : Bool) (result : Option R) :
    Twin T (Spawn.settled awaited result) (Spawn.settled awaited result) := by
  cases awaited with
  | true => exact .finished result
  | false => exact .dropped

theorem Twin.move (h : Twin T spawn spawn') (free : Nat) (now : Instant) (m : Move) :
    Lockstep (Twin T) (spawn.move free now m) (spawn'.move free now m) := by
  cases h with
  | queued h =>
    cases m with
    | acquire =>
      simp only [Spawn.move]
      split
      · exact .some ⟨rfl, .admitted h⟩
      · exact .none
    | drop => exact .some ⟨rfl, .dropped⟩
    | _ => exact .none
  | admitted h =>
    cases m with
    | spawn => exact .some ⟨rfl, .spawned true h⟩
    | drop => exact .some ⟨rfl, .dropped⟩
    | _ => exact .none
  | spawned awaited h =>
    cases m with
    | start => exact .some ⟨rfl, .running now awaited h⟩
    | abort => exact .some ⟨rfl, .settled awaited none⟩
    | drop =>
      cases awaited with
      | true => exact .some ⟨rfl, .spawned false h⟩
      | false => exact .none
    | _ => exact .none
  | running since awaited h =>
    cases m with
    | drop =>
      cases awaited with
      | true => exact .some ⟨rfl, .running since false h⟩
      | false => exact .none
    | _ => exact .none
  | finished result =>
    cases m with
    | drop => exact .some ⟨rfl, .dropped⟩
    | _ => exact .none
  | dropped => cases m <;> exact .none

theorem Twin.finish (h : Twin T spawn spawn') (free : Nat) (now entered : Instant)
    {run : W → Option R × Instant} (hrun : ∀ w w', T w w' → run w = run w') :
    Lockstep (Twin T) (spawn.finish free now entered run) (spawn'.finish free now entered run) := by
  cases h with
  | @running w w' since awaited h =>
    simp only [Spawn.finish, hrun w w' h]
    split
    · exact .some ⟨rfl, .settled awaited _⟩
    · exact .none
  | _ => exact .none

end Spawn

variable [Crates]

/-- The same place of `/v1/run`, up to where the program in flight came from. -/
inductive RunCode.Twin : RunCode → RunCode → Prop
  | same (phase : RunCode) : Twin phase phase
  | executing {spawn spawn' : Spawn (SourceSpec × ResolvedLimits) (ApiResult Outcome)}
    (h : Spawn.Twin (fun w w' => w.1.meaning = w'.1.meaning ∧ w.2 = w'.2) spawn spawn') :
    Twin (.executing spawn) (.executing spawn')
  | rejected (t t' : String) :
    Twin (.done (.error (.BadRequest t))) (.done (.error (.BadRequest t')))

/-- The same place of `POST /v1/sessions`. -/
inductive Create.Twin : Create → Create → Prop
  | same (phase : Create) : Twin phase phase
  | executing (ttl : Duration) (limits : ResolvedLimits)
    {spawn spawn' : Spawn SourceSpec StartOutcome}
    (h : Spawn.Twin (fun w w' => w.meaning = w'.meaning) spawn spawn') :
    Twin (.executing ttl limits spawn) (.executing ttl limits spawn')
  | rejected (t t' : String) :
    Twin (.done (.error (.BadRequest t))) (.done (.error (.BadRequest t')))

/-- A request and its twin, at the same place. -/
inductive Handler.Twin : Handler → Handler → Prop
  | same (handler : Handler) : Twin handler handler
  | run {fields fields' : SourceFields} {phase phase' : RunCode} (hfields : fields.Twin fields')
    (h : RunCode.Twin phase phase') : Twin (.run fields phase) (.run fields' phase')
  | create {fields fields' : SourceFields} (ttl : Option UInt64) {phase phase' : Create}
    (hfields : fields.Twin fields') (h : Create.Twin phase phase') :
    Twin (.create ⟨fields, ttl⟩ phase) (.create ⟨fields', ttl⟩ phase')

variable {fields fields' : SourceFields} {app : AppState}

/-- **Step lemma**: twin programs of `/v1/run` in flight. -/
theorem RunCode.step_executing
    {spawn spawn' : Spawn (SourceSpec × ResolvedLimits) (ApiResult Outcome)}
    (h : Spawn.Twin (fun w w' => w.1.meaning = w'.1.meaning ∧ w.2 = w'.2) spawn spawn') (m : Move) :
    Lockstep RunCode.Twin (RunCode.step app fields m (.executing spawn))
      (RunCode.step app fields' m (.executing spawn')) := by
  have hmove := h.move app.concurrency app.now m
  cases m with
  | advance =>
    cases h with
    | finished result => cases result <;> exact .some ⟨rfl, .same _⟩
    | _ => exact .none
  | finish entered lag =>
    have hrun : ∀ w w' : SourceSpec × ResolvedLimits, w.1.meaning = w'.1.meaning ∧ w.2 = w'.2 →
        w.1.run w.2 entered lag = w'.1.run w'.2 entered lag := by
      intro w w' hw
      rw [(SourceSpec.execute_congr hw.1).1, hw.2]
    apply (h.finish app.concurrency app.now entered hrun).bind
    intro free w w' hw
    exact .some ⟨rfl, .executing hw⟩
  | insert id => cases h <;> exact .none
  | _ =>
    apply hmove.bind
    intro free w w' hw
    exact .some ⟨rfl, .executing hw⟩

/-- **Step lemma**: `/v1/run` goes in lockstep. -/
theorem RunCode.Twin.step {phase phase' : RunCode} (h : RunCode.Twin phase phase')
    (hfields : fields.Twin fields') (m : Move) :
    Lockstep RunCode.Twin (RunCode.step app fields m phase)
      (RunCode.step app fields' m phase') := by
  cases h with
  | same phase =>
    cases phase with
    | received =>
      cases m with
      | advance =>
        rcases hfields.spec with ⟨t, t', he, he'⟩ | ⟨spec, spec', he, he', hmeaning⟩
        · simp only [RunCode.step, Stateless.step, he, he']
          exact .some ⟨rfl, .rejected t t'⟩
        · simp only [RunCode.step, Stateless.step, he, he', hfields.limits]
          exact .some ⟨rfl, .executing (.queued ⟨hmeaning, rfl⟩)⟩
      | drop => exact .some ⟨rfl, .same _⟩
      | _ => exact .none
    | executing spawn => exact RunCode.step_executing (.refl (fun _ => ⟨rfl, rfl⟩) spawn) m
    | done response => cases m <;> exact .none
    | dropped => cases m <;> exact .none
  | executing h => exact RunCode.step_executing h m
  | rejected t t' => cases m <;> exact .none

/-- **Step lemma**: twin programs of `POST /v1/sessions` in flight. -/
theorem Create.step_executing {i : RequestId} {caller : String}
    {request request' : CreateSessionRequest} (ttl : Duration) (limits : ResolvedLimits)
    {spawn spawn' : Spawn SourceSpec StartOutcome}
    (h : Spawn.Twin (fun w w' => w.meaning = w'.meaning) spawn spawn') (m : Move) :
    Lockstep Create.Twin (Create.step app i caller request m (.executing ttl limits spawn))
      (Create.step app i caller request' m (.executing ttl limits spawn')) := by
  have hmove := h.move app.concurrency app.now m
  cases m with
  | advance =>
    cases h with
    | finished result =>
      cases result with
      | none => exact .some ⟨rfl, .same _⟩
      | some outcome => cases outcome <;> exact .some ⟨rfl, .same _⟩
    | _ => exact .none
  | insert id => exact .none
  | finish entered lag =>
    have hrun : ∀ w w' : SourceSpec, w.meaning = w'.meaning →
        w.start limits entered lag = w'.start limits entered lag := by
      intro w w' hw
      rw [(SourceSpec.execute_congr hw).2]
    apply (h.finish app.concurrency app.now entered hrun).bind
    intro free w w' hw
    exact .some ⟨rfl, .executing ttl limits hw⟩
  | _ =>
    apply hmove.bind
    intro free w w' hw
    exact .some ⟨rfl, .executing ttl limits hw⟩

/-- **Step lemma**: `POST /v1/sessions` goes in lockstep. -/
theorem Create.Twin.step {i : RequestId} {caller : String} {ttl : Option UInt64}
    {phase phase' : Create} (h : Create.Twin phase phase') (hfields : fields.Twin fields')
    (m : Move) :
    Lockstep Create.Twin (Create.step app i caller ⟨fields, ttl⟩ m phase)
      (Create.step app i caller ⟨fields', ttl⟩ m phase') := by
  cases h with
  | same phase =>
    cases phase with
    | received =>
      cases m with
      | advance =>
        rcases hfields.spec with ⟨t, t', he, he'⟩ | ⟨spec, spec', he, he', hmeaning⟩
        · simp only [Create.step, Create.advance, he, he']
          exact .some ⟨rfl, .rejected t t'⟩
        · simp only [Create.step, Create.advance, he, he', hfields.limits]
          exact .some ⟨rfl, .executing _ _ (.queued hmeaning)⟩
      | drop => exact .some ⟨rfl, .same _⟩
      | _ => exact .none
    | executing ttl limits spawn =>
      have hsame : Spawn.Twin (fun w w' => w.meaning = w'.meaning) spawn spawn := by
        refine .refl ?_ spawn
        intro w
        rfl
      exact Create.step_executing ttl limits hsame m
    | _ => cases m <;> exact Lockstep.refl Create.Twin.same _
  | executing ttl limits h => exact Create.step_executing ttl limits h m
  | rejected t t' => cases m <;> exact .none

/-- **Step lemma**: a request and its twin go in lockstep. -/
theorem Handler.Twin.step {handler handler' : Handler} (h : Handler.Twin handler handler')
    (i : RequestId) (caller : String) (m : Move) :
    Lockstep Handler.Twin (handler.step app i caller m) (handler'.step app i caller m) := by
  cases h with
  | same handler => exact Lockstep.refl Handler.Twin.same _
  | run hfields h =>
    apply (h.step hfields m).bind
    intro app' phase phase' hphase
    exact .some ⟨rfl, .run hfields hphase⟩
  | create ttl hfields h =>
    apply (h.step hfields m).bind
    intro app' phase phase' hphase
    exact .some ⟨rfl, .create ttl hfields hphase⟩

/-! ## Servers in lockstep -/

/-- Two requests of one caller, the same or twins. -/
structure Request.Twin (r r' : Request) : Prop where
  caller : r.caller = r'.caller
  handler : Handler.Twin r.handler r'.handler

/-- Two servers that differ in twins only: their sessions, clocks and permits are the same. -/
structure Server.Twin (s s' : Server) : Prop where
  app : s.app = s'.app
  expired : s.expired = s'.expired
  requests : List.Forall₂ Request.Twin s.requests s'.requests

/-- The same action; or the arrival of a request of `/v1/run` or `/v1/sessions` with the one fields,
and with the other. -/
inductive Action.Twin (fields fields' : SourceFields) : Action → Action → Prop
  | same (a : Action) : Twin fields fields' a a
  | run (caller : String) :
    Twin fields fields' (.arrive caller (.run fields)) (.arrive caller (.run fields'))
  | create (caller : String) (ttl : Option UInt64) :
    Twin fields fields' (.arrive caller (.create ⟨fields, ttl⟩))
      (.arrive caller (.create ⟨fields', ttl⟩))

namespace Server

variable {s s' : Server}

/-- Arrivals of related requests. -/
theorem Twin.arrive (h : s.Twin s') {r r' : Request} (hr : r.Twin r') :
    Twin { s with requests := s.requests ++ [r] } { s' with requests := s'.requests ++ [r'] } where
  app := h.app
  expired := h.expired
  requests := List.rel_append h.requests (.cons hr .nil)

/-- **Step lemma**: twin servers go in lockstep. -/
theorem Twin.step (h : s.Twin s') (hfields : fields.Twin fields') {a a' : Action}
    (ha : Action.Twin fields fields' a a') : Option.Rel Server.Twin (s.step a) (s'.step a') := by
  cases ha with
  | run caller =>
    exact .some (h.arrive ⟨rfl, .run hfields (.same .received)⟩)
  | create caller ttl =>
    exact .some (h.arrive ⟨rfl, .create ttl hfields (.same .received)⟩)
  | same a =>
    obtain ⟨app, requests, expired⟩ := s
    obtain ⟨app', requests', expired'⟩ := s'
    obtain ⟨rfl, rfl, hrequests⟩ := h
    cases a with
    | tick d => exact .some ⟨rfl, rfl, hrequests⟩
    | arrive caller call =>
      exact .some ⟨rfl, rfl, List.rel_append hrequests (.cons ⟨rfl, .same _⟩ .nil)⟩
    | move i m =>
      have hr := Rounds.forall₂_getElem? hrequests i
      simp only [step]
      generalize requests[i]? = found, requests'[i]? = found' at hr ⊢
      cases hr with
      | none => exact .none
      | @some r r' hr =>
        obtain ⟨caller, handler⟩ := r
        obtain ⟨caller', handler'⟩ := r'
        obtain ⟨rfl, hhandler⟩ := hr
        apply (hhandler.step i caller m).bind
        intro app' handler handler' hnext
        exact .some ⟨rfl, rfl, Rounds.forall₂_set hrequests i ⟨rfl, hnext⟩⟩
    | collect =>
      cases expired with
      | nil => exact .some ⟨rfl, rfl, hrequests⟩
      | cons id expired => exact .none
    | evict =>
      cases expired with
      | nil => exact .none
      | cons id expired => exact .some ⟨rfl, rfl, hrequests⟩

end Server

/-- **Run lemma**: a run goes the same with a request for its twin. -/
theorem twin_run (hfields : fields.Twin fields') (config : Config) {as as' : List Action}
    (h : List.Forall₂ (Action.Twin fields fields') as as') :
    Option.Rel Server.Twin (Run.exec Server.step (.new config) as)
      (Run.exec Server.step (.new config) as') :=
  Run.exec_rel (fun _ _ _ _ hs ha => hs.step hfields ha) ⟨rfl, rfl, .nil⟩ h

/-! ## The two sources of one program -/

/-- What `json_to_monty` makes of a value that it accepts. -/
def valueOf (v : Value) : MontyObject :=
  match jsonToMonty v with
  | .ok o => o
  | .error _ => .None

theorem decodes_valueOf {v : Value} (h : ∃ o, jsonToMonty v = .ok o) :
    jsonToMonty v = .ok (valueOf v) := by
  obtain ⟨o, ho⟩ := h
  rw [valueOf, ho]

/-- An input, converted or turned down with a `400`. -/
def decodeInput (v : Value) : ApiResult MontyObject := (jsonToMonty v).mapError badInput

theorem namedInputs_eq_mapM (map : List (String × Value)) :
    namedInputs map =
      ((map.map Prod.snd).mapM decodeInput).map fun values => (map.map Prod.fst, values) := by
  induction map with
  | nil => rfl
  | cons member map ih =>
    obtain ⟨name, value⟩ := member
    rw [namedInputs, ih]
    simp only [List.map_cons, List.mapM_cons]
    cases hvalue : (jsonToMonty value).mapError badInput with
    | error e => simp only [decodeInput, hvalue]; rfl
    | ok o =>
      simp only [decodeInput, hvalue]
      cases (map.map Prod.snd).mapM decodeInput <;> rfl

theorem inputsForSnapshot_array (items : List Value) :
    inputsForSnapshot (some (.array items)) = items.mapM decodeInput := rfl

/-- Inputs that are all convertible. -/
theorem mapM_decodeInput {items : List Value} (h : ∀ v ∈ items, ∃ o, jsonToMonty v = .ok o) :
    items.mapM decodeInput = .ok (items.map valueOf) := by
  rw [Rounds.mapM_eq_ok_iff, List.forall₂_map_right_iff, List.forall₂_same]
  intro v hv
  rw [decodeInput, decodes_valueOf (h v hv)]
  rfl

/-- Inputs with one among them that is not. -/
theorem mapM_decodeInput_error {items : List Value}
    (h : ∃ v ∈ items, ∃ e, jsonToMonty v = .error e) :
    ∃ t, items.mapM decodeInput = .error (.BadRequest t) := by
  have hround : ∃ v ∈ items, ∃ err, decodeInput v = .error err := by
    obtain ⟨v, hv, e, he⟩ := h
    exact ⟨v, hv, badInput e, by rw [decodeInput, he]; rfl⟩
  obtain ⟨v, -, err, herr, hmap⟩ := Rounds.mapM_error hround
  cases hv : jsonToMonty v with
  | error e =>
    rw [decodeInput, hv] at herr
    cases herr
    exact ⟨_, hmap⟩
  | ok o =>
    rw [decodeInput, hv] at herr
    cases herr

/-- A compiled program depends on its names and values only through the binding they define. -/
def BindingOnly : Prop :=
  ∀ (code filename : String) (binding binding' : List (String × MontyObject)) (run run' : MontyRun),
    binding.Perm binding' → (binding.map Prod.fst).Nodup →
    Crates.compile code filename (binding.map Prod.fst) = .ok run →
    Crates.compile code filename (binding'.map Prod.fst) = .ok run' →
    run.run (binding.map Prod.snd) = run'.run (binding'.map Prod.snd) ∧
      run.start (binding.map Prod.snd) = run'.start (binding'.map Prod.snd)

section Sources

variable {code : String} {filename : Option String} {M order : List (String × Value)}
  {limits : Option LimitsRequest}

/-- The request with the source and the inputs by name. -/
def sourceFields (code : String) (filename : Option String) (M : List (String × Value))
    (limits : Option LimitsRequest) : SourceFields where
  code := some code
  filename := filename
  inputs := some (.object M)
  limits := limits

/-- The request with the snapshot and the values of the inputs in some order. -/
def snapshotFields (snapshot : String) (order : List (String × Value))
    (limits : Option LimitsRequest) : SourceFields where
  snapshot := some snapshot
  inputs := some (.array (order.map Prod.snd))
  limits := limits

theorem intoSpec_source (code : String) (filename : Option String) (M : List (String × Value))
    (limits : Option LimitsRequest) :
    (sourceFields code filename M limits).intoSpec =
      ((M.map Prod.snd).mapM decodeInput).map fun values =>
        .Code code (filename.getD DEFAULT_FILENAME) (M.map Prod.fst) values := by
  show (do
    let x ← namedInputs M
    return SourceSpec.Code code (filename.getD DEFAULT_FILENAME) x.1 x.2) = _
  rw [namedInputs_eq_mapM]
  cases (M.map Prod.snd).mapM decodeInput <;> rfl

theorem intoSpec_snapshot {snapshot : String} {run : MontyRun}
    (h : decodeSnapshot snapshot = .ok run) (order : List (String × Value))
    (limits : Option LimitsRequest) :
    (snapshotFields snapshot order limits).intoSpec =
      ((order.map Prod.snd).mapM decodeInput).map fun values => .Snapshot run values := by
  show (do
    let run ← decodeSnapshot snapshot
    let inputs ← inputsForSnapshot (some (.array (order.map Prod.snd)))
    return SourceSpec.Snapshot run inputs) = _
  rw [h, inputsForSnapshot_array]
  cases (order.map Prod.snd).mapM decodeInput <;> rfl

/-- The snapshot that `/v1/compile` returns decodes to the program it has compiled. -/
theorem decodeSnapshot_of_compiled
    (hload : ∀ run bytes, Crates.dump run = .ok bytes → Crates.load bytes = .ok run)
    (hbase64 : ∀ bytes, Crates.base64Decode (Crates.base64Encode bytes) = .ok bytes)
    {names names' : List String} {snapshot : String}
    (h : CompileRequest.work ⟨code, filename, some names⟩ = .ok (.Compiled snapshot names')) :
    ∃ run, Crates.compile code (filename.getD DEFAULT_FILENAME) names = .ok run ∧
      decodeSnapshot snapshot = .ok run := by
  simp only [CompileRequest.work, Option.getD_some] at h
  split at h
  · cases h
  · next run hrun =>
    split at h
    · cases h
    · next bytes hbytes =>
      cases h
      exact ⟨run, hrun, by simp only [decodeSnapshot, hbase64, hload run bytes hbytes]⟩

/-- An input that is not convertible turns both requests away. -/
theorem intoSpec_rejected (code : String) (filename : Option String)
    (limits : Option LimitsRequest) {snapshot : String} {run : MontyRun}
    (hrun : decodeSnapshot snapshot = .ok run) (horder : order.Perm M)
    (h : ∃ m ∈ M, ∃ e, jsonToMonty m.2 = .error e) :
    ∃ t t', (sourceFields code filename M limits).intoSpec = .error (.BadRequest t) ∧
      (snapshotFields snapshot order limits).intoSpec = .error (.BadRequest t') := by
  obtain ⟨m, hm, e, he⟩ := h
  obtain ⟨t, ht⟩ := mapM_decodeInput_error ⟨m.2, List.mem_map_of_mem hm, e, he⟩
  obtain ⟨t', ht'⟩ :=
    mapM_decodeInput_error ⟨m.2, List.mem_map_of_mem (horder.mem_iff.mpr hm), e, he⟩
  rw [intoSpec_source, intoSpec_snapshot hrun, ht, ht']
  exact ⟨t, t', rfl, rfl⟩

/-- Inputs that are all convertible give the two sources one meaning: the program that the source
compiles to, on what the inputs are converted to. -/
theorem intoSpec_accepted (limits : Option LimitsRequest) {snapshot : String}
    {run run' : MontyRun} (hbinding : BindingOnly)
    (hM : (M.map Prod.fst).Nodup) (horder : order.Perm M)
    (hsource : Crates.compile code (filename.getD DEFAULT_FILENAME) (M.map Prod.fst) = .ok run)
    (hcompile : Crates.compile code (filename.getD DEFAULT_FILENAME) (order.map Prod.fst) =
      .ok run')
    (hrun : decodeSnapshot snapshot = .ok run') (h : ∀ m ∈ M, ∃ o, jsonToMonty m.2 = .ok o) :
    ∃ values spec spec', List.Forall₂ (fun m o => jsonToMonty m.2 = .ok o) M values ∧
      (sourceFields code filename M limits).intoSpec = .ok spec ∧
      (snapshotFields snapshot order limits).intoSpec = .ok spec' ∧
      spec.meaning = .ok (run.run values, run.start values) ∧
      spec'.meaning = .ok (run.run values, run.start values) := by
  let bind : String × Value → String × MontyObject := fun m => (m.1, valueOf m.2)
  have hnames : ∀ l : List (String × Value), (l.map bind).map Prod.fst = l.map Prod.fst :=
    fun l => List.map_map
  have hvalues : ∀ l : List (String × Value),
      (l.map bind).map Prod.snd = (l.map Prod.snd).map valueOf := by
    intro l
    rw [List.map_map, List.map_map]
    rfl
  have hconverts : ∀ l : List (String × Value), l.Perm M →
      (l.map Prod.snd).mapM decodeInput = .ok ((l.map bind).map Prod.snd) := by
    intro l hl
    rw [hvalues]
    apply mapM_decodeInput
    intro v hv
    obtain ⟨m, hm, rfl⟩ := List.mem_map.mp hv
    exact h m (hl.mem_iff.mp hm)
  -- both ways bind the same values to the same names
  obtain ⟨hsamerun, hsamestart⟩ := hbinding code (filename.getD DEFAULT_FILENAME) (M.map bind)
    (order.map bind) run run' (horder.symm.map bind) ((hnames M).symm ▸ hM)
    ((hnames M).symm ▸ hsource) ((hnames order).symm ▸ hcompile)
  refine ⟨(M.map bind).map Prod.snd,
    .Code code (filename.getD DEFAULT_FILENAME) (M.map Prod.fst) ((M.map bind).map Prod.snd),
    .Snapshot run' ((order.map bind).map Prod.snd), ?_, ?_, ?_, ?_, ?_⟩
  · rw [hvalues, List.map_map, List.forall₂_map_right_iff, List.forall₂_same]
    intro m hm
    exact decodes_valueOf (h m hm)
  · rw [intoSpec_source, hconverts M (.refl M)]
    rfl
  · rw [intoSpec_snapshot hrun, hconverts order horder]
    rfl
  · simp only [SourceSpec.meaning, SourceSpec.program, hsource]
    rfl
  · show Except.ok (run'.run _, run'.start _) = Except.ok (run.run _, run.start _)
    rw [hsamerun, hsamestart]

/-- **A snapshot runs as its source.** Both requests are turned away with a `400` if an input is not
convertible. Otherwise both mean one thing, and `/v1/run` and `/v1/sessions` execute it of both: the
program that the source compiles to, on what the inputs are converted to. And every run of the
server goes the same with the one for the other, under the same limits and answer by answer. -/
theorem snapshot_runs_as_source
    (hload : ∀ run bytes, Crates.dump run = .ok bytes → Crates.load bytes = .ok run)
    (hbase64 : ∀ bytes, Crates.base64Decode (Crates.base64Encode bytes) = .ok bytes)
    (hbinding : BindingOnly) (hM : (M.map Prod.fst).Nodup) (horder : order.Perm M)
    (hsource : ∃ run,
      Crates.compile code (filename.getD DEFAULT_FILENAME) (M.map Prod.fst) = .ok run)
    {snapshot : String} {names : List String}
    (hcompiled : CompileRequest.work ⟨code, filename, some (order.map Prod.fst)⟩ =
      .ok (.Compiled snapshot names)) :
    ((∃ m ∈ M, ∃ e, jsonToMonty m.2 = .error e) →
      ∃ t t', (sourceFields code filename M limits).intoSpec = .error (.BadRequest t) ∧
        (snapshotFields snapshot order limits).intoSpec = .error (.BadRequest t')) ∧
    ((∀ m ∈ M, ∃ o, jsonToMonty m.2 = .ok o) →
      ∃ program values spec spec',
        Crates.compile code (filename.getD DEFAULT_FILENAME) (M.map Prod.fst) = .ok program ∧
        List.Forall₂ (fun m o => jsonToMonty m.2 = .ok o) M values ∧
        (sourceFields code filename M limits).intoSpec = .ok spec ∧
        (snapshotFields snapshot order limits).intoSpec = .ok spec' ∧
        spec.meaning = .ok (program.run values, program.start values) ∧
        spec'.meaning = spec.meaning ∧
        spec.Executes program values ∧ spec'.Executes program values) ∧
    ∀ (config : Config) (as as' : List Action),
      List.Forall₂ (Action.Twin (sourceFields code filename M limits)
        (snapshotFields snapshot order limits)) as as' →
      Option.Rel Server.Twin (Run.exec Server.step (.new config) as)
        (Run.exec Server.step (.new config) as') := by
  obtain ⟨run, hrun⟩ := hsource
  obtain ⟨run', hrun', hdecode⟩ := decodeSnapshot_of_compiled hload hbase64 hcompiled
  have hrejected := intoSpec_rejected code filename limits hdecode horder
  have haccepted := intoSpec_accepted limits hbinding hM horder hrun hrun' hdecode
  refine ⟨hrejected, ?_, ?_⟩
  · intro h
    obtain ⟨values, spec, spec', hvalues, hspec, hspec', hmeaning, hmeaning'⟩ := haccepted h
    exact ⟨run, values, spec, spec', hrun, hvalues, hspec, hspec', hmeaning,
      hmeaning'.trans hmeaning.symm, SourceSpec.executes_of_meaning hmeaning,
      SourceSpec.executes_of_meaning hmeaning'⟩
  · intro config as as' has
    have htwin : (sourceFields code filename M limits).Twin
        (snapshotFields snapshot order limits) := by
      refine ⟨rfl, ?_⟩
      by_cases hbad : ∃ m ∈ M, ∃ e, jsonToMonty m.2 = .error e
      · exact .inl (hrejected hbad)
      · have hall : ∀ m ∈ M, ∃ o, jsonToMonty m.2 = .ok o := by
          intro m hm
          cases hm' : jsonToMonty m.2 with
          | error e => exact absurd ⟨m, hm, e, hm'⟩ hbad
          | ok o => exact ⟨o, rfl⟩
        obtain ⟨values, spec, spec', -, hspec, hspec', hmeaning, hmeaning'⟩ := haccepted hall
        exact .inr ⟨spec, spec', hspec, hspec', hmeaning.trans hmeaning'.symm⟩
    exact twin_run htwin config has

end Sources

/-! ## A program that reads its inputs by name -/

namespace Sample

omit [Crates] in
/-- A binding without a name twice gives a name the same value in every order. -/
theorem lookup_perm {binding binding' : List (String × MontyObject)}
    (h : binding.Perm binding') (hnames : (binding.map Prod.fst).Nodup) (name : String) :
    binding.lookup name = binding'.lookup name := by
  induction h with
  | nil => rfl
  | cons m _ ih =>
    rw [List.lookup_cons, List.lookup_cons, ih (List.nodup_cons.mp hnames).2]
  | swap m m' rest =>
    have hne : m'.1 ≠ m.1 := fun he =>
      (List.nodup_cons.mp hnames).1 (List.mem_cons.mpr (.inl he))
    rw [List.lookup_cons, List.lookup_cons, List.lookup_cons, List.lookup_cons]
    by_cases hm : name = m.1
    · have hm' : (m.1 == m'.1) = false := beq_false_of_ne hne.symm
      rw [hm, hm', beq_self_eq_true]
    · rw [beq_false_of_ne hm]
  | trans h _ ih ih' =>
    exact (ih hnames).trans (ih' ((h.map Prod.fst).nodup_iff.mp hnames))

/-- The program `x`, compiled with these input names. -/
def readX (names : List String) : MontyRun where
  run := fun values =>
    match (names.zip values).lookup "x" with
    | some value => .ret value
    | none => .raise (.new ⟨"NameError"⟩ (some "name 'x' is not defined"))
  start := fun values =>
    match (names.zip values).lookup "x" with
    | some value => .ret (.Complete value)
    | none => .raise (.new ⟨"NameError"⟩ (some "name 'x' is not defined"))

open Classical in
/-- The crates with this program; its snapshot can be taken for the inputs `y` and `x`. -/
@[reducible] noncomputable def storing : Crates where
  __ := crates
  compile := fun code _ names =>
    if code = "x" then .ok (readX names) else .error (.new ⟨"SyntaxError"⟩ none)
  dump := fun run => if run = readX ["y", "x"] then .ok [1] else .error "not a sample"
  load := fun bytes => if bytes = [1] then .ok (readX ["y", "x"]) else .error "not a sample"

omit [Crates] in
theorem storing_load (run : MontyRun) (bytes : List UInt8) (h : storing.dump run = .ok bytes) :
    storing.load bytes = .ok run := by
  by_cases hrun : run = readX ["y", "x"]
  · have hbytes : [1] = bytes := Except.ok.inj ((if_pos hrun).symm.trans h)
    rw [← hbytes, hrun]
    exact if_pos rfl
  · cases (if_neg hrun).symm.trans h

omit [Crates] in
theorem storing_bindingOnly : @BindingOnly storing := by
  intro code filename binding binding' run run' hperm hnames hcompile hcompile'
  have hzip : ∀ l : List (String × MontyObject), (l.map Prod.fst).zip (l.map Prod.snd) = l := by
    intro l
    exact (List.zip_of_prod rfl rfl).symm
  have hrun : ∀ (names : List String) (run : MontyRun),
      storing.compile code filename names = .ok run → readX names = run := by
    intro names run h
    change (if code = "x" then Except.ok (readX names) else .error _) = _ at h
    split at h
    · exact Except.ok.inj h
    · cases h
  rw [← hrun _ _ hcompile, ← hrun _ _ hcompile']
  simp only [readX, hzip, lookup_perm hperm hnames, and_self]

end Sample

omit [Crates] in
/-- `x` with the inputs `x = 1` and `y = 2`, compiled with `y` first: the source and the snapshot
both come to 1, whether they are run or started. -/
theorem snapshot_runs_as_source_swapped :
    let _ := Sample.storing
    let one : Value := .number (.posInt 1)
    let two : Value := .number (.posInt 2)
    let limits : ResolvedLimits := .resolve none Sample.bounds
    ∃ snapshot, CompileRequest.work ⟨"x", none, some ["y", "x"]⟩ =
        .ok (.Compiled snapshot ["y", "x"]) ∧
      ∃ spec spec' stats tracker stats',
        (sourceFields "x" none [("x", one), ("y", two)] none).intoSpec = .ok spec ∧
        (snapshotFields snapshot [("y", two), ("x", one)] none).intoSpec = .ok spec' ∧
        spec'.meaning = spec.meaning ∧
        spec.run limits 0 {} = (some (.ok (.Completed one "" "" stats)), 0) ∧
        spec'.run limits 0 {} = (some (.ok (.Completed one "" "" stats)), 0) ∧
        spec.start limits 0 {} = (some (.Started tracker (.Complete (.Int 1) {} stats')), 0) ∧
        spec'.start limits 0 {} = (some (.Started tracker (.Complete (.Int 1) {} stats')), 0) := by
  intro _ one two limits
  have hcompiled : CompileRequest.work ⟨"x", none, some ["y", "x"]⟩ =
      .ok (.Compiled (Sample.encodeBytes [1]) ["y", "x"]) := by
    have hdump : Sample.storing.dump (Sample.readX ["y", "x"]) = .ok [1] := if_pos rfl
    have hcompile : Sample.storing.compile "x" DEFAULT_FILENAME ["y", "x"] =
        .ok (Sample.readX ["y", "x"]) := if_pos rfl
    simp only [CompileRequest.work, Option.getD_none, Option.getD_some, hcompile, hdump]
    rfl
  have hnames : ([("x", one), ("y", two)].map Prod.fst).Nodup := by simp
  have hsource : Crates.compile "x" DEFAULT_FILENAME ["x", "y"] =
      .ok (Sample.readX ["x", "y"]) := if_pos rfl
  have hone : jsonToMonty one = .ok (.Int 1) := by rw [jsonToMonty]; rfl
  have htwo : jsonToMonty two = .ok (.Int 2) := by rw [jsonToMonty]; rfl
  have hconverts : ∀ m ∈ [("x", one), ("y", two)], ∃ o, jsonToMonty m.2 = .ok o := by
    intro m hm
    rcases List.mem_pair.mp hm with rfl | rfl
    · exact ⟨_, hone⟩
    · exact ⟨_, htwo⟩
  obtain ⟨program, values, spec, spec', hprogram, hvalues, hspec, hspec', -, hmeaning, hexecutes,
    hexecutes'⟩ := (@snapshot_runs_as_source Sample.storing "x" none [("x", one), ("y", two)]
      [("y", two), ("x", one)] none Sample.storing_load Sample.decodeBytes_encodeBytes
      Sample.storing_bindingOnly hnames (.swap _ _ _) ⟨_, hsource⟩ _ _ hcompiled).2.1 hconverts
  cases hsource.symm.trans hprogram
  obtain rfl : values = [.Int 1, .Int 2] := by
    cases hvalues with
    | cons hx hrest =>
      cases hone.symm.trans hx
      cases hrest with
      | cons hy hnil =>
        cases htwo.symm.trans hy
        cases hnil
        rfl
  obtain ⟨stats, tracker, stats', hcomes⟩ : ∃ stats tracker stats', ∀ spec : SourceSpec,
      spec.Executes (Sample.readX ["x", "y"]) [.Int 1, .Int 2] →
      spec.run limits 0 {} = (some (.ok (.Completed one "" "" stats)), 0) ∧
        spec.start limits 0 {} = (some (.Started tracker (.Complete (.Int 1) {} stats')), 0) :=
    ⟨_, _, _, fun spec h => ⟨(h.run limits 0 {}).trans rfl, (h.start limits 0 {}).trans rfl⟩⟩
  obtain ⟨hrun, hstart⟩ := hcomes spec hexecutes
  obtain ⟨hrun', hstart'⟩ := hcomes spec' hexecutes'
  exact ⟨_, hcompiled, spec, spec', stats, tracker, stats', hspec, hspec', hmeaning, hrun, hrun',
    hstart, hstart'⟩

end MontyServer
