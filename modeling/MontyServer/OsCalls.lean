import MontyServer.Engine

/-!
# OS calls and what is printed around them

A start or a resume may be followed by any number of pauses for an OS call. None of them reaches a
client: `settle` resumes each with `PermissionError` and goes on with what the program does next.
All these calls into the interpreter print to one buffer, and the step of the segment shows what
they printed, stream by stream.

`Chain` is what a program and whoever answers its OS calls do together: the OS calls in order, each
answered once. Of all chains `settle` follows the one whose answers are refusals, and the step of
the segment is read off it (`segment_output`): which kind of step it is off its end, and the output
off the fragments of the first call and of every resume, in the order they were printed, however the
chain ends.
-/

namespace MontyServer

/-! ## What one call into the interpreter prints -/

/-- The fragments an execution prints, in order; which they are may depend on what the tracker
answers. -/
def Execution.printed {α : Type} : Execution α → World → List (PrintStream × String)
  | .ret _, _ => []
  | .raise _, _ => []
  | .panic, _ => []
  | .elapse d rest, w => rest.printed (w.elapse d)
  | .print stream text rest, w => (stream, text) :: rest.printed (w.print stream text)
  | .call c answered, w => (answered (w.call c).2).printed (w.call c).1

/-- An execution appends what it prints to the buffer. -/
theorem Execution.exec_fragments {α : Type} (e : Execution α) (w : World) :
    (e.exec w).2.fragments = w.fragments ++ e.printed w := by
  induction e generalizing w with
  | ret a => exact (List.append_nil _).symm
  | raise exc => exact (List.append_nil _).symm
  | panic => exact (List.append_nil _).symm
  | elapse d rest ih => exact ih _
  | print stream text rest ih =>
    show (rest.exec (w.print stream text)).2.fragments = _
    rw [ih, Execution.printed]
    show w.fragments ++ [(stream, text)] ++ _ = _
    rw [List.append_assoc, List.singleton_append]
  | call c answered ih => exact ih _ _

/-! ## Chains of OS calls -/

/-- A call into the interpreter, in the world it is made in. -/
structure Resumed where
  execution : Execution RunProgress
  world : World

/-- What it prints. -/
def Resumed.printed (r : Resumed) : List (PrintStream × String) := r.execution.printed r.world

/-- An OS call that a program pauses at, what it is answered with, and the world that is in. -/
structure Answered where
  resume : ExtFunctionResult → Execution RunProgress
  answer : ExtFunctionResult
  world : World

/-- The call into the interpreter by which it is answered. -/
def Answered.resumed (a : Answered) : Resumed := ⟨a.resume a.answer, a.world⟩

/-- It is answered with the exception `PermissionError`. -/
def Answered.Refused (a : Answered) : Prop :=
  a.answer = .Error
    { excType := ⟨"PermissionError"⟩
      message := some "filesystem and OS access are disabled on this server" }

/-- `Chain start answered last`: a call into the interpreter has returned `start`; the OS calls it
pauses at from there on are answered once each, as `answered` says and in that order; and `last` is
where that ends: the first progress that is not an OS call, an error, or a panic. -/
inductive Chain : Ending RunProgress × World → List Answered → Ending RunProgress × World → Prop
  | settled {p : RunProgress} {w : World} (h : p.Settled) :
    Chain (some (.ok p), w) [] (some (.ok p), w)
  | failed {exc : MontyException} {w : World} :
    Chain (some (.error exc), w) [] (some (.error exc), w)
  | panicked {w : World} : Chain (none, w) [] (none, w)
  | osCall {resume : ExtFunctionResult → Execution RunProgress} {answer : ExtFunctionResult}
    {w : World} {answered : List Answered} {last : Ending RunProgress × World} :
    Chain ((resume answer).exec w) answered last →
    Chain (some (.ok (.OsCall resume)), w) (⟨resume, answer, w⟩ :: answered) last

/-- **A start has one chain of refusals**: at every progress at most one of the four cases
applies, and there is one way to refuse. -/
theorem Chain.unique {start last last' : Ending RunProgress × World}
    {answered answered' : List Answered} (h : Chain start answered last)
    (hrefused : ∀ a ∈ answered, a.Refused) (h' : Chain start answered' last')
    (hrefused' : ∀ a ∈ answered', a.Refused) : answered = answered' ∧ last = last' := by
  induction h generalizing answered' last' with
  | settled hp =>
    cases h' with
    | settled => exact ⟨rfl, rfl⟩
    | osCall => exact hp.elim
  | failed => cases h'; exact ⟨rfl, rfl⟩
  | panicked => cases h'; exact ⟨rfl, rfl⟩
  | osCall _ ih =>
    cases h' with
    | settled hp => exact hp.elim
    | osCall h' =>
      obtain ⟨hanswer, hrest⟩ := List.forall_mem_cons.mp hrefused
      obtain ⟨hanswer', hrest'⟩ := List.forall_mem_cons.mp hrefused'
      cases Eq.trans hanswer (Eq.symm hanswer')
      obtain ⟨rfl, rfl⟩ := ih hrest h' hrest'
      exact ⟨rfl, rfl⟩

mutual
theorem RunProgress.exists_chain : ∀ (p : RunProgress) (w : World),
    ∃ answered, Chain (some (.ok p), w) answered (p.settleLoop w) ∧ ∀ a ∈ answered, a.Refused
  | .OsCall resume, w => by
    obtain ⟨answered, h, hrefused⟩ := Execution.exists_chain (resume (.Error denied)) w
    rw [← RunProgress.settleLoop] at h
    exact ⟨_, .osCall h, List.forall_mem_cons.mpr ⟨rfl, hrefused⟩⟩
  | .FunctionCall .., _ => ⟨[], .settled trivial, List.forall_mem_nil _⟩
  | .NameLookup .., _ => ⟨[], .settled trivial, List.forall_mem_nil _⟩
  | .ResolveFutures .., _ => ⟨[], .settled trivial, List.forall_mem_nil _⟩
  | .Complete .., _ => ⟨[], .settled trivial, List.forall_mem_nil _⟩

theorem Execution.exists_chain : ∀ (e : Execution RunProgress) (w : World),
    ∃ answered, Chain (e.exec w) answered (e.settleLoop w) ∧ ∀ a ∈ answered, a.Refused
  | .ret p, w => p.exists_chain w
  | .raise _, _ => ⟨[], .failed, List.forall_mem_nil _⟩
  | .panic, _ => ⟨[], .panicked, List.forall_mem_nil _⟩
  | .elapse d rest, w => Execution.exists_chain rest (w.elapse d)
  | .print stream text rest, w => Execution.exists_chain rest (w.print stream text)
  | .call c answered, w => Execution.exists_chain (answered (w.call c).2) (w.call c).1
end

/-- **`settle` follows a chain of refusals to its end.** -/
theorem settle_chain (start : Ending RunProgress × World) :
    ∃ answered, Chain start answered (settle start) ∧ ∀ a ∈ answered, a.Refused := by
  match start with
  | (none, w) => exact ⟨[], .panicked, List.forall_mem_nil _⟩
  | (some (.error exc), w) => exact ⟨[], .failed, List.forall_mem_nil _⟩
  | (some (.ok p), w) => exact p.exists_chain w

/-- The buffer at the end of a chain: what was there, and what each resume printed. -/
theorem Chain.fragments {start last : Ending RunProgress × World} {answered : List Answered}
    (h : Chain start answered last) :
    last.2.fragments =
      start.2.fragments ++ answered.flatMap fun a => a.resumed.printed := by
  induction h with
  | settled hp => exact (List.append_nil _).symm
  | failed => exact (List.append_nil _).symm
  | panicked => exact (List.append_nil _).symm
  | @osCall resume answer w answered last _ ih =>
    rw [ih, Execution.exec_fragments, List.flatMap_cons, List.append_assoc]
    rfl

/-! ## The two streams -/

/-- The texts printed to one stream, in order. -/
def texts (stream : PrintStream) (fragments : List (PrintStream × String)) : List String :=
  (fragments.filter (·.1 = stream)).map Prod.snd

/-- What an output shows of a stream. -/
def Output.stream (output : Output) : PrintStream → String
  | .Stdout => output.stdout
  | .Stderr => output.stderr

/-- One turn of the loop of `join_streams`. -/
def Output.push (output : Output) : PrintStream × String → Output
  | (.Stdout, text) => { output with stdout := output.stdout ++ text }
  | (.Stderr, text) => { output with stderr := output.stderr ++ text }

theorem Output.push_stream (output : Output) (fragment : PrintStream × String)
    (stream : PrintStream) :
    (output.push fragment).stream stream =
      output.stream stream ++ String.join (texts stream [fragment]) := by
  obtain ⟨printedTo, text⟩ := fragment
  cases printedTo <;> cases stream <;> simp [Output.push, Output.stream, texts]

/-- **Nothing printed is lost, repeated or reordered** within a stream. -/
theorem joinStreams_stream (fragments : List (PrintStream × String)) (stream : PrintStream) :
    (joinStreams fragments).stream stream = String.join (texts stream fragments) := by
  have hfold : ∀ output : Output, (fragments.foldl Output.push output).stream stream =
      output.stream stream ++ String.join (texts stream fragments) := by
    induction fragments with
    | nil => intro output; simp [texts]
    | cons fragment fragments ih =>
      intro output
      rw [List.foldl_cons, ih, Output.push_stream, String.append_assoc, ← String.join_append]
      congr 2
      rw [texts, texts, texts, ← List.map_append, ← List.filter_append, List.singleton_append]
  have hstart : (joinStreams fragments).stream stream =
      (fragments.foldl Output.push {}).stream stream := rfl
  rw [hstart, hfold]
  cases stream <;> simp [Output.stream]

/-! ## Segments -/

/-- **What a segment comes to** that begins with the call `first`: one chain of OS calls follows it
that are all refused. If it ends in a panic there is no step; otherwise the step tells where the
chain has ended, and shows of each stream what the calls of the chain printed to it, one after the
other. -/
def SegmentResult (first : Resumed) (lag : Lag) (result : Option SessionStep × World) : Prop :=
  ∃! answered, (∀ a ∈ answered, a.Refused) ∧
    ∃ ended w, Chain (first.execution.exec first.world) answered (ended, w) ∧
      ((ended = none ∧ result = (none, w)) ∨
      ∃ settled step, ended = some settled ∧ result = (some step, w.endSegment lag) ∧
        step.Tells w.tracker.breach settled ∧
        step.stats = (w.endSegment lag).tracker.stats (w.endSegment lag).now ∧
        ∀ stream, step.output.stream stream = String.join
          (texts stream (first.printed ++ answered.flatMap fun a => a.resumed.printed)))

/-- What `start_session` and `resume_session` make of a first call in a fresh buffer. -/
theorem segmentResult_of_settle {first : Resumed} (hfresh : first.world.fragments = [])
    (lag : Lag) {ended : Ending RunProgress} {w : World}
    (hsettle : settle (first.execution.exec first.world) = (ended, w)) :
    SegmentResult first lag
      (match ended with
      | none => (none, w)
      | some settled => (some (finishStep settled (w.endSegment lag)), w.endSegment lag)) := by
  obtain ⟨answered, hchain, hrefused⟩ := settle_chain (first.execution.exec first.world)
  rw [hsettle] at hchain
  have hbuffer : w.fragments =
      first.printed ++ answered.flatMap fun a => a.resumed.printed := by
    rw [hchain.fragments, Execution.exec_fragments, hfresh, List.nil_append]
    rfl
  refine ⟨answered, ⟨hrefused, ended, w, hchain, ?_⟩, ?_⟩
  · cases ended with
    | none => exact .inl ⟨rfl, rfl⟩
    | some settled =>
      right
      have htells := finishStep_tells (w.endSegment lag)
        fun q (hq : settled = .ok q) => settle_settled (hq ▸ hsettle)
      refine ⟨settled, _, rfl, rfl, htells, finishStep_stats .., ?_⟩
      intro stream
      rw [finishStep_output, joinStreams_stream, ← hbuffer]
      rfl
  · rintro answered' ⟨hrefused', ended', w', hchain', -⟩
    exact (hchain'.unique hrefused' hchain hrefused).1

/-- **OS calls are refused, and nothing printed is lost.** A start, and a resume whose answer fits
the pause, answer each OS call that follows once, in order, with `PermissionError`, up to the first
progress that is none, an error or a panic. The step is paused, completed or failed as that was, and
shows of each stream all that was printed to it on the way, in order. -/
theorem segment_output (run : MontyRun) (inputs : List MontyObject) (limits : ResolvedLimits)
    (now : Instant) (lag : Lag) {progress : RunProgress} {input : ResumeInput}
    {arm : Execution RunProgress} (harm : applyArm progress input = some arm)
    (tracker : StatsTracker) :
    SegmentResult ⟨run.start inputs, World.beginSegment { tracker := .new limits now, now }⟩ lag
      (startSession run inputs limits now lag) ∧
    ∃ result w, resumeSession progress tracker input now lag = (result.map .Stepped, w) ∧
      SegmentResult ⟨arm, World.beginSegment { tracker, now }⟩ lag (result, w) := by
  constructor
  · unfold startSession
    dsimp only
    generalize hsettle : settle ((run.start inputs).exec _) = settled
    obtain ⟨ended, w⟩ := settled
    have hresult := @segmentResult_of_settle ⟨run.start inputs, _⟩ rfl lag _ _ hsettle
    cases ended with
    | none => exact hresult
    | some settled => exact hresult
  · have hcheck : checkResume progress input = .ok () := by
      rw [checkResume_ok_iff, harm]
      rfl
    unfold resumeSession
    dsimp only
    rw [hcheck, applyResume_eq, harm, Option.elim_some]
    dsimp only
    generalize hsettle : settle (arm.exec _) = settled
    obtain ⟨ended, w⟩ := settled
    have hresult := @segmentResult_of_settle ⟨arm, _⟩ rfl lag _ _ hsettle
    cases ended with
    | none => exact ⟨none, w, rfl, hresult⟩
    | some settled => exact ⟨some _, _, rfl, hresult⟩

namespace Sample

/-- How a program sees what an OS call has come to. -/
def told : ExtFunctionResult → String
  | .Error exc => exc.excType.name
  | .Return _ => "granted"

/-- Raises an exception, and ends with a value. -/
def raising : ExtFunctionResult → Execution RunProgress
  | .Error exc => .raise exc
  | .Return value => .ret (.Complete value)

/-- Asks the OS twice, and prints before, in between, and after what it has come to. -/
def asking (rest : ExtFunctionResult → Execution RunProgress) : Execution RunProgress :=
  .print .Stdout "a:" <| .ret <| .OsCall fun first =>
    .print .Stdout (told first) <| .print .Stderr "x" <| .ret <| .OsCall fun second =>
      .print .Stdout ":c" <| rest second

/-- Asks and raises what it gets. -/
def asks : MontyRun where
  run := fun _ => .raise (.new ⟨"NameError"⟩ none)
  start := fun _ => asking raising

/-- Asks and waits for a name. -/
def pausing : Execution RunProgress :=
  asking fun _ => .ret (.NameLookup "g" fun _ => .ret (.Complete .None))

/-- Asks and completes. -/
def completing : Execution RunProgress := asking fun _ => .ret (.Complete .Ellipsis)

/-- Paused on a name; asks once it is answered, and pauses again or completes. -/
def lookup : RunProgress :=
  .NameLookup "f" fun answer =>
    match answer with
    | .Undefined => pausing
    | .Value _ => completing

def tracker : StatsTracker := .new (.resolve none bounds) 0

/-- The world that a segment begins in. -/
def begun : World := World.beginSegment { tracker, now := 0 }

theorem stepped_inj {step : SessionStep} {result : Option SessionStep} {w w' : World}
    (h : (some (ResumeResult.Stepped step), w) = (result.map .Stepped, w')) :
    result = some step ∧ w' = w := by
  cases result with
  | none => cases h
  | some step' => cases h; exact ⟨rfl, rfl⟩

end Sample

/-- A segment that fails, one that pauses and one that completes, each after two OS calls; the
program sees that the first is a `PermissionError`, and raises the second. -/
theorem segment_output_for_asks :
    (∃ message stats, (startSession Sample.asks [] (.resolve none Sample.bounds) 0 {}).1 =
      some (.Failed (.new ⟨"PermissionError"⟩ message) none ⟨"a:PermissionError:c", "x"⟩ stats)) ∧
    SegmentResult ⟨Sample.asking Sample.raising, Sample.begun⟩ {}
      (startSession Sample.asks [] (.resolve none Sample.bounds) 0 {}) ∧
    (∃ resume stats w, resumeSession Sample.lookup Sample.tracker .NameUndefined 0 {} =
        (some (.Stepped (.Paused (.NameLookup "g" resume) ⟨"a:PermissionError:c", "x"⟩ stats)),
          w) ∧
      SegmentResult ⟨Sample.pausing, Sample.begun⟩ {}
        (some (.Paused (.NameLookup "g" resume) ⟨"a:PermissionError:c", "x"⟩ stats), w)) ∧
    ∃ stats w, resumeSession Sample.lookup Sample.tracker (.Name .None) 0 {} =
        (some (.Stepped (.Complete .Ellipsis ⟨"a:PermissionError:c", "x"⟩ stats)), w) ∧
      SegmentResult ⟨Sample.completing, Sample.begun⟩ {}
        (some (.Complete .Ellipsis ⟨"a:PermissionError:c", "x"⟩ stats), w) := by
  have hfailed : (startSession Sample.asks [] (.resolve none Sample.bounds) 0 {}).1 =
      some (.Failed (.new ⟨"PermissionError"⟩ _) none ⟨"a:PermissionError:c", "x"⟩ _) := rfl
  have hpaused : resumeSession Sample.lookup Sample.tracker .NameUndefined 0 {} =
      (some (.Stepped (.Paused (.NameLookup "g" _) ⟨"a:PermissionError:c", "x"⟩ _)), _) := rfl
  have hcompleted : resumeSession Sample.lookup Sample.tracker (.Name .None) 0 {} =
      (some (.Stepped (.Complete .Ellipsis ⟨"a:PermissionError:c", "x"⟩ _)), _) := rfl
  obtain ⟨hstart, result, w, hresume, hpauses⟩ := segment_output Sample.asks []
    (.resolve none Sample.bounds) 0 {}
    (rfl : applyArm Sample.lookup .NameUndefined = some Sample.pausing) Sample.tracker
  obtain ⟨-, result', w', hresume', hcompletes⟩ := segment_output Sample.asks []
    (.resolve none Sample.bounds) 0 {}
    (rfl : applyArm Sample.lookup (.Name .None) = some Sample.completing) Sample.tracker
  obtain ⟨rfl, rfl⟩ := Sample.stepped_inj (hpaused.symm.trans hresume)
  obtain ⟨rfl, rfl⟩ := Sample.stepped_inj (hcompleted.symm.trans hresume')
  exact ⟨⟨_, _, hfailed⟩, hstart, ⟨_, _, _, hpaused, hpauses⟩, _, _, hcompleted, hcompletes⟩

end MontyServer
