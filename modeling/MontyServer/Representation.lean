import MontyServer.Answers

/-!
# What a stored session looks like

An entry says three times whether its session is over: in `terminal`, in the snapshot, and by having
a progress or not. Every reachable entry says the same each time, and a progress it has, or a resume
has taken out of it, is one the client can answer (`entries_represented`). So the arms of the
source that are there for nothing else are never taken: the `unreachable!` of `apply_resume`
(`applyArm`), and the last arm of `describe_pause`.
-/

namespace MontyServer

/-! ## Entries -/

/-- The session is over. -/
def StepSnapshot.Final : StepSnapshot → Prop
  | .Completed .. | .Failed .. => True
  | .Paused .. => False

/-- **Representation invariant** of a stored entry. -/
structure SessionEntry.Represented (e : SessionEntry) : Prop where
  terminal_iff : e.terminal = true ↔ e.snapshot.Final
  progress_none : e.terminal = true → e.progress = none
  paused : ∀ p, e.progress = some p → ∃ output stats, e.snapshot = .Paused output stats
  actionable : ∀ p, e.progress = some p → p.Actionable

/-- What a step leaves in an entry agrees with itself. -/
theorem splitStep_represented (step : SessionStep) :
    ((splitStep step).2.1 = true ↔ (splitStep step).2.2.Final) ∧
    ((splitStep step).2.1 = true → (splitStep step).1 = none) ∧
    ∀ p, (splitStep step).1 = some p →
      ∃ output stats, (splitStep step).2.2 = .Paused output stats := by
  cases step with
  | Paused progress output stats => exact ⟨by simp [splitStep, StepSnapshot.Final], by
      simp [splitStep], fun _ _ => ⟨output, stats, rfl⟩⟩
  | Complete result output stats => exact ⟨by simp [splitStep, StepSnapshot.Final], by
      simp [splitStep], by simp [splitStep]⟩
  | Failed exception breach output stats => exact ⟨by simp [splitStep, StepSnapshot.Final], by
      simp [splitStep], by simp [splitStep]⟩

variable [Crates]

namespace Server

variable {s : Server} {id : Uuid}

/-- An entry is what the latest step left in it, but for a progress that has been taken. -/
theorem Wf.represented (wf : s.Wf) {e : SessionEntry} (he : s.entry id = some e) :
    e.Represented := by
  obtain ⟨link, rest, -, hsplit, hprogress⟩ := (wf.linearHistory id).shown e he
  have hterminal : (splitStep link.step).2.1 = e.terminal := congrArg Prod.fst hsplit
  have hsnapshot : (splitStep link.step).2.2 = e.snapshot := congrArg Prod.snd hsplit
  obtain ⟨hiff, hnone, hpaused⟩ := splitStep_represented link.step
  rw [hterminal, hsnapshot] at hiff
  rw [hterminal] at hnone
  rw [hsnapshot] at hpaused
  refine ⟨hiff, ?_, fun p hp => hpaused p (hprogress p hp), (wf.consistent he).1⟩
  intro hdone
  cases hp : e.progress with
  | none => rfl
  | some p =>
    have hleft := hprogress p hp
    rw [hnone hdone] at hleft
    cases hleft

/-- A progress in the hands of a resume is one the client can answer. -/
theorem Wf.taken_actionable (wf : s.Wf) {i : RequestId} {caller : String} {body : Value}
    {input : ResumeInput} {spawn : Spawn RunProgress ResumeResult}
    (hr : s.requests[i]? = some ⟨caller, .resume id body (.executing input spawn)⟩)
    {p : RunProgress} {awaited : Bool} (hwork : spawn.work = some (p, awaited)) :
    p.Actionable := by
  obtain ⟨-, e, he, -⟩ := wf.handlers i _ hr
  have hhand : s.hand id i =
      some (if awaited then .pending (p, e.tracker) else .adrift (p, e.tracker)) :=
    (hand_of_request hr he).trans ((hand_own ..).trans (Resume.hand_work hwork ..))
  obtain ⟨token, hlatest, hunused, -⟩ := (wf.cell id).latest_of_hand hhand
  have htoken : (p, e.tracker) = token := hunused _ (by cases awaited <;> rfl)
  subst htoken
  -- the latest step is the pause that left it
  have hlinked : rules.Linked (s.app.trail id) := (wf.linearHistory id).linked
  rw [show (s.cell id).log = s.app.trail id from rfl] at hlatest
  cases htrail : s.app.trail id with
  | nil =>
    rw [htrail] at hlatest
    cases hlatest
  | cons link rest =>
    rw [htrail] at hlatest hlinked
    obtain ⟨output, stats, hstep, -⟩ := next_eq_some hlatest
    have hanswerable := answerable_of_linked hlinked
    rw [hstep] at hanswerable
    exact hanswerable

end Server

/-- **The representation invariant of stored sessions.** In every reachable state an entry is
terminal exactly if its snapshot is final, a terminal entry has no progress, and a progress goes
with a paused snapshot and is one the client can answer. So is a progress that a resume has taken,
and `apply_resume` has an arm for whatever `check_resume` lets through: no client sees an OS call or
answers one. -/
theorem entries_represented (config : Config) (s : Server) (h : Server.Reachable config s) :
    (∀ id e, s.app.sessions.entries id = some e →
      (e.terminal = true ↔ e.snapshot.Final) ∧ (e.terminal = true → e.progress = none) ∧
      ∀ p, e.progress = some p →
        (∃ output stats, e.snapshot = .Paused output stats) ∧ p.Actionable) ∧
    (∀ (i : RequestId) (caller : String) (id : Uuid) (body : Value) (input : ResumeInput)
      (spawn : Spawn RunProgress ResumeResult) (p : RunProgress) (awaited : Bool),
      s.requests[i]? = some ⟨caller, .resume id body (.executing input spawn)⟩ →
      spawn.work = some (p, awaited) → p.Actionable) ∧
    ∀ (p : RunProgress) (input : ResumeInput), checkResume p input = .ok () →
      ∃ resumed, applyArm p input = some resumed ∧ ∀ w, applyResume p input w = resumed.exec w := by
  refine ⟨?_, ?_, ?_⟩
  · intro id e he
    obtain ⟨hterminal, hnone, hpaused, hactionable⟩ := h.wf.represented he
    exact ⟨hterminal, hnone, fun p hp => ⟨hpaused p hp, hactionable p hp⟩⟩
  · intro i caller id body input spawn p awaited hr hwork
    exact h.wf.taken_actionable hr hwork
  · intro p input hc
    obtain ⟨resumed, harm⟩ := Option.isSome_iff_exists.mp ((checkResume_ok_iff p input).mp hc)
    exact ⟨resumed, harm, fun w => by rw [applyResume_eq, harm, Option.elim_some]⟩

omit [Crates] in
/-- A session while a resume has its progress. -/
theorem entries_represented_taken :
    ∃ (_ : Crates) (s : Server) (e : SessionEntry), s.app.sessions.entries 7 = some e ∧
      e.progress = none ∧ (e.terminal = true ↔ e.snapshot.Final) := by
  let _ := Sample.crates
  have hrun : (Run.exec Server.step (.new Sample.config)
      (Sample.opening ++ Sample.taking 1)).any
      (fun s => (s.app.sessions.entries 7).any fun e => e.progress.isNone) = true := by decide
  obtain ⟨s, hs, htest⟩ := Option.any_eq_true _ _ |>.mp hrun
  obtain ⟨e, he, hnone⟩ := Option.any_eq_true _ _ |>.mp htest
  have hall := (entries_represented Sample.config s ⟨_, hs⟩).1 7 e he
  exact ⟨Sample.crates, s, e, he, Option.isNone_iff_eq_none.mp hnone, hall.1⟩

end MontyServer
