import Mathlib.Data.List.Forall2
import Mathlib.Logic.Basic

/-!
# Runs of a partial step function

A machine is a function `step` that takes a state and an action to the next state, or to `none`
where the action is not enabled. A list of actions is a run of it. A property of a run speaks of
every state it passes (`Throughout`) or of every step it takes (`EveryStep`), and the rules below
turn a fact about one step into one about the whole run.
-/

namespace Run

variable {σ α : Type} {step : σ → α → Option σ}

/-- Where a list of actions leads. -/
def exec (step : σ → α → Option σ) (s : σ) : List α → Option σ
  | [] => some s
  | a :: as => (step s a).bind fun s' => exec step s' as

/-- Some run leads from `s` to `t`. -/
def Reachable (step : σ → α → Option σ) (s t : σ) : Prop := ∃ as, exec step s as = some t

/-- `P` holds in every state the run passes, the first included. -/
def Throughout (step : σ → α → Option σ) (P : σ → Prop) (s : σ) : List α → Prop
  | [] => P s
  | a :: as => P s ∧ ∀ s', step s a = some s' → Throughout step P s' as

/-- `Q` holds of every step the run takes: of the state before it and of its action. -/
def EveryStep (step : σ → α → Option σ) (Q : σ → α → Prop) (s : σ) : List α → Prop
  | [] => True
  | a :: as => ∀ s', step s a = some s' → Q s a ∧ EveryStep step Q s' as

@[simp] theorem exec_nil (s : σ) : exec step s [] = some s := rfl

theorem exec_cons {s t : σ} {a : α} {as : List α} :
    exec step s (a :: as) = some t ↔ ∃ s', step s a = some s' ∧ exec step s' as = some t := by
  rw [exec, Option.bind_eq_some_iff]

theorem exec_append {s t : σ} {as bs : List α} :
    exec step s (as ++ bs) = some t ↔ ∃ r, exec step s as = some r ∧ exec step r bs = some t := by
  induction as generalizing s with
  | nil => simp
  | cons a as ih =>
    simp only [List.cons_append, exec_cons, ih]
    constructor
    · rintro ⟨s', hs, r, hr, ht⟩
      exact ⟨r, ⟨s', hs, hr⟩, ht⟩
    · rintro ⟨r, ⟨s', hs, hr⟩, ht⟩
      exact ⟨s', hs, r, hr, ht⟩

/-! ## Invariants -/

/-- What every step preserves holds where a run ends. -/
theorem exec_invariant {I : σ → Prop} (keep : ∀ s a s', I s → step s a = some s' → I s')
    {s t : σ} {as : List α} (hs : I s) (h : exec step s as = some t) : I t := by
  induction as generalizing s with
  | nil => cases h; exact hs
  | cons a as ih =>
    obtain ⟨s', hstep, hrest⟩ := exec_cons.mp h
    exact ih (keep s a s' hs hstep) hrest

theorem Reachable.invariant {I : σ → Prop} (keep : ∀ s a s', I s → step s a = some s' → I s')
    {s t : σ} (hs : I s) (h : Reachable step s t) : I t := by
  obtain ⟨as, has⟩ := h
  exact exec_invariant keep hs has

/-- **Turning point**: what holds where a run ends and not where it starts has come true in a step
of the run. -/
theorem exists_turn {P : σ → Prop} {s t : σ} {as : List α} (h : exec step s as = some t)
    (hs : ¬ P s) (ht : P t) :
    ∃ before a after u v, as = before ++ a :: after ∧ exec step s before = some u ∧
      step u a = some v ∧ exec step v after = some t ∧ ¬ P u ∧ P v := by
  induction as generalizing s with
  | nil =>
    cases h
    exact (hs ht).elim
  | cons a as ih =>
    obtain ⟨s', hstep, hrest⟩ := exec_cons.mp h
    by_cases hs' : P s'
    · exact ⟨[], a, as, s, s', rfl, rfl, hstep, hrest, hs, hs'⟩
    · obtain ⟨before, b, after, u, v, rfl, hbefore, hturn⟩ := ih hrest hs'
      exact ⟨a :: before, b, after, u, v, rfl, exec_cons.mpr ⟨s', hstep, hbefore⟩, hturn⟩

/-- **Invariant rule**: what every step that meets `Q` preserves holds throughout every run whose
steps all meet `Q`. -/
theorem throughout_of_everyStep {I P : σ → Prop} {Q : σ → α → Prop}
    (keep : ∀ s a s', I s → Q s a → step s a = some s' → I s') (use : ∀ s, I s → P s)
    {s : σ} {as : List α} (hs : I s) (h : EveryStep step Q s as) : Throughout step P s as := by
  induction as generalizing s with
  | nil => exact use s hs
  | cons a as ih =>
    refine ⟨use s hs, ?_⟩
    intro s' hstep
    obtain ⟨hq, hrest⟩ := h s' hstep
    exact ih (keep s a s' hs hq hstep) hrest

theorem Throughout.head {P : σ → Prop} {s : σ} {as : List α} (h : Throughout step P s as) :
    P s := by
  cases as with
  | nil => exact h
  | cons a as => exact h.1

/-- The last state of a run is one it passes. -/
theorem Throughout.last {P : σ → Prop} {s t : σ} {as : List α} (h : Throughout step P s as)
    (hr : exec step s as = some t) : P t := by
  induction as generalizing s with
  | nil => cases hr; exact h
  | cons a as ih =>
    obtain ⟨s', hstep, hrest⟩ := exec_cons.mp hr
    exact ih (h.2 s' hstep) hrest

/-- Where a step keeps `P` exactly if it meets `Q`, a run keeps `P` exactly if all its steps do. -/
theorem throughout_iff_everyStep {I P : σ → Prop} {Q : σ → α → Prop}
    (keep : ∀ s a s', I s → step s a = some s' → I s')
    (kept_iff : ∀ s a s', I s → P s → step s a = some s' → (P s' ↔ Q s a))
    {s : σ} {as : List α} (hs : I s) (hp : P s) :
    Throughout step P s as ↔ EveryStep step Q s as := by
  induction as generalizing s with
  | nil => exact ⟨fun _ => trivial, fun _ => hp⟩
  | cons a as ih =>
    constructor
    · rintro ⟨-, h⟩ s' hstep
      have hp' : P s' := by
        cases as with
        | nil => exact h s' hstep
        | cons b bs => exact (h s' hstep).1
      exact ⟨(kept_iff s a s' hs hp hstep).mp hp',
        (ih (keep s a s' hs hstep) hp').mp (h s' hstep)⟩
    · intro h
      refine ⟨hp, ?_⟩
      intro s' hstep
      obtain ⟨hq, hrest⟩ := h s' hstep
      exact (ih (keep s a s' hs hstep) ((kept_iff s a s' hs hp hstep).mpr hq)).mpr hrest

/-- The rule for a property of the steps: an invariant that the steps meeting `Q` preserve gives
`R` at every step. -/
theorem everyStep_of_everyStep {I : σ → Prop} {Q R : σ → α → Prop}
    (keep : ∀ s a s', I s → Q s a → step s a = some s' → I s')
    (use : ∀ s a s', I s → Q s a → step s a = some s' → R s a)
    {s : σ} {as : List α} (hs : I s) (h : EveryStep step Q s as) : EveryStep step R s as := by
  induction as generalizing s with
  | nil => trivial
  | cons a as ih =>
    intro s' hstep
    obtain ⟨hq, hrest⟩ := h s' hstep
    exact ⟨use s a s' hs hq hstep, ih (keep s a s' hs hq hstep) hrest⟩

/-- The end of a run whose steps all meet `Q`. -/
theorem exec_invariant_of_everyStep {I : σ → Prop} {Q : σ → α → Prop}
    (keep : ∀ s a s', I s → Q s a → step s a = some s' → I s')
    {s t : σ} {as : List α} (hs : I s) (hq : EveryStep step Q s as)
    (h : exec step s as = some t) : I t := by
  induction as generalizing s with
  | nil => cases h; exact hs
  | cons a as ih =>
    obtain ⟨s', hstep, hrest⟩ := exec_cons.mp h
    obtain ⟨hqa, hqrest⟩ := hq s' hstep
    exact ih (keep s a s' hs hqa hstep) hqrest hrest

theorem everyStep_and {Q R : σ → α → Prop} {s : σ} {as : List α} (hq : EveryStep step Q s as)
    (hr : EveryStep step R s as) : EveryStep step (fun s a => Q s a ∧ R s a) s as := by
  induction as generalizing s with
  | nil => trivial
  | cons a as ih =>
    intro s' hstep
    obtain ⟨hqa, hqrest⟩ := hq s' hstep
    obtain ⟨hra, hrrest⟩ := hr s' hstep
    exact ⟨⟨hqa, hra⟩, ih hqrest hrrest⟩

/-- Two properties that agree on every step of a reachable state hold of the same runs. -/
theorem everyStep_congr {I : σ → Prop} {Q R : σ → α → Prop}
    (keep : ∀ s a s', I s → step s a = some s' → I s')
    (same : ∀ s a s', I s → step s a = some s' → (Q s a ↔ R s a)) {s : σ} {as : List α} (hs : I s) :
    EveryStep step Q s as ↔ EveryStep step R s as := by
  induction as generalizing s with
  | nil => exact Iff.rfl
  | cons a as ih =>
    constructor
    · intro h s' hstep
      obtain ⟨hq, hrest⟩ := h s' hstep
      exact ⟨(same s a s' hs hstep).mp hq, (ih (keep s a s' hs hstep)).mp hrest⟩
    · intro h s' hstep
      obtain ⟨hr, hrest⟩ := h s' hstep
      exact ⟨(same s a s' hs hstep).mpr hr, (ih (keep s a s' hs hstep)).mpr hrest⟩

theorem everyStep_append {Q : σ → α → Prop} {s t : σ} {as bs : List α}
    (hr : exec step s as = some t) :
    EveryStep step Q s (as ++ bs) ↔ EveryStep step Q s as ∧ EveryStep step Q t bs := by
  induction as generalizing s with
  | nil => cases hr; simp [EveryStep]
  | cons a as ih =>
    obtain ⟨s', hstep, hrest⟩ := exec_cons.mp hr
    constructor
    · intro h
      obtain ⟨hq, hafter⟩ := h s' hstep
      obtain ⟨has, hbs⟩ := (ih hrest).mp hafter
      exact ⟨fun s'' hs'' => by cases hstep.symm.trans hs''; exact ⟨hq, has⟩, hbs⟩
    · rintro ⟨has, hbs⟩ s'' hs''
      cases hstep.symm.trans hs''
      obtain ⟨hq, hafter⟩ := has s' hstep
      exact ⟨hq, (ih hrest).mpr ⟨hafter, hbs⟩⟩

/-- `EveryStep`, as a test. -/
def checkSteps (step : σ → α → Option σ) (q : σ → α → Bool) (s : σ) : List α → Bool
  | [] => true
  | a :: as =>
    match step s a with
    | none => true
    | some s' => q s a && checkSteps step q s' as

theorem everyStep_of_check {Q : σ → α → Prop} {q : σ → α → Bool}
    (sound : ∀ s a, q s a = true → Q s a) {s : σ} {as : List α}
    (h : checkSteps step q s as = true) : EveryStep step Q s as := by
  induction as generalizing s with
  | nil => trivial
  | cons a as ih =>
    intro s' hstep
    simp only [checkSteps, hstep, Bool.and_eq_true] at h
    exact ⟨sound s a h.1, ih h.2⟩

/-- What the steps of a run add up to. -/
def tally (step : σ → α → Option σ) (amount : σ → α → Nat) (s : σ) : List α → Nat
  | [] => 0
  | a :: as =>
    match step s a with
    | none => 0
    | some s' => amount s a + tally step amount s' as

/-- **Credit rule**: what grows by no more than each step brings grows by no more than the run
brings. -/
theorem exec_le_tally {f : σ → Nat} {amount : σ → α → Nat}
    (grow : ∀ s a s', step s a = some s' → f s' ≤ f s + amount s a)
    {s t : σ} {as : List α} (h : exec step s as = some t) : f t ≤ f s + tally step amount s as := by
  induction as generalizing s with
  | nil =>
    cases h
    exact Nat.le_refl _
  | cons a as ih =>
    obtain ⟨s', hstep, hrest⟩ := exec_cons.mp h
    have hfirst := grow s a s' hstep
    have hothers := ih hrest
    simp only [tally, hstep]
    omega

/-- **Accounting rule**: where every step balances what comes in with what is there and what goes
out, so does every run. -/
theorem exec_balance {I : σ → Prop} {came held : σ → Nat} {gone : σ → α → Nat}
    (keep : ∀ s a s', I s → step s a = some s' → I s')
    (balance : ∀ s a s', I s → step s a = some s' →
      held s' + gone s a + came s = held s + came s')
    {s t : σ} {as : List α} (hs : I s) (h : exec step s as = some t) :
    held t + tally step gone s as + came s = held s + came t := by
  induction as generalizing s with
  | nil =>
    cases h
    rfl
  | cons a as ih =>
    obtain ⟨s', hstep, hrest⟩ := exec_cons.mp h
    have hfirst := balance s a s' hs hstep
    have hothers := ih (keep s a s' hs hstep) hrest
    simp only [tally, hstep]
    omega

/-! ## Two runs -/

/-- `Q` holds of every action of the run as it comes up, possible or not. -/
def Along (step : σ → α → Option σ) (Q : σ → α → Prop) (s : σ) : List α → Prop
  | [] => True
  | a :: as => Q s a ∧ ∀ s', step s a = some s' → Along step Q s' as

theorem Along.everyStep {Q : σ → α → Prop} {s : σ} {as : List α} (h : Along step Q s as) :
    EveryStep step Q s as := by
  induction as generalizing s with
  | nil => trivial
  | cons a as ih => exact fun s' hstep => ⟨h.1, ih (h.2 s' hstep)⟩

/-- `Along`, as a test. -/
def checkAlong (step : σ → α → Option σ) (q : σ → α → Bool) (s : σ) : List α → Bool
  | [] => true
  | a :: as => q s a && (step s a).all fun s' => checkAlong step q s' as

theorem along_of_check {Q : σ → α → Prop} {q : σ → α → Bool}
    (sound : ∀ s a, q s a = true → Q s a) {s : σ} {as : List α}
    (h : checkAlong step q s as = true) : Along step Q s as := by
  induction as generalizing s with
  | nil => trivial
  | cons a as ih =>
    rw [checkAlong, Bool.and_eq_true, Option.all_eq_true] at h
    exact ⟨sound s a h.1, fun s' hstep => ih (h.2 s' hstep)⟩

/-- **Two runs**: where `f` commutes with every action that meets `Q`, it commutes with the run. -/
theorem exec_map {I : σ → Prop} {Q : σ → α → Prop} {f : σ → σ}
    (keep : ∀ s a s', I s → Q s a → step s a = some s' → I s')
    (comm : ∀ s a, I s → Q s a → step (f s) a = (step s a).map f)
    {s : σ} {as : List α} (hs : I s) (hq : Along step Q s as) :
    exec step (f s) as = (exec step s as).map f := by
  induction as generalizing s with
  | nil => rfl
  | cons a as ih =>
    rw [exec, exec, comm s a hs hq.1]
    cases hstep : step s a with
    | none => rfl
    | some s' => exact ih (keep s a s' hs hq.1 hstep) (hq.2 s' hstep)

/-- The run without the actions that `drop` picks where they come up. -/
def erase (step : σ → α → Option σ) (drop : σ → α → Bool) (s : σ) : List α → List α
  | [] => []
  | a :: as =>
    match step s a with
    | none => []
    | some s' => if drop s a then erase step drop s' as else a :: erase step drop s' as

/-- **Erasure rule**: where a dropped action leads to a state still related to where the other run
stays, and any other action can be taken by both, the run without the dropped actions follows. -/
theorem exec_erase {R : σ → σ → Prop} {drop : σ → α → Bool}
    (stay : ∀ s t a s', R s t → drop s a = true → step s a = some s' → R s' t)
    (follow : ∀ s t a s', R s t → drop s a = false → step s a = some s' →
      ∃ t', step t a = some t' ∧ R s' t')
    {s t s' : σ} {as : List α} (hs : R s t) (h : exec step s as = some s') :
    ∃ t', exec step t (erase step drop s as) = some t' ∧ R s' t' := by
  induction as generalizing s t with
  | nil =>
    cases h
    exact ⟨t, rfl, hs⟩
  | cons a as ih =>
    obtain ⟨r, hstep, hrest⟩ := exec_cons.mp h
    simp only [erase, hstep]
    cases hdrop : drop s a with
    | true => exact ih (stay s t a r hs hdrop hstep) hrest
    | false =>
      obtain ⟨r', hstep', hr⟩ := follow s t a r hs hdrop hstep
      obtain ⟨t', hrun, ht'⟩ := ih hr hrest
      exact ⟨t', exec_cons.mpr ⟨r', hstep', hrun⟩, ht'⟩

/-! ## Two machines in lockstep -/

/-- **Simulation rule**: if related states go by related actions to related states or both nowhere,
so do related runs. -/
theorem exec_rel {τ β : Type} {step' : τ → β → Option τ} {R : σ → τ → Prop} {A : α → β → Prop}
    (hstep : ∀ s t a b, R s t → A a b → Option.Rel R (step s a) (step' t b))
    {s : σ} {t : τ} {as : List α} {bs : List β} (hs : R s t) (has : List.Forall₂ A as bs) :
    Option.Rel R (exec step s as) (exec step' t bs) := by
  induction has generalizing s t with
  | nil => exact .some hs
  | @cons a b as bs hab _ ih =>
    rw [exec, exec]
    have hrel := hstep s t a b hs hab
    generalize step s a = next, step' t b = next' at hrel ⊢
    cases hrel with
    | none => exact .none
    | some hnext => exact ih hnext

/-- **Refinement rule**: where every step of one machine is a run of another, so is every run. -/
theorem exec_of_steps {τ β : Type} {step' : τ → β → Option τ} {f : σ → τ}
    (hstep : ∀ s a s', step s a = some s' → ∃ bs, exec step' (f s) bs = some (f s')) {s t : σ}
    {as : List α} (h : exec step s as = some t) : ∃ bs, exec step' (f s) bs = some (f t) := by
  induction as generalizing s with
  | nil =>
    cases h
    exact ⟨[], rfl⟩
  | cons a as ih =>
    obtain ⟨s', hfirst, hrest⟩ := exec_cons.mp h
    obtain ⟨bs, hbs⟩ := hstep s a s' hfirst
    obtain ⟨cs, hcs⟩ := ih hrest
    exact ⟨bs ++ cs, exec_append.mpr ⟨f s', hbs, hcs⟩⟩

end Run
