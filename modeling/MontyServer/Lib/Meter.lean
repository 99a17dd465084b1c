import Mathlib.Algebra.Order.Field.Basic
import Mathlib.Tactic.Linarith
import Mathlib.Tactic.Ring

/-!
# Metered machines

A machine takes events, each at a time, and charges for some of them. Its *level* at a time is what
it could still be charged then. Where a charge is paid out of the level, and the level grows no
faster than at a fixed rate and never above a capacity, the charges in any window of time are at
most the capacity and what the rate adds during the window (`Law.charges_le`), whatever happens
before, between and after. The level is a potential: a charge lowers it, time raises it.
-/

namespace Meter

variable {σ α T K : Type} [LinearOrder T] [Field K] [LinearOrder K] [IsStrictOrderedRing K]

/-- How many of the events from `t` to `t'` are charged. -/
def charges (step : σ → α → σ) (charged : σ → α → Bool) (time : α → T) (t t' : T) (s : σ) :
    List α → Nat
  | [] => 0
  | a :: as =>
    (if charged s a ∧ t ≤ time a ∧ time a ≤ t' then 1 else 0) +
      charges step charged time t t' (step s a) as

/-- The level of a machine pays for its charges. `Q` says which events the law is about, `I` is an
invariant under them, and `clock` measures times in the field. -/
structure Law (I : σ → Prop) (Q : α → Prop) (step : σ → α → σ) (charged : σ → α → Bool)
    (time : α → T) (clock : T → K) (level : σ → T → K) (capacity rate : K) : Prop where
  keep : ∀ s a, I s → Q a → I (step s a)
  nonneg : ∀ s t, I s → 0 ≤ level s t
  le_capacity : ∀ s t, I s → level s t ≤ capacity
  clock_mono : ∀ t t', t ≤ t' → clock t ≤ clock t'
  rate_nonneg : 0 ≤ rate
  grow : ∀ s t t', I s → t ≤ t' → level s t' ≤ level s t + (clock t' - clock t) * rate
  pay : ∀ s a, I s → Q a →
    level (step s a) (time a) + (if charged s a then 1 else 0) ≤ level s (time a)

section Charges

variable {step : σ → α → σ} {charged : σ → α → Bool} {time : α → T} {t t' : T}

/-- Nothing is charged once the window is over. -/
theorem charges_eq_zero {s : σ} {as : List α} (h : ∀ a ∈ as, t' < time a) :
    charges step charged time t t' s as = 0 := by
  induction as generalizing s with
  | nil => rfl
  | cons a as ih =>
    obtain ⟨ha, has⟩ := List.forall_mem_cons.mp h
    have hout : ¬ (charged s a ∧ t ≤ time a ∧ time a ≤ t') := fun hin =>
      absurd hin.2.2 (not_le.mpr ha)
    rw [charges, if_neg hout, ih has]

end Charges

namespace Law

variable {I : σ → Prop} {Q : α → Prop} {step : σ → α → σ} {charged : σ → α → Bool}
  {time : α → T} {clock : T → K} {level : σ → T → K} {capacity rate : K}

theorem level_nonneg (law : Law I Q step charged time clock level capacity rate) {t u : T} {s : σ}
    (hs : I s) (hut : u ≤ t) : 0 ≤ level s u + (clock t - clock u) * rate :=
  add_nonneg (law.nonneg s u hs)
    (mul_nonneg (sub_nonneg.mpr (law.clock_mono u t hut)) law.rate_nonneg)

/-- From a time before all events on, they are paid out of the level and of what the rate adds. -/
theorem charges_le_level (law : Law I Q step charged time clock level capacity rate) {t t' u : T}
    {s : σ} {as : List α} (hs : I s) (hq : ∀ a ∈ as, Q a)
    (hsorted : as.Pairwise fun a b => time a ≤ time b) (hu : ∀ a ∈ as, u ≤ time a) (hut : u ≤ t') :
    (charges step charged time t t' s as : K) ≤ level s u + (clock t' - clock u) * rate := by
  induction as generalizing s u with
  | nil =>
    rw [charges, Nat.cast_zero]
    exact law.level_nonneg hs hut
  | cons a as ih =>
    obtain ⟨hqa, hqas⟩ := List.forall_mem_cons.mp hq
    obtain ⟨hafter, hsorted⟩ := List.pairwise_cons.mp hsorted
    obtain ⟨hua, -⟩ := List.forall_mem_cons.mp hu
    by_cases hin : time a ≤ t'
    · -- the level pays for `a`, and what is left of it for the rest
      have hpay := law.pay s a hs hqa
      have hgrow := law.grow s u (time a) hs hua
      have hih := ih (law.keep s a hs hqa) hqas hsorted hafter hin
      have hcharge : ((if charged s a ∧ t ≤ time a ∧ time a ≤ t' then 1 else 0 : Nat) : K) ≤
          if charged s a then 1 else 0 := by
        by_cases hc : charged s a
        · rw [if_pos hc]
          split
          · exact le_of_eq Nat.cast_one
          · rw [Nat.cast_zero]
            exact zero_le_one
        · rw [if_neg hc, if_neg fun h => hc h.1, Nat.cast_zero]
      rw [charges, Nat.cast_add]
      calc _ ≤ (if charged s a then 1 else 0) +
            (level (step s a) (time a) + (clock t' - clock (time a)) * rate) :=
              add_le_add hcharge hih
        _ ≤ level s (time a) + (clock t' - clock (time a)) * rate := by linarith
        _ ≤ level s u + (clock (time a) - clock u) * rate +
            (clock t' - clock (time a)) * rate := by linarith
        _ = level s u + (clock t' - clock u) * rate := by ring
    · have hlate : ∀ b ∈ a :: as, t' < time b := List.forall_mem_cons.mpr
        ⟨not_le.mp hin, fun b hb => lt_of_lt_of_le (not_le.mp hin) (hafter b hb)⟩
      rw [charges_eq_zero hlate, Nat.cast_zero]
      exact law.level_nonneg hs hut

/-- **Window bound**: in any window of any run, the charges are at most the capacity and what the
rate adds while the window lasts. -/
theorem charges_le (law : Law I Q step charged time clock level capacity rate) {t t' : T} {s : σ}
    {as : List α} (hs : I s) (hq : ∀ a ∈ as, Q a)
    (hsorted : as.Pairwise fun a b => time a ≤ time b) (ht : t ≤ t') :
    (charges step charged time t t' s as : K) ≤ capacity + (clock t' - clock t) * rate := by
  induction as generalizing s with
  | nil =>
    have h := law.charges_le_level (t := t) (u := t) hs hq hsorted (by simp) ht
    exact h.trans (add_le_add_left (law.le_capacity s t hs) _)
  | cons a as ih =>
    obtain ⟨hqa, hqas⟩ := List.forall_mem_cons.mp hq
    obtain ⟨hafter, hsorted'⟩ := List.pairwise_cons.mp hsorted
    by_cases hbefore : time a < t
    · -- before the window nothing counts
      have hout : ¬ (charged s a ∧ t ≤ time a ∧ time a ≤ t') := fun hin =>
        absurd hbefore (not_lt.mpr hin.2.1)
      rw [charges, if_neg hout, zero_add]
      exact ih (law.keep s a hs hqa) hqas hsorted'
    · -- the window has begun: the level is at most the capacity
      have hu : ∀ b ∈ a :: as, t ≤ time b := List.forall_mem_cons.mpr
        ⟨not_lt.mp hbefore, fun b hb => (not_lt.mp hbefore).trans (hafter b hb)⟩
      have h := law.charges_le_level (t := t) hs hq hsorted hu ht
      exact h.trans (add_le_add_left (law.le_capacity s t hs) _)

end Law

end Meter
