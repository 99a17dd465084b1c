import Mathlib.Algebra.Order.Field.Basic
import MontyServer.Lib.Run

/-!
# Runs that come to an end

How far a machine goes. Where every step of one client raises a rank of the state and no other step
lowers it, the client takes no more steps than the rank has room for (`rank_add_countP_le`). Where a
state in which something is left to do can always be led to one with less left to do, there is a
run to a state with nothing left (`exists_done`); if the steps in between are of a certain kind, the
whole run is, so that nobody else has to do anything for it.
-/

namespace Run

variable {σ α : Type} {step : σ → α → Option σ}

/-- **Budget rule**: the steps of a client are paid out of a rank that nothing lowers. -/
theorem rank_add_countP_le {own : α → Bool} {rank : σ → Nat}
    (spend : ∀ s a s', step s a = some s' → rank s + (if own a then 1 else 0) ≤ rank s')
    {s t : σ} {as : List α} (h : exec step s as = some t) : rank s + as.countP own ≤ rank t := by
  induction as generalizing s with
  | nil =>
    cases h
    exact Nat.le_refl _
  | cons a as ih =>
    obtain ⟨s', hstep, hrest⟩ := exec_cons.mp h
    have hfirst := spend s a s' hstep
    have hothers := ih hrest
    rw [List.countP_cons]
    omega

/-- What every action of a kind preserves holds where a run of such actions ends. -/
theorem exec_invariant_of_forall {I : σ → Prop} {Q : α → Prop}
    (keep : ∀ s a s', I s → Q a → step s a = some s' → I s') {s t : σ} {as : List α} (hs : I s)
    (hq : ∀ a ∈ as, Q a) (h : exec step s as = some t) : I t := by
  induction as generalizing s with
  | nil =>
    cases h
    exact hs
  | cons a as ih =>
    obtain ⟨s', hstep, hrest⟩ := exec_cons.mp h
    obtain ⟨hqa, hqas⟩ := List.forall_mem_cons.mp hq
    exact ih (keep s a s' hs hqa hstep) hqas hrest

/-- Where one of a crowd is replaced, what they have changes by what that one has. -/
theorem sum_map_set {β : Type} {amount : β → Nat} {bs : List β} {i : Nat} {b b' : β}
    (hb : bs[i]? = some b) :
    ((bs.set i b').map amount).sum + amount b = (bs.map amount).sum + amount b' := by
  induction bs generalizing i with
  | nil => cases hb
  | cons c cs ih =>
    cases i with
    | zero =>
      cases hb
      simp only [List.set_cons_zero, List.map_cons, List.sum_cons]
      omega
    | succ i =>
      rw [List.getElem?_cons_succ] at hb
      have hrest := ih hb
      simp only [List.set_cons_succ, List.map_cons, List.sum_cons]
      omega

/-- What a crowd has left gets less when one of them has less left. -/
theorem sum_map_set_lt {β : Type} {left : β → Nat} {bs : List β} {i : Nat} {b b' : β}
    (hb : bs[i]? = some b) (hless : left b' < left b) :
    ((bs.set i b').map left).sum < (bs.map left).sum := by
  have hset := @sum_map_set β left bs i b b' hb
  omega

/-- Runs of one kind of action compose. -/
theorem exec_append_of_forall {Q : α → Prop} {r s t : σ} {as bs : List α}
    (has : ∀ a ∈ as, Q a) (hbs : ∀ a ∈ bs, Q a) (hr : exec step r as = some s)
    (hs : exec step s bs = some t) :
    ∃ cs, (∀ a ∈ cs, Q a) ∧ exec step r cs = some t :=
  ⟨as ++ bs, List.forall_mem_append.mpr ⟨has, hbs⟩, exec_append.mpr ⟨s, hr, hs⟩⟩

/-- **Variant rule**: as long as something is left to do, actions of one kind lead on to a state
with less left; so they lead to one with nothing left. -/
theorem exists_done {I Done : σ → Prop} {Q : α → Prop} {left : σ → Nat}
    (go : ∀ s, I s → ¬ Done s →
      ∃ as t, (∀ a ∈ as, Q a) ∧ exec step s as = some t ∧ I t ∧ left t < left s)
    {s : σ} (hs : I s) :
    ∃ as t, (∀ a ∈ as, Q a) ∧ exec step s as = some t ∧ I t ∧ Done t := by
  induction hleft : left s using Nat.strongRecOn generalizing s with
  | ind n ih =>
    by_cases hdone : Done s
    · exact ⟨[], s, nofun, rfl, hs, hdone⟩
    · obtain ⟨as, t, has, ht, hinv, hless⟩ := go s hs hdone
      obtain ⟨bs, u, hbs, hu, hinv', hdone'⟩ := ih (left t) (hleft ▸ hless) hinv rfl
      obtain ⟨cs, hcs, hrun⟩ := exec_append_of_forall has hbs ht hu
      exact ⟨cs, u, hcs, hrun, hinv', hdone'⟩

end Run
