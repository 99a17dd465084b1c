import Mathlib.Data.List.Forall2

/-!
# Loops that may fail

Steps that return in `Except` are chained by `bind`: the chain succeeds exactly if every step does
(`bind_eq_ok`), and what it can fail with is what one of them can (`FailsWith.bind`); where each
round is a check, it fails at the first one that is not met (`Checks.bind`). A loop over a
list of such rounds is `List.mapM`. It succeeds exactly if every round does (`mapM_eq_ok_iff`), and
fails with the error of one of them (`mapM_error`). What comes out is related to what went in item
by item, so the second half is about `List.Forall₂`.
-/

namespace Rounds

variable {ε α β γ : Type}

/-! ## `Except` -/

theorem exceptMap_eq (f : α → β) (x : Except ε α) : Except.map f x = f <$> x := rfl

/-- Only a success is mapped to a success. -/
theorem map_eq_ok {f : α → β} {x : Except ε α} {b : β} (h : x.map f = .ok b) :
    ∃ a, x = .ok a ∧ f a = b := by
  cases x with
  | error e => cases h
  | ok a =>
    cases h
    exact ⟨a, rfl, rfl⟩

/-- Two steps succeed if both do. -/
theorem bind_eq_ok {x : Except ε α} {f : α → Except ε β} {b : β} :
    x >>= f = .ok b ↔ ∃ a, x = .ok a ∧ f a = .ok b := by
  cases x with
  | error e => exact ⟨fun h => (nomatch h), fun ⟨_, h, _⟩ => (nomatch h)⟩
  | ok a => exact ⟨fun h => ⟨a, rfl, h⟩, fun ⟨_, rfl, h⟩ => h⟩

/-- What `x` can fail with satisfies `P`. -/
def FailsWith (P : ε → Prop) (x : Except ε α) : Prop := ∀ e, x = .error e → P e

theorem FailsWith.ok {P : ε → Prop} (a : α) : FailsWith P (.ok a) := by
  intro e h
  cases h

/-- Two steps fail with what one of them does. -/
theorem FailsWith.bind {P : ε → Prop} {x : Except ε α} {f : α → Except ε β}
    (hx : FailsWith P x) (hf : ∀ a, FailsWith P (f a)) : FailsWith P (x >>= f) := by
  intro e h
  cases x with
  | error e' =>
    cases h
    exact hx e rfl
  | ok a => exact hf a e h

theorem FailsWith.mapError {ε' : Type} {P : ε' → Prop} {x : Except ε α} {f : ε → ε'}
    (hf : ∀ e, P (f e)) : FailsWith P (x.mapError f) := by
  intro e h
  cases x with
  | error e' =>
    cases h
    exact hf e'
  | ok a => cases h

/-- A loop fails with what one of its rounds does. -/
theorem FailsWith.mapM {P : ε → Prop} {g : α → Except ε β} (hg : ∀ a, FailsWith P (g a))
    (as : List α) : FailsWith P (as.mapM g) := by
  induction as with
  | nil => exact .ok _
  | cons a as ih =>
    rw [List.mapM_cons]
    exact (hg a).bind fun _ => ih.bind fun _ => .ok _

/-- `x` goes through the checks in turn: it succeeds if all of them are met, and otherwise fails
with an error that belongs to the first one that is not. -/
def Checks {κ : Type} (met : κ → Prop) (about : ε → κ) (ks : List κ) : Except ε α → Prop
  | .ok _ => ∀ k ∈ ks, met k
  | .error e => ∃ before after,
      ks = before ++ about e :: after ∧ (∀ k ∈ before, met k) ∧ ¬ met (about e)

section Checks

variable {κ : Type} {met : κ → Prop} {about : ε → κ} {ks ls : List κ}

theorem Checks.ok (a : α) : Checks met about [] (.ok a) := by
  intro k hk
  cases hk

/-- Two steps go through the checks of the first and then those of the second. -/
theorem Checks.bind {x : Except ε α} {f : α → Except ε β} (hx : Checks met about ks x)
    (hf : ∀ a, Checks met about ls (f a)) : Checks met about (ks ++ ls) (x >>= f) := by
  cases x with
  | error e =>
    obtain ⟨before, after, rfl, hbefore, hnot⟩ := hx
    exact ⟨before, after ++ ls, by simp, hbefore, hnot⟩
  | ok a =>
    have ha := hf a
    show Checks met about (ks ++ ls) (f a)
    cases hfa : f a with
    | ok b =>
      rw [hfa] at ha
      intro k hk
      rcases List.mem_append.mp hk with hk | hk
      · exact hx k hk
      · exact ha k hk
    | error e =>
      rw [hfa] at ha
      obtain ⟨before, after, rfl, hbefore, hnot⟩ := ha
      refine ⟨ks ++ before, after, (List.append_assoc ..).symm, ?_, hnot⟩
      intro k hk
      rcases List.mem_append.mp hk with hk | hk
      · exact hx k hk
      · exact hbefore k hk

/-- A step that is one check comes first. -/
theorem Checks.cons {k : κ} {x : Except ε α} {f : α → Except ε β}
    (hx : Checks met about [k] x) (hf : ∀ a, Checks met about ls (f a)) :
    Checks met about (k :: ls) (x >>= f) := hx.bind hf

/-- A check that is known to be met. -/
theorem Checks.skip {k : κ} {x : Except ε α} (hk : met k) (h : Checks met about ks x) :
    Checks met about (k :: ks) x := by
  cases x with
  | ok a => exact List.forall_mem_cons.mpr ⟨hk, h⟩
  | error e =>
    obtain ⟨before, after, rfl, hbefore, hnot⟩ := h
    exact ⟨k :: before, after, rfl, List.forall_mem_cons.mpr ⟨hk, hbefore⟩, hnot⟩

/-- What is checked succeeds exactly if every check is met. -/
theorem Checks.ok_iff {x : Except ε α} (h : Checks met about ks x) :
    (∃ a, x = .ok a) ↔ ∀ k ∈ ks, met k := by
  cases x with
  | ok a => exact iff_of_true ⟨a, rfl⟩ h
  | error e =>
    obtain ⟨before, after, rfl, -, hnot⟩ := h
    apply iff_of_false nofun
    intro hall
    exact hnot (hall _ (List.mem_append_right before List.mem_cons_self))

end Checks

/-- What always fails in the end fails. -/
theorem bind_error {x : Except ε α} {f : α → Except ε β} (h : ∀ a, ∃ e, f a = .error e) :
    ∃ e, (x >>= f) = .error e := by
  cases x with
  | error e => exact ⟨e, rfl⟩
  | ok a => exact h a

/-- A loop succeeds exactly if every round does. -/
theorem mapM_eq_ok_iff {g : α → Except ε β} {xs : List α} {ys : List β} :
    xs.mapM g = .ok ys ↔ List.Forall₂ (fun x y => g x = .ok y) xs ys := by
  induction xs generalizing ys with
  | nil =>
    rw [List.mapM_nil, List.forall₂_nil_left_iff]
    exact ⟨fun h => by cases h; rfl, fun h => by rw [h]; rfl⟩
  | cons x xs ih =>
    rw [List.mapM_cons, List.forall₂_cons_left_iff, bind_eq_ok]
    constructor
    · rintro ⟨y, hx, h⟩
      obtain ⟨ys', hxs, h⟩ := bind_eq_ok.mp h
      cases h
      exact ⟨y, ys', hx, ih.mp hxs, rfl⟩
    · rintro ⟨y, ys', hx, hxs, rfl⟩
      exact ⟨y, hx, bind_eq_ok.mpr ⟨ys', ih.mpr hxs, rfl⟩⟩

/-- A loop gets through exactly if every round can. -/
theorem mapM_succeeds_iff {g : α → Except ε β} {xs : List α} :
    (∃ ys, xs.mapM g = .ok ys) ↔ ∀ x ∈ xs, ∃ y, g x = .ok y := by
  induction xs with
  | nil => exact iff_of_true ⟨[], rfl⟩ nofun
  | cons x xs ih =>
    rw [List.forall_mem_cons, ← ih, List.mapM_cons]
    constructor
    · rintro ⟨_, h⟩
      obtain ⟨y, hy, h⟩ := bind_eq_ok.mp h
      obtain ⟨ys, hys, -⟩ := bind_eq_ok.mp h
      exact ⟨⟨y, hy⟩, ys, hys⟩
    · rintro ⟨⟨y, hy⟩, ys, hys⟩
      exact ⟨y :: ys, bind_eq_ok.mpr ⟨y, hy, bind_eq_ok.mpr ⟨ys, hys, rfl⟩⟩⟩

/-- A loop with a round that fails ends with the error of a round. -/
theorem mapM_error {g : α → Except ε β} {xs : List α} (h : ∃ x ∈ xs, ∃ e, g x = .error e) :
    ∃ x ∈ xs, ∃ e, g x = .error e ∧ xs.mapM g = .error e := by
  induction xs with
  | nil =>
    obtain ⟨x, hx, -⟩ := h
    cases hx
  | cons x xs ih =>
    rw [List.mapM_cons]
    cases hx : g x with
    | error e => exact ⟨x, List.mem_cons_self, e, hx, rfl⟩
    | ok y =>
      have htail : ∃ x' ∈ xs, ∃ e, g x' = .error e := by
        obtain ⟨x', hmem, e, he⟩ := h
        rcases List.mem_cons.mp hmem with rfl | hmem
        · cases hx.symm.trans he
        · exact ⟨x', hmem, e, he⟩
      obtain ⟨x', hmem, e, he, hmap⟩ := ih htail
      refine ⟨x', List.mem_cons_of_mem x hmem, e, he, ?_⟩
      rw [hmap]
      rfl

/-- A loop over the second column of some rows gives back the first. -/
theorem mapM_rows {g : β → Except ε γ} (rows : List α) (f : α → β) (h : α → γ)
    (hrows : ∀ r ∈ rows, g (f r) = .ok (h r)) : (rows.map f).mapM g = .ok (rows.map h) := by
  rw [mapM_eq_ok_iff, List.forall₂_map_left_iff, List.forall₂_map_right_iff, List.forall₂_same]
  exact hrows

/-! ## Item by item -/

section Forall₂

variable {R : α → β → Prop} {xs : List α} {ys : List β}

theorem exists_of_mem_left {x : α} (h : List.Forall₂ R xs ys) (hx : x ∈ xs) :
    ∃ y ∈ ys, R x y := by
  induction h with
  | nil => cases hx
  | cons hr _ ih =>
    rcases List.mem_cons.mp hx with rfl | hx
    · exact ⟨_, List.mem_cons_self, hr⟩
    · obtain ⟨y, hy, hxy⟩ := ih hx
      exact ⟨y, List.mem_cons_of_mem _ hy, hxy⟩

theorem exists_of_mem_right {y : β} (h : List.Forall₂ R xs ys) (hy : y ∈ ys) :
    ∃ x ∈ xs, R x y :=
  exists_of_mem_left (List.Forall₂.flip (R := flip R) h) hy

theorem forall₂_getElem? (h : List.Forall₂ R xs ys) (i : Nat) : Option.Rel R xs[i]? ys[i]? := by
  induction h generalizing i with
  | nil => exact .none
  | cons hr _ ih =>
    cases i with
    | zero => exact .some hr
    | succ i => exact ih i

theorem forall₂_set (h : List.Forall₂ R xs ys) (i : Nat) {x : α} {y : β} (hxy : R x y) :
    List.Forall₂ R (xs.set i x) (ys.set i y) := by
  induction h generalizing i with
  | nil => exact .nil
  | cons hr htail ih =>
    cases i with
    | zero => exact .cons hxy htail
    | succ i => exact .cons hr (ih i)

end Forall₂

/-- Rows whose first column is the list. -/
theorem exists_rows {f : γ → α} {Q : γ → Prop} {xs : List α}
    (h : ∀ x ∈ xs, ∃ r, f r = x ∧ Q r) : ∃ rows : List γ, rows.map f = xs ∧ ∀ r ∈ rows, Q r := by
  induction xs with
  | nil => exact ⟨[], rfl, by simp⟩
  | cons x xs ih =>
    obtain ⟨r, hr, hq⟩ := h x List.mem_cons_self
    obtain ⟨rows, hrows, hall⟩ := ih fun y hy => h y (List.mem_cons_of_mem x hy)
    refine ⟨r :: rows, by rw [List.map_cons, hr, hrows], ?_⟩
    intro r' hr'
    rcases List.mem_cons.mp hr' with rfl | hr'
    · exact hq
    · exact hall r' hr'

end Rounds
