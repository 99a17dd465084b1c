import MontyServer.Accounts

/-!
# The three memory gates

`on_allocate`, `on_grow` and `check_large_result` each compare the memory in use and a request with
`max_memory`. Two of them form the sum with `saturating_add`, `on_allocate` with a plain `+`, which
wraps in a release build and panics where overflow checks are on (`onAllocateChecked`). The gates
agree with each other, and with the sum of the two numbers, as long as it fits a `usize`
(`gates_agree_iff`). Past that `on_allocate` *grants*: the sum wraps to less than what is in use.
-/

namespace MontyServer

/-- A refusal for memory. -/
def MemoryRefusal (answer : Answer) : Prop := ∃ limit used, answer = .error (.Memory limit used)

theorem toNat_saturatingAdd (a b : Usize) :
    (saturatingAdd a b).toNat = min (a.toNat + b.toNat) (UInt64.size - 1) := by
  by_cases h : a.toNat + b.toNat < UInt64.size
  · rw [saturatingAdd_of_fits h, toNat_add_of_fits h]
    omega
  · rw [saturatingAdd, if_neg h]
    show UInt64.size - 1 = _
    omega

/-- A sum that does not fit wraps to less than its parts. -/
theorem toNat_add_of_overflow {a b : Usize} (h : UInt64.size ≤ a.toNat + b.toNat) :
    (a + b).toNat < a.toNat := by
  have ha := a.toNat_lt
  have hb := b.toNat_lt
  rw [UInt64.toNat_add]
  unfold UInt64.size at h
  omega

/-- `+` on `usize` where overflow checks are on. -/
def checkedAdd (a b : Usize) : Option Usize :=
  if a.toNat + b.toNat < UInt64.size then some (a + b) else none

namespace StatsTracker

/-- `on_allocate` in a build with overflow checks; `none` is the panic. Below the cap the first
thing it does is to add. -/
def onAllocateChecked (t : StatsTracker) (size : Usize) : Option (StatsTracker × Answer) :=
  match t.maxAllocations.filter (t.allocations ≥ ·) with
  | some _ => some (t.onAllocate size)
  | none => (checkedAdd t.liveMemory size).map fun _ => t.onAllocate size

/-! ## What each gate compares -/

section Gates

variable {t : StatsTracker} {cap max : Usize}

theorem onGrow_refusal_iff (hmax : t.maxMemory = some max) (n : Usize) :
    MemoryRefusal (t.onGrow n).2 ↔ max.toNat < (saturatingAdd t.liveMemory n).toNat := by
  rw [← UInt64.lt_iff_toNat_lt]
  unfold onGrow MemoryRefusal
  by_cases hover : max < saturatingAdd t.liveMemory n
  · simp [hmax, Option.filter, hover]
  · simp [hmax, Option.filter, hover]

theorem checkLargeResult_refusal_iff (hmax : t.maxMemory = some max) (n : Usize) :
    MemoryRefusal (t.checkLargeResult n).2 ↔
      max.toNat < (saturatingAdd t.liveMemory n).toNat := by
  rw [← UInt64.lt_iff_toNat_lt]
  unfold checkLargeResult MemoryRefusal
  by_cases hover : max < saturatingAdd t.liveMemory n
  · simp [hmax, Option.filter, hover]
  · simp [hmax, Option.filter, hover]

/-- Below the cap `on_allocate` compares the sum as the machine forms it. -/
theorem onAllocate_below (hcap : t.maxAllocations = some cap) (hmax : t.maxMemory = some max)
    (hcount : t.allocations < cap) (n : Usize) :
    if max < t.liveMemory + n then MemoryRefusal (t.onAllocate n).2
    else (t.onAllocate n).2 = .ok () := by
  have hroom : ¬ cap ≤ t.allocations := UInt64.not_le.mpr hcount
  unfold onAllocate MemoryRefusal
  by_cases hover : max < t.liveMemory + n
  · simp [hcap, hmax, Option.filter, hroom, hover]
  · simp [hcap, hmax, Option.filter, hroom, hover]

/-- At the cap it refuses whatever the memory. -/
theorem onAllocate_full (hcap : t.maxAllocations = some cap) (hcount : cap ≤ t.allocations)
    (n : Usize) : (t.onAllocate n).2 = .error (.Allocation cap (t.allocations + 1)) := by
  unfold onAllocate
  simp [hcap, Option.filter, hcount]

theorem onAllocateChecked_isSome_iff (hcap : t.maxAllocations = some cap) (n : Usize) :
    (t.onAllocateChecked n).isSome = true ↔
      (t.allocations < cap → t.liveMemory.toNat + n.toNat < UInt64.size) := by
  unfold onAllocateChecked checkedAdd
  by_cases hcount : cap ≤ t.allocations
  · simp [hcap, Option.filter, hcount, UInt64.not_lt.mpr hcount]
  · by_cases hfits : t.liveMemory.toNat + n.toNat < UInt64.size
    · simp [hcap, Option.filter, hcount, hfits]
    · simp [hcap, Option.filter, hcount, hfits, UInt64.not_le.mp hcount]

end Gates

end StatsTracker

/-! ## Agreement -/

open StatsTracker

/-- **The gates agree** on `n` more bytes: each refuses exactly when the two numbers' sum exceeds
the limit, `on_allocate` if the number of allocations does not refuse first; its sum neither wraps
nor panics, and it grants nothing `check_large_result` refuses. -/
structure GatesAgree (t : StatsTracker) (cap max n : Usize) : Prop where
  large : MemoryRefusal (t.checkLargeResult n).2 ↔ max.toNat < t.liveMemory.toNat + n.toNat
  grow : MemoryRefusal (t.onGrow n).2 ↔ max.toNat < t.liveMemory.toNat + n.toNat
  allocate : t.allocations < cap →
    (MemoryRefusal (t.onAllocate n).2 ↔ max.toNat < t.liveMemory.toNat + n.toNat)
  unwrapped : t.allocations < cap →
    (t.liveMemory + n).toNat = t.liveMemory.toNat + n.toNat
  panicFree : (t.onAllocateChecked n).isSome = true
  ordered : MemoryRefusal (t.checkLargeResult n).2 → (t.onAllocate n).2 ≠ .ok ()

/-- **When the gates agree**: the sum fits a `usize`; or it does not, but the allocations are used
up, so that `on_allocate` does not add, and `max_memory` is below `usize::MAX`, at which the sums
of the others saturate. -/
theorem gates_agree_iff (limits : ResolvedLimits) (born : Instant) (events : List TrackerEvent)
    (n : Usize) :
    GatesAgree ((new limits born).replay events) limits.maxAllocations limits.maxMemoryBytes n ↔
      ((new limits born).replay events).liveMemory.toNat + n.toNat < UInt64.size ∨
      (limits.maxAllocations ≤ ((new limits born).replay events).allocations ∧
        limits.maxMemoryBytes.toNat < UInt64.size - 1) := by
  obtain ⟨hcap, hmax, hlive⟩ := capped_replay limits born events
  generalize (new limits born).replay events = t at hcap hmax hlive ⊢
  generalize limits.maxAllocations = cap, limits.maxMemoryBytes = max at hcap hmax hlive ⊢
  rw [UInt64.le_iff_toNat_le] at hlive
  have hbelow := onAllocate_below hcap hmax (n := n)
  constructor
  · intro agree
    by_cases hfits : t.liveMemory.toNat + n.toNat < UInt64.size
    · exact .inl hfits
    · right
      constructor
      · -- below the cap the sum would have to fit
        by_contra hcount
        exact hfits ((onAllocateChecked_isSome_iff hcap n).mp agree.panicFree
          (UInt64.not_le.mp hcount))
      · have hsum : max.toNat < t.liveMemory.toNat + n.toNat :=
          Nat.lt_of_lt_of_le max.toNat_lt (Nat.not_lt.mp hfits)
        have hover := agree.large.mpr hsum
        rw [checkLargeResult_refusal_iff hmax, toNat_saturatingAdd] at hover
        omega
  · intro h
    have hsat : max.toNat < (saturatingAdd t.liveMemory n).toNat ↔
        max.toNat < t.liveMemory.toNat + n.toNat := by
      have hbound := max.toNat_lt
      rw [toNat_saturatingAdd]
      rcases h with hfits | ⟨-, hmax⟩
      · omega
      · omega
    have hsum : t.allocations < cap → t.liveMemory.toNat + n.toNat < UInt64.size := by
      intro hcount
      rcases h with hfits | ⟨hfull, -⟩
      · exact hfits
      · exact absurd hfull (UInt64.not_le.mpr hcount)
    have hallocate : t.allocations < cap →
        (MemoryRefusal (t.onAllocate n).2 ↔ max.toNat < t.liveMemory.toNat + n.toNat) := by
      intro hcount
      have hgate := hbelow hcount
      rw [← toNat_add_of_fits (hsum hcount), ← UInt64.lt_iff_toNat_lt]
      split at hgate
      · next hover => exact iff_of_true hgate hover
      · next hunder =>
        apply iff_of_false _ hunder
        rintro ⟨limit, used, hrefused⟩
        cases hgate.symm.trans hrefused
    refine ⟨?_, ?_, hallocate, ?_, ?_, ?_⟩
    · rw [checkLargeResult_refusal_iff hmax, hsat]
    · rw [onGrow_refusal_iff hmax, hsat]
    · exact fun hcount => toNat_add_of_fits (hsum hcount)
    · exact (onAllocateChecked_isSome_iff hcap n).mpr hsum
    · rw [checkLargeResult_refusal_iff hmax, hsat]
      intro hover hgranted
      by_cases hcount : cap ≤ t.allocations
      · cases (onAllocate_full hcap hcount n).symm.trans hgranted
      · obtain ⟨limit, used, hrefused⟩ := (hallocate (UInt64.not_le.mp hcount)).mpr hover
        cases hrefused.symm.trans hgranted

/-- **What goes wrong**: below its cap `on_allocate` grants every request past the end of `usize`,
since the wrapped sum is less than the memory in use. -/
theorem onAllocate_granted_of_overflow {limits : ResolvedLimits} {born : Instant}
    {events : List TrackerEvent} {n : Usize}
    (hcount : ((new limits born).replay events).allocations < limits.maxAllocations)
    (hover : UInt64.size ≤ ((new limits born).replay events).liveMemory.toNat + n.toNat) :
    (((new limits born).replay events).onAllocate n).2 = .ok () := by
  obtain ⟨hcap, hmax, hlive⟩ := capped_replay limits born events
  have hgate := onAllocate_below hcap hmax hcount n
  rw [UInt64.le_iff_toNat_le] at hlive
  have hwrapped := toNat_add_of_overflow hover
  rwa [if_neg (UInt64.not_lt.mpr (UInt64.le_iff_toNat_le.mpr (by omega)))] at hgate

/-- With 64 bytes in use under a limit of 1024, `usize::MAX - 31` more are refused by
`check_large_result` and granted by `on_allocate`, which panics instead where overflow is
checked. -/
theorem gates_disagree_on_overflow :
    ¬ GatesAgree ((new (.resolve none Sample.bounds) 0).replay [.call 0 (.onAllocate 64)])
      100 1024 18446744073709551584 ∧
    ((new (.resolve none Sample.bounds) 0).replay [.call 0 (.onAllocate 64)]).allocations < 100 ∧
    (((new (.resolve none Sample.bounds) 0).replay [.call 0 (.onAllocate 64)]).checkLargeResult
      18446744073709551584).2 = .error (.Memory 1024 18446744073709551615) ∧
    (((new (.resolve none Sample.bounds) 0).replay [.call 0 (.onAllocate 64)]).onAllocate
      18446744073709551584).2 = .ok () ∧
    ((new (.resolve none Sample.bounds) 0).replay [.call 0 (.onAllocate 64)]).onAllocateChecked
      18446744073709551584 = none := by
  refine ⟨?_, by decide, by decide, by decide, by decide⟩
  intro agree
  exact agree.ordered ⟨1024, 18446744073709551615, by decide⟩ (by decide)

end MontyServer
