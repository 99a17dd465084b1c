import Mathlib.Algebra.Order.Field.Basic
import Mathlib.Data.List.Basic

/-!
# Guards that look every so often

A guard that is called often cannot afford to look each time. It counts its calls, looks when the
count is a multiple of some number, and lets every other call pass. The counter is a machine
integer and wraps. A call that looks and finds its value above the limit is refused, and the guard
is **re-armed**: the next call looks too.

Between two looks at most `every - 1` calls pass unseen, wherever the counter starts and however
often it has wrapped. The potential that says so is `wait`: the calls that pass before the next
look.
-/

namespace Sampler

/-- How a guard samples: it looks at every `every`-th call, by a counter that wraps at `modulus`. -/
structure Schedule where
  every : Nat
  modulus : Nat
  pos : 0 < every
  dvd : every ∣ modulus

/-- What one call found. -/
structure Call (T : Type) where
  value : T
  looked : Bool
  refused : Bool
  deriving DecidableEq

namespace Schedule

variable {T : Type} [LinearOrder T] (s : Schedule)

/-- One call, at `value`: the counter after it, and what it found. -/
def next (limit : T) (count : Nat) (value : T) : Nat × Call T :=
  let count := (count + 1) % s.modulus
  if count % s.every ≠ 0 then (count, ⟨value, false, false⟩)
  else if limit < value then (s.every - 1, ⟨value, true, true⟩)
  else (count, ⟨value, true, false⟩)

/-- The calls made at `values`, one after the other. -/
def calls (limit : T) (count : Nat) : List T → List (Call T)
  | [] => []
  | value :: values =>
    (s.next limit count value).2 :: calls limit (s.next limit count value).1 values

/-- How many calls pass before the next look. -/
def wait (count : Nat) : Nat := s.every - 1 - count % s.every

theorem wait_lt (count : Nat) : s.wait count < s.every := by
  have hpos := s.pos
  unfold wait
  omega

/-- A count's place in its round, across the wrap. -/
theorem succ_mod (count : Nat) :
    (count + 1) % s.modulus % s.every =
      if s.wait count = 0 then 0 else count % s.every + 1 := by
  have hlt := Nat.mod_lt count s.pos
  rw [Nat.mod_mod_of_dvd _ s.dvd, ← Nat.mod_add_mod]
  split
  · next hwait =>
    have hlast : count % s.every + 1 = s.every := by
      unfold wait at hwait
      omega
    rw [hlast, Nat.mod_self]
  · next hwait =>
    apply Nat.mod_eq_of_lt
    unfold wait at hwait
    omega

/-- **What one call does**: it passes unseen, and the next look is one call nearer; or it looks, and
either refuses and re-arms, or passes and starts a new round. -/
theorem next_cases (limit : T) (count : Nat) (value : T) :
    (s.wait (s.next limit count value).1 + 1 = s.wait count ∧
      (s.next limit count value).2 = ⟨value, false, false⟩) ∨
    (s.wait count = 0 ∧ limit < value ∧ s.wait (s.next limit count value).1 = 0 ∧
      (s.next limit count value).2 = ⟨value, true, true⟩) ∨
    (s.wait count = 0 ∧ value ≤ limit ∧
      (s.next limit count value).2 = ⟨value, true, false⟩) := by
  have hsucc := s.succ_mod count
  have hlt := Nat.mod_lt count s.pos
  have hpos := s.pos
  unfold next
  dsimp only
  by_cases hwait : s.wait count = 0
  · rw [if_pos hwait] at hsucc
    rw [if_neg (not_not.mpr hsucc)]
    by_cases hover : limit < value
    · right; left
      rw [if_pos hover]
      refine ⟨hwait, hover, ?_, rfl⟩
      show s.every - 1 - (s.every - 1) % s.every = 0
      rw [Nat.mod_eq_of_lt (by omega)]
      omega
    · right; right
      rw [if_neg hover]
      exact ⟨hwait, not_lt.mp hover, rfl⟩
  · left
    rw [if_neg hwait] at hsucc
    rw [if_pos (by omega)]
    refine ⟨?_, rfl⟩
    show s.every - 1 - (count + 1) % s.modulus % s.every + 1 = s.every - 1 - count % s.every
    unfold wait at hwait
    omega

/-! ## Runs of calls -/

@[simp] theorem calls_nil (limit : T) (count : Nat) : s.calls limit count [] = [] := rfl

@[simp] theorem length_calls (limit : T) (count : Nat) (values : List T) :
    (s.calls limit count values).length = values.length := by
  induction values generalizing count with
  | nil => rfl
  | cons value values ih => simp [calls, ih]

/-- The values are what the calls were made at. -/
@[simp] theorem map_value_calls (limit : T) (count : Nat) (values : List T) :
    (s.calls limit count values).map Call.value = values := by
  induction values generalizing count with
  | nil => rfl
  | cons value values ih =>
    have hvalue : (s.next limit count value).2.value = value := by
      unfold next
      grind
    rw [calls, List.map_cons, hvalue, ih]

/-- What is left of a run is a run, from the counter it has come to. -/
theorem calls_drop (limit : T) (n : Nat) (count : Nat) (values : List T) :
    ∃ count', (s.calls limit count values).drop n = s.calls limit count' (values.drop n) := by
  induction n generalizing count values with
  | zero => exact ⟨count, rfl⟩
  | succ n ih =>
    cases values with
    | nil => exact ⟨count, by simp⟩
    | cons value values => exact ih _ values

/-- Only a call above the limit is refused. -/
theorem lt_of_refused {limit : T} {count : Nat} {values : List T} {c : Call T}
    (hc : c ∈ s.calls limit count values) (h : c.refused = true) : limit < c.value := by
  induction values generalizing count with
  | nil => simp at hc
  | cons value values ih =>
    rw [calls, List.mem_cons] at hc
    rcases hc with rfl | hc
    · rcases s.next_cases limit count value with ⟨-, he⟩ | ⟨-, hover, -, he⟩ | ⟨-, -, he⟩
      · rw [he] at h; simp at h
      · rw [he]; exact hover
      · rw [he] at h; simp at h
    · exact ih hc

/-- The next look comes within `wait` calls. -/
theorem exists_looked_take {limit : T} {count n : Nat} {values : List T}
    (hn : s.wait count < n) (hlen : n ≤ values.length) :
    ∃ c ∈ (s.calls limit count values).take n, c.looked = true := by
  induction values generalizing count n with
  | nil => simp at hlen; omega
  | cons value values ih =>
    obtain ⟨n, rfl⟩ : ∃ m, n = m + 1 := ⟨n - 1, by omega⟩
    rw [calls, List.take_succ_cons]
    rcases s.next_cases limit count value with ⟨hwait, -⟩ | ⟨-, -, -, he⟩ | ⟨-, -, he⟩
    · obtain ⟨c, hc, hlooked⟩ := @ih (s.next limit count value).1 n (by omega)
        (by simpa using hlen)
      exact ⟨c, List.mem_cons_of_mem _ hc, hlooked⟩
    · exact ⟨_, List.mem_cons_self, by rw [he]⟩
    · exact ⟨_, List.mem_cons_self, by rw [he]⟩

/-- **No gap**: any `every` consecutive calls of a run include a look. -/
theorem exists_looked {limit : T} {count : Nat} {values : List T} {w : List (Call T)}
    (hw : w <:+: s.calls limit count values) (hlen : w.length = s.every) :
    ∃ c ∈ w, c.looked = true := by
  obtain ⟨pre, post, hsplit⟩ := hw
  obtain ⟨count', hrest⟩ := s.calls_drop limit pre.length count values
  have hdrop : (s.calls limit count values).drop pre.length = w ++ post := by
    rw [← hsplit, List.append_assoc, List.drop_left]
  have htake : (s.calls limit count' (values.drop pre.length)).take s.every = w := by
    rw [← hrest, hdrop, ← hlen, List.take_left]
  have henough : s.every ≤ (values.drop pre.length).length := by
    rw [← s.length_calls limit count', ← hrest, hdrop, List.length_append, hlen]
    omega
  have hlooked := @exists_looked_take _ _ s limit _ _ _ (s.wait_lt count') henough
  rwa [htake] at hlooked

/-- An armed guard refuses as long as the values stay above the limit. -/
theorem refused_of_armed {limit : T} {count : Nat} {values : List T} (hwait : s.wait count = 0)
    (hover : ∀ value ∈ values, limit < value) :
    ∀ c ∈ s.calls limit count values, c.refused = true := by
  induction values generalizing count with
  | nil => simp
  | cons value values ih =>
    obtain ⟨hvalue, hvalues⟩ := List.forall_mem_cons.mp hover
    rw [calls]
    rcases s.next_cases limit count value with ⟨hnext, -⟩ | ⟨-, -, hnext, he⟩ | ⟨-, hle, -⟩
    · omega
    · intro c hc
      rcases List.mem_cons.mp hc with rfl | hc
      · rw [he]
      · exact ih hnext hvalues c hc
    · exact absurd hvalue (not_lt.mpr hle)

/-- Above the limit, no more calls pass than come before the next look. -/
theorem countP_passed_le {limit : T} {count : Nat} {values : List T}
    (hover : ∀ value ∈ values, limit < value) :
    (s.calls limit count values).countP (!·.refused) ≤ s.wait count := by
  induction values generalizing count with
  | nil => simp
  | cons value values ih =>
    obtain ⟨hvalue, hvalues⟩ := List.forall_mem_cons.mp hover
    have hrest := @ih (s.next limit count value).1 hvalues
    rw [calls, List.countP_cons]
    rcases s.next_cases limit count value with ⟨hnext, he⟩ | ⟨-, -, hnext, he⟩ | ⟨-, hle, -⟩
    · rw [he]
      simp only [Bool.not_false, if_true]
      omega
    · rw [he]
      simp only [Bool.not_true, Bool.false_eq_true, if_false]
      omega
    · exact absurd hvalue (not_lt.mpr hle)

/-! ## Values that do not fall -/

section Ascending

variable {limit : T} {count : Nat} {values : List T}

/-- Where a run stands at one of its calls: what is left is a run again, and of no smaller value. -/
theorem calls_split {pre post : List (Call T)} {c : Call T} (hasc : values.Pairwise (· ≤ ·))
    (h : s.calls limit count values = pre ++ c :: post) (hover : limit < c.value) :
    ∃ count' rest, c :: post = s.calls limit count' (c.value :: rest) ∧
      ∀ value ∈ c.value :: rest, limit < value := by
  obtain ⟨count', hrest⟩ := s.calls_drop limit pre.length count values
  rw [h, List.drop_left] at hrest
  have hvalues : values.drop pre.length = c.value :: post.map Call.value := by
    have := congrArg (List.map Call.value) hrest
    rw [map_value_calls] at this
    simpa using this.symm
  rw [hvalues] at hrest
  refine ⟨count', _, hrest, ?_⟩
  have hdrop := hasc.sublist (List.drop_sublist pre.length values)
  rw [hvalues, List.pairwise_cons] at hdrop
  intro value hvalue
  rcases List.mem_cons.mp hvalue with rfl | hvalue
  · exact hover
  · exact lt_of_lt_of_le hover (hdrop.1 value hvalue)

/-- **Few calls pass once the limit is passed**: from a call above the limit on, at most
`every - 1`. -/
theorem countP_passed_lt {pre post : List (Call T)} {c : Call T} (hasc : values.Pairwise (· ≤ ·))
    (h : s.calls limit count values = pre ++ c :: post) (hover : limit < c.value) :
    (c :: post).countP (!·.refused) < s.every := by
  obtain ⟨count', rest, hrest, hrestOver⟩ := s.calls_split hasc h hover
  rw [hrest]
  exact Nat.lt_of_le_of_lt (s.countP_passed_le hrestOver) (s.wait_lt count')

/-- **A refusal is final**: every later call is refused too. -/
theorem refused_of_refused {pre post : List (Call T)} {c : Call T}
    (hasc : values.Pairwise (· ≤ ·)) (h : s.calls limit count values = pre ++ c :: post)
    (hc : c.refused = true) : ∀ c' ∈ post, c'.refused = true := by
  have hmem : c ∈ s.calls limit count values := by
    rw [h]
    exact List.mem_append_right _ List.mem_cons_self
  obtain ⟨count', rest, hrest, hrestOver⟩ := s.calls_split hasc h (s.lt_of_refused hmem hc)
  rw [calls, List.cons.injEq] at hrest
  obtain ⟨hcall, hpost⟩ := hrest
  rcases s.next_cases limit count' c.value with ⟨-, he⟩ | ⟨-, -, hnext, -⟩ | ⟨-, -, he⟩
  · rw [hcall, he] at hc; simp at hc
  · rw [hpost]
    exact s.refused_of_armed hnext (List.forall_mem_cons.mp hrestOver).2
  · rw [hcall, he] at hc; simp at hc

end Ascending

end Schedule

end Sampler
