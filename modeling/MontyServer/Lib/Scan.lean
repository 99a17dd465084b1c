import Mathlib.Data.List.Range

/-!
# Scans of a map that changes

A map with shards is gone through one shard after the other: its shard is locked, so that no key
enters or leaves it, and its keys are visited one by one. All other shards may change meanwhile, and
so may the values behind all keys; so a scan sees no state of the map at all. Still it misses no key
that is to be picked all along (`Complete.over`), and it picks only what was to be picked when it
was visited (`Sound.next`).
-/

/-- A scan on its way: the shards it comes to yet, the one it has locked, the keys of that shard it
comes to yet, and the keys it has picked. -/
structure Scan (κ : Type) where
  shards : List Nat
  locked : Option Nat
  keys : List κ
  found : List κ

namespace Scan

variable {κ : Type} {shard : κ → Nat} {members members' : List κ} {picks picks' : κ → Bool}
  {c c' : Scan κ} {S P P' Q Q' : κ → Prop}

/-- The start of a scan of so many shards. -/
def start (shards : Nat) : Scan κ where
  shards := List.range shards
  locked := none
  keys := []
  found := []

/-- The scan goes on: to the next key, or to the next shard. -/
def next (shard : κ → Nat) (members : List κ) (picks : κ → Bool) (c : Scan κ) : Option (Scan κ) :=
  match c.keys, c.shards with
  | key :: keys, _ =>
    some { c with keys, found := if picks key then c.found ++ [key] else c.found }
  | [], k :: shards =>
    some { c with shards, locked := some k, keys := members.filter fun key => shard key = k }
  | [], [] => none

/-- Nothing is left to visit. -/
def Over (c : Scan κ) : Prop := c.keys = [] ∧ c.shards = []

instance [DecidableEq κ] : Decidable c.Over := inferInstanceAs (Decidable (_ ∧ _))

/-- The locked shard has the keys it had. -/
def Keeps (shard : κ → Nat) (members members' : List κ) (c : Scan κ) : Prop :=
  ∀ k ∈ c.locked, members'.filter (fun key => shard key = k) =
    members.filter fun key => shard key = k

instance [DecidableEq κ] : Decidable (c.Keeps shard members members') :=
  inferInstanceAs (Decidable (∀ k ∈ c.locked, _))

/-- What the two branches of `next` are. -/
theorem next_cases (h : c.next shard members picks = some c') :
    (∃ key keys, c.keys = key :: keys ∧
      c' = { c with keys, found := if picks key then c.found ++ [key] else c.found }) ∨
    ∃ k shards, c.keys = [] ∧ c.shards = k :: shards ∧
      c' = { c with shards, locked := some k,
                    keys := members.filter fun key => shard key = k } := by
  unfold next at h
  split at h
  · next _ key keys hkeys =>
    cases h
    exact .inl ⟨key, keys, hkeys, rfl⟩
  · next k shards hkeys hshards =>
    cases h
    exact .inr ⟨k, shards, hkeys, hshards, rfl⟩
  · cases h

/-! ## What is under the lock -/

/-- The keys to come are keys of the locked shard. -/
def Held (shard : κ → Nat) (members : List κ) (c : Scan κ) : Prop :=
  ∀ key ∈ c.keys, key ∈ members ∧ shard key ∈ c.locked

theorem Held.start (shards : Nat) : (start shards).Held shard members := nofun

theorem Held.next (held : c.Held shard members) (h : c.next shard members picks = some c') :
    c'.Held shard members := by
  rcases next_cases h with ⟨key, keys, hkeys, rfl⟩ | ⟨k, shards, -, -, rfl⟩
  · intro j hj
    exact held j (hkeys ▸ List.mem_cons_of_mem key hj)
  · intro j hj
    obtain ⟨hmem, hshard⟩ := List.mem_filter.mp hj
    exact ⟨hmem, congrArg some (of_decide_eq_true hshard).symm⟩

/-- Whatever the rest of the map does. -/
theorem Held.change (held : c.Held shard members) (keeps : c.Keeps shard members members') :
    c.Held shard members' := by
  intro key hkey
  obtain ⟨hmem, hlocked⟩ := held key hkey
  refine ⟨?_, hlocked⟩
  have hthere : key ∈ members.filter fun j => shard j = shard key :=
    List.mem_filter.mpr ⟨hmem, decide_eq_true rfl⟩
  rw [← keeps (shard key) hlocked] at hthere
  exact (List.mem_filter.mp hthere).1

/-! ## What is picked -/

/-- Every picked key has what it takes. -/
def Sound (Q : κ → Prop) (c : Scan κ) : Prop := ∀ key ∈ c.found, Q key

theorem Sound.start (shards : Nat) : (start shards).Sound Q := nofun

theorem Sound.change (sound : c.Sound Q) (h : ∀ key, Q key → Q' key) : c.Sound Q' :=
  fun key hkey => h key (sound key hkey)

/-- **Step lemma**: what is picked has it when it is visited. -/
theorem Sound.next (sound : c.Sound Q) (held : c.Held shard members)
    (visit : ∀ key ∈ members, picks key = true → Q key)
    (h : c.next shard members picks = some c') : c'.Sound Q := by
  rcases next_cases h with ⟨key, keys, hkeys, rfl⟩ | ⟨k, shards, -, -, rfl⟩
  · intro j hj
    by_cases hpick : picks key = true
    · simp only [hpick, if_true] at hj
      rcases List.mem_append.mp hj with hj | hj
      · exact sound j hj
      · rw [List.mem_singleton.mp hj]
        exact visit key (held key (hkeys ▸ List.mem_cons_self)).1 hpick
    · simp only [hpick] at hj
      exact sound j hj
  · exact sound

/-! ## What is not missed -/

/-- The keys in the map that are to be picked are picked already, or the scan comes to them yet. -/
def Complete (shard : κ → Nat) (P : κ → Prop) (c : Scan κ) : Prop :=
  ∀ key, P key → key ∈ c.found ∨ key ∈ c.keys ∨ shard key ∈ c.shards

theorem Complete.start {shards : Nat} (hall : ∀ key, shard key < shards) :
    (start shards).Complete shard P :=
  fun key _ => .inr (.inr (List.mem_range.mpr (hall key)))

/-- **Change rule**: whatever happens between two visits, if no key comes to be picked by it. -/
theorem Complete.change (complete : c.Complete shard P) (lost : ∀ key, P' key → P key) :
    c.Complete shard P' :=
  fun key hkey => complete key (lost key hkey)

/-- **Step lemma**: the scan goes on and misses nothing. -/
theorem Complete.next (complete : c.Complete shard P)
    (visit : ∀ key, P key → key ∈ members ∧ picks key = true)
    (h : c.next shard members picks = some c') : c'.Complete shard P := by
  rcases next_cases h with ⟨key, keys, hkeys, rfl⟩ | ⟨k, shards, hkeys, hshards, rfl⟩
  · intro j hj
    rcases complete j hj with hfound | hkey | hshard
    · left
      dsimp only
      split
      · exact List.mem_append_left _ hfound
      · exact hfound
    · rw [hkeys] at hkey
      rcases List.mem_cons.mp hkey with rfl | hkey
      · left
        dsimp only
        rw [if_pos (visit j hj).2]
        exact List.mem_append_right _ (List.mem_singleton_self j)
      · exact .inr (.inl hkey)
    · exact .inr (.inr hshard)
  · intro j hj
    rcases complete j hj with hfound | hkey | hshard
    · exact .inl hfound
    · rw [hkeys] at hkey
      cases hkey
    · rw [hshards] at hshard
      rcases List.mem_cons.mp hshard with hhere | hlater
      · exact .inr (.inl (List.mem_filter.mpr ⟨(visit j hj).1, decide_eq_true hhere⟩))
      · exact .inr (.inr hlater)

/-- **At the end** what is to be picked has been. -/
theorem Complete.over (complete : c.Complete shard P) (hover : c.Over) {key : κ} (hkey : P key) :
    key ∈ c.found := by
  rcases complete key hkey with hfound | hleft | hleft
  · exact hfound
  · rw [hover.1] at hleft
    cases hleft
  · rw [hover.2] at hleft
    cases hleft

end Scan
