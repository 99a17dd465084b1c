import Mathlib.Data.List.Basic
import Mathlib.Logic.Function.Basic

/-!
# Values checked out by one client at a time

A cell keeps one value at home. A client takes the value out, uses it, and publishes a record that
leaves the next value at home; or gives it back unused; or goes away with it. The cell's log lists
the published records, newest first, and `spent` which values have been used, each with its place
in the log.

No step asks whether somebody else has a value out: that the holder is alone, that it holds what
the latest record left behind, that no value is used twice and that the log is one chain are
consequences of home being emptied by a `take` (`Step.inv`).
-/

namespace Checkout

variable {κ τ β : Type}

/-- What a client has in hand: a value not used yet, the record of a use not published yet, or a
value whose client is gone while its use may still be under way. -/
inductive Hand (τ β : Type)
  | pending (t : τ)
  | used (b : β)
  | adrift (t : τ)

/-- The client is still there to publish or to give back. -/
def Hand.Live : Hand τ β → Prop
  | .pending _ | .used _ => True
  | .adrift _ => False

structure Cell (κ τ β : Type) where
  home : Option τ
  hands : κ → Option (Hand τ β)
  log : List β
  spent : List (Nat × τ)

/-- What the records mean: the value each leaves behind (none if it is the last), which records
open a log, and which follow from using a value. -/
structure Rules (τ β : Type) where
  next : β → Option τ
  Opens : β → Prop
  Follows : τ → β → Prop

namespace Rules

variable (R : Rules τ β)

/-- The value the latest record of a log left behind. -/
def latest (log : List β) : Option τ := log.head?.bind R.next

/-- A log is linked if its oldest record opens it and every other follows from the value left by
the record right before it. -/
def Linked : List β → Prop
  | [] => True
  | [b] => R.Opens b
  | b :: b' :: log => (∃ t, R.next b' = some t ∧ R.Follows t b) ∧ Linked (b' :: log)

/-- The value the `n`-th record left behind, counted from one at the oldest. -/
def left (log : List β) (n : Nat) : Option τ := (log.reverse[n - 1]?).bind R.next

theorem latest_eq_left {log : List β} (h : log ≠ []) : R.latest log = R.left log log.length := by
  obtain ⟨b, rest, rfl⟩ := List.exists_cons_of_ne_nil h
  simp [latest, left]

theorem ne_nil_of_latest {log : List β} {t : τ} (h : R.latest log = some t) : log ≠ [] := by
  rintro rfl
  simp [latest] at h

theorem left_cons {log : List β} {n : Nat} (b : β) (h1 : 1 ≤ n) (hn : n ≤ log.length) :
    R.left (b :: log) n = R.left log n := by
  have : n - 1 < log.reverse.length := by rw [List.length_reverse]; omega
  rw [left, left, List.reverse_cons, List.getElem?_append_left this]

/-- What came first in a linked log is linked. -/
theorem linked_of_suffix {log log' : List β} (hsuffix : log <:+ log') (h : R.Linked log') :
    R.Linked log := by
  obtain ⟨newer, rfl⟩ := hsuffix
  induction newer with
  | nil => exact h
  | cons b newer ih =>
    apply ih
    rw [List.cons_append] at h
    cases hrest : newer ++ log with
    | nil => trivial
    | cons b' rest =>
      rw [hrest] at h
      exact h.2

/-- What every record is to the one right before it, it is to all records before it. -/
theorem pairwise_of_linked {S : β → β → Prop} (htrans : ∀ {a b c}, S a b → S b c → S a c)
    {log : List β} (h : R.Linked log)
    (hnext : ∀ b b' rest t, b :: b' :: rest <:+ log → R.next b' = some t → R.Follows t b →
      S b b') : log.Pairwise S := by
  induction log with
  | nil => exact List.Pairwise.nil
  | cons b log ih =>
    have hrest := ih (R.linked_of_suffix (List.suffix_cons b log) h) fun c c' rest t hsuffix =>
      hnext c c' rest t (hsuffix.trans (List.suffix_cons b log))
    refine List.pairwise_cons.mpr ⟨?_, hrest⟩
    cases log with
    | nil => intro c hc; cases hc
    | cons b' log =>
      obtain ⟨⟨t, ht, hfollows⟩, -⟩ := h
      have hstep := hnext b b' log t List.suffix_rfl ht hfollows
      intro c hc
      rcases List.mem_cons.mp hc with rfl | hc
      · exact hstep
      · exact htrans hstep ((List.pairwise_cons.mp hrest).1 c hc)

theorem linked_cons {log : List β} {t : τ} {b : β} (h : R.Linked log)
    (hlatest : R.latest log = some t) (hb : R.Follows t b) : R.Linked (b :: log) := by
  obtain ⟨b', rest, rfl⟩ := List.exists_cons_of_ne_nil (R.ne_nil_of_latest hlatest)
  exact ⟨⟨t, by simpa [latest] using hlatest, hb⟩, h⟩

end Rules

/-- What happens to a cell. -/
inductive Event (κ : Type)
  | opened
  | take (k : κ)
  | giveBack (k : κ)
  | use (k : κ)
  | publish (k : κ)
  /-- The client goes, the use it started goes on. -/
  | leave (k : κ)
  /-- The value is lost without having been used. -/
  | lose (k : κ)
  /-- The value is lost in its use. -/
  | burn (k : κ)

/-- The events after which nobody brings the value back. -/
def Event.Abandons : Event κ → Prop
  | .leave _ | .lose _ | .burn _ => True
  | _ => False

section Step

variable [DecidableEq κ] (R : Rules τ β)

inductive Step : Cell κ τ β → Event κ → Cell κ τ β → Prop
  | opened {c : Cell κ τ β} {b : β} : c.log = [] → R.Opens b →
    Step c .opened { c with home := R.next b, log := [b] }
  | take {c : Cell κ τ β} {k : κ} {t : τ} : c.home = some t →
    Step c (.take k)
      { c with home := none, hands := Function.update c.hands k (some (.pending t)) }
  | giveBack {c : Cell κ τ β} {k : κ} {t : τ} : c.hands k = some (.pending t) →
    Step c (.giveBack k) { c with home := some t, hands := Function.update c.hands k none }
  | use {c : Cell κ τ β} {k : κ} {t : τ} {b : β} : c.hands k = some (.pending t) →
    R.Follows t b →
    Step c (.use k)
      { c with
        hands := Function.update c.hands k (some (.used b))
        spent := (c.log.length, t) :: c.spent }
  | publish {c : Cell κ τ β} {k : κ} {b : β} : c.hands k = some (.used b) →
    Step c (.publish k)
      { c with
        home := R.next b
        hands := Function.update c.hands k none
        log := b :: c.log }
  | leave {c : Cell κ τ β} {k : κ} {t : τ} : c.hands k = some (.pending t) →
    Step c (.leave k) { c with hands := Function.update c.hands k (some (.adrift t)) }
  | lose {c : Cell κ τ β} {k : κ} {h : Hand τ β} : c.hands k = some h →
    Step c (.lose k) { c with hands := Function.update c.hands k none }
  | burn {c : Cell κ τ β} {k : κ} {t : τ} :
    c.hands k = some (.pending t) ∨ c.hands k = some (.adrift t) →
    Step c (.burn k)
      { c with
        hands := Function.update c.hands k none
        spent := (c.log.length, t) :: c.spent }

end Step

/-! ## Where the value is -/

/-- Where a cell's value is: at home, in one hand, or nowhere. -/
inductive Place (κ τ β : Type)
  | home (t : τ)
  | out (k : κ) (h : Hand τ β)
  | nowhere

/-- The value of a hand, if it has not been used. -/
def Hand.unused : Hand τ β → Option τ
  | .pending t | .adrift t => some t
  | .used _ => none

namespace Place

variable [DecidableEq κ]

def atHome : Place κ τ β → Option τ
  | .home t => some t
  | _ => none

def hands : Place κ τ β → κ → Option (Hand τ β)
  | .out k h => Function.update (fun _ => none) k (some h)
  | _ => fun _ => none

def unused : Place κ τ β → Option τ
  | .home t => some t
  | .out _ h => h.unused
  | .nowhere => none

/-- What is at a place comes from the latest record: it is the value that record left behind, or
follows from it. -/
def Fits (R : Rules τ β) (latest : Option τ) : Place κ τ β → Prop
  | .home t | .out _ (.pending t) | .out _ (.adrift t) => latest = some t
  | .out _ (.used b) => ∃ t, latest = some t ∧ R.Follows t b
  | .nowhere => True

end Place

section Inv

variable [DecidableEq κ] {R : Rules τ β} {c c' : Cell κ τ β} {e : Event κ}

/-- The value of the cell is at `p`. -/
structure Located (R : Rules τ β) (c : Cell κ τ β) (p : Place κ τ β) : Prop where
  home_eq : c.home = p.atHome
  hands_eq : c.hands = p.hands
  fits : p.Fits R (R.latest c.log)
  unspent : p.unused ≠ none → ∀ s ∈ c.spent, s.1 < c.log.length

structure Inv (R : Rules τ β) (c : Cell κ τ β) : Prop where
  linked : R.Linked c.log
  place : ∃ p, Located R c p
  spent_left : ∀ s ∈ c.spent, 1 ≤ s.1 ∧ s.1 ≤ c.log.length ∧ R.left c.log s.1 = some s.2
  spent_once : (c.spent.map Prod.fst).Nodup

theorem Located.of_hand {p : Place κ τ β} (h : Located R c p) {k : κ} {hand : Hand τ β}
    (hk : c.hands k = some hand) : p = .out k hand := by
  rw [h.hands_eq] at hk
  match p with
  | .home t => cases hk
  | .nowhere => cases hk
  | .out k' hand' =>
    simp only [Place.hands, Function.update_apply] at hk
    split at hk
    · next heq => cases hk; rw [heq]
    · cases hk

theorem Located.of_home {p : Place κ τ β} (h : Located R c p) {t : τ} (ht : c.home = some t) :
    p = .home t := by
  rw [h.home_eq] at ht
  match p with
  | .home t' => cases ht; rfl
  | .nowhere => cases ht
  | .out k' hand' => cases ht

/-- A cell whose value is in the hand of `k`. -/
theorem Inv.located_of_hand (inv : Inv R c) {k : κ} {hand : Hand τ β}
    (hk : c.hands k = some hand) : Located R c (.out k hand) := by
  obtain ⟨p, hp⟩ := inv.place
  exact hp.of_hand hk ▸ hp

theorem Inv.located_of_home (inv : Inv R c) {t : τ} (ht : c.home = some t) :
    Located R c (.home t) := by
  obtain ⟨p, hp⟩ := inv.place
  exact hp.of_home ht ▸ hp

/-- **Single holder**: at most one client has the value. -/
theorem Inv.single (inv : Inv R c) {k k' : κ} {h h' : Hand τ β} (hk : c.hands k = some h)
    (hk' : c.hands k' = some h') : k = k' := by
  cases (inv.located_of_hand hk).of_hand hk'
  rfl

theorem Inv.home_none_of_hand (inv : Inv R c) {k : κ} {h : Hand τ β} (hk : c.hands k = some h) :
    c.home = none :=
  (inv.located_of_hand hk).home_eq

theorem Inv.latest_of_home (inv : Inv R c) {t : τ} (ht : c.home = some t) :
    R.latest c.log = some t :=
  (inv.located_of_home ht).fits

/-- The value of a hand is the one the latest record left behind. -/
theorem Inv.latest_of_hand (inv : Inv R c) {k : κ} {h : Hand τ β} (hk : c.hands k = some h) :
    ∃ t, R.latest c.log = some t ∧ (∀ t', h.unused = some t' → t' = t) ∧
      ∀ b, h = .used b → R.Follows t b := by
  have fits := (inv.located_of_hand hk).fits
  match h with
  | .pending t => exact ⟨t, fits, fun _ h => (Option.some.inj h).symm, fun _ h => nomatch h⟩
  | .adrift t => exact ⟨t, fits, fun _ h => (Option.some.inj h).symm, fun _ h => nomatch h⟩
  | .used b =>
    obtain ⟨t, hlatest, hb⟩ := fits
    refine ⟨t, hlatest, ?_, ?_⟩
    · intro t' h
      cases h
    · intro b' h
      cases h
      exact hb

/-- A cell nothing has happened to. -/
theorem inv_empty : Inv R ({ home := none, hands := fun _ => none, log := [], spent := [] } :
    Cell κ τ β) where
  linked := trivial
  place := ⟨.nowhere, rfl, rfl, trivial, fun h => absurd rfl h⟩
  spent_left := by simp
  spent_once := List.nodup_nil

/-- The hands once the only client that had one has put it down. -/
theorem Located.put_down {k : κ} {h : Hand τ β} (hc : Located R c (.out k h)) :
    Function.update c.hands k none = fun _ => none := by
  rw [hc.hands_eq, Place.hands, Function.update_idem]
  exact Function.update_eq_self k _

theorem Located.change {k : κ} {h : Hand τ β} (hc : Located R c (.out k h)) (h' : Hand τ β) :
    Function.update c.hands k (some h') = (Place.out k h' : Place κ τ β).hands := by
  rw [hc.hands_eq, Place.hands, Function.update_idem]
  rfl

/-- Using the value at `p` for the first time. -/
theorem Inv.spend (inv : Inv R c) {p : Place κ τ β} {t : τ} (hp : Located R c p)
    (hu : p.unused = some t) (ht : R.latest c.log = some t) :
    (∀ s ∈ (c.log.length, t) :: c.spent,
      1 ≤ s.1 ∧ s.1 ≤ c.log.length ∧ R.left c.log s.1 = some s.2) ∧
    (((c.log.length, t) :: c.spent).map Prod.fst).Nodup := by
  have hne := R.ne_nil_of_latest ht
  constructor
  · intro s hs
    rcases List.mem_cons.mp hs with rfl | hs
    · exact ⟨List.length_pos_of_ne_nil hne, Nat.le_refl _, (R.latest_eq_left hne).symm.trans ht⟩
    · exact inv.spent_left s hs
  · rw [List.map_cons, List.nodup_cons]
    refine ⟨?_, inv.spent_once⟩
    intro hmem
    obtain ⟨s, hs, heq⟩ := List.mem_map.mp hmem
    -- whatever is spent already is older than the value at `p`
    have := hp.unspent (by simp [hu]) s hs
    omega

/-- **Step lemma**: every step keeps the invariant. -/
theorem Step.inv (h : Step R c e c') (inv : Inv R c) : Inv R c' := by
  cases h with
  | @opened b hlog hb =>
    -- with an empty log nothing has been left behind, so nothing is spent and nobody has anything
    have hnone : ∀ s, s ∉ c.spent := fun s hs => by
      have := inv.spent_left s hs
      simp only [hlog, List.length_nil] at this
      omega
    obtain ⟨p, hp⟩ := inv.place
    have hlatest : R.latest c.log = none := by rw [hlog]; rfl
    have hhands : c.hands = fun _ => none := by
      rw [hp.hands_eq]
      match p with
      | .home t => rfl
      | .nowhere => rfl
      | .out k (.pending t) => exact nomatch hlatest.symm.trans hp.fits
      | .out k (.adrift t) => exact nomatch hlatest.symm.trans hp.fits
      | .out k (.used b) =>
        obtain ⟨t, ht, -⟩ := hp.fits
        exact nomatch hlatest.symm.trans ht
    refine ⟨hb, ?_, fun s hs => (hnone s hs).elim, inv.spent_once⟩
    cases hn : R.next b with
    | none => exact ⟨.nowhere, rfl, hhands, trivial, fun h => absurd rfl h⟩
    | some t => exact ⟨.home t, rfl, hhands, hn, fun _ s hs => (hnone s hs).elim⟩
  | @take k t ht =>
    have hc := inv.located_of_home ht
    refine ⟨inv.linked, ⟨.out k (.pending t), rfl, ?_, hc.fits, fun _ => hc.unspent (by simp
      [Place.unused])⟩, inv.spent_left, inv.spent_once⟩
    rw [hc.hands_eq]
    rfl
  | @giveBack k t hk =>
    have hc := inv.located_of_hand hk
    exact ⟨inv.linked, ⟨.home t, rfl, hc.put_down, hc.fits, fun _ => hc.unspent (by simp
      [Place.unused, Hand.unused])⟩, inv.spent_left, inv.spent_once⟩
  | @use k t b hk hb =>
    have hc := inv.located_of_hand hk
    obtain ⟨hleft, honce⟩ := inv.spend hc rfl hc.fits
    exact ⟨inv.linked, ⟨.out k (.used b), hc.home_eq, hc.change _, ⟨t, hc.fits, hb⟩,
      fun h => absurd rfl h⟩, hleft, honce⟩
  | @publish k b hk =>
    have hc := inv.located_of_hand hk
    obtain ⟨t, hlatest, hb⟩ := hc.fits
    refine ⟨R.linked_cons inv.linked hlatest hb, ?_, ?_, inv.spent_once⟩
    · -- the new record leaves the next value, or closes the cell
      cases hn : R.next b with
      | none => exact ⟨.nowhere, rfl, hc.put_down, trivial, fun h => absurd rfl h⟩
      | some t' =>
        exact ⟨.home t', rfl, hc.put_down, hn,
          fun _ s hs => Nat.lt_succ_of_le (inv.spent_left s hs).2.1⟩
    · intro s hs
      obtain ⟨h1, hn, hleft⟩ := inv.spent_left s hs
      exact ⟨h1, Nat.le_succ_of_le hn, by rw [R.left_cons b h1 hn, hleft]⟩
  | @leave k t hk =>
    have hc := inv.located_of_hand hk
    exact ⟨inv.linked, ⟨.out k (.adrift t), hc.home_eq, hc.change _, hc.fits,
      fun _ => hc.unspent (by simp [Place.unused, Hand.unused])⟩, inv.spent_left, inv.spent_once⟩
  | @lose k hand hk =>
    have hc := inv.located_of_hand hk
    exact ⟨inv.linked, ⟨.nowhere, hc.home_eq, hc.put_down, trivial, fun h => absurd rfl h⟩,
      inv.spent_left, inv.spent_once⟩
  | @burn k t hk =>
    rcases hk with hk | hk
    all_goals
      have hc := inv.located_of_hand hk
      obtain ⟨hleft, honce⟩ := inv.spend hc rfl hc.fits
      exact ⟨inv.linked, ⟨.nowhere, hc.home_eq, hc.put_down, trivial, fun h => absurd rfl h⟩,
        hleft, honce⟩

/-- The log only grows, by one record at a time. -/
theorem Step.log_eq (h : Step R c e c') : c'.log = c.log ∨ ∃ b, c'.log = b :: c.log := by
  cases h with
  | @opened b hlog _ => exact .inr ⟨b, by rw [hlog]⟩
  | @publish k b _ => exact .inr ⟨b, rfl⟩
  | _ => exact .inl rfl

/-- Whatever happens to a cell whose value is in a hand, it is not in that hand afterwards. -/
theorem Step.not_pending (h : Step R c e c') (inv : Inv R c) {k : κ} {t : τ}
    (hk : c.hands k = some (.pending t)) (t' : τ) : c'.hands k ≠ some (.pending t') := by
  have hc := inv.located_of_hand hk
  -- the event is one of `k` itself, since nobody else has anything in hand
  have self : ∀ {k' : κ} {h' : Hand τ β}, c.hands k' = some h' → k' = k :=
    fun hk' => inv.single hk' hk
  cases h with
  | opened hlog _ =>
    have hfits : R.latest c.log = some t := hc.fits
    rw [hlog] at hfits
    cases hfits
  | take ht => exact nomatch ht.symm.trans hc.home_eq
  | giveBack hk' => cases self hk'; simp
  | use hk' _ => cases self hk'; simp
  | publish hk' => cases self hk'; simp
  | leave hk' => cases self hk'; simp
  | lose hk' => cases self hk'; simp
  | burn hk' =>
    rcases hk' with hk' | hk'
    · cases self hk'; simp
    · cases self hk'; simp

/-- Nothing happens to a cell whose last record left no value. -/
theorem Step.not_of_closed (h : Step R c e c') (inv : Inv R c) (hlog : c.log ≠ [])
    (hclosed : R.latest c.log = none) : False := by
  -- a hand would hold what the latest record left
  have nohand : ∀ k hand, c.hands k ≠ some hand := fun k hand hk => by
    obtain ⟨t, ht, -⟩ := inv.latest_of_hand hk
    exact nomatch hclosed.symm.trans ht
  cases h with
  | opened hnil _ => exact hlog hnil
  | take ht => exact nomatch hclosed.symm.trans (inv.latest_of_home ht)
  | giveBack hk => exact nohand _ _ hk
  | use hk _ => exact nohand _ _ hk
  | publish hk => exact nohand _ _ hk
  | leave hk => exact nohand _ _ hk
  | lose hk => exact nohand _ _ hk
  | burn hk => exact hk.elim (nohand _ _) (nohand _ _)

/-! ## What is kept and what is lost -/

/-- Either the last record left no value, or its value is at home or with a client who is there. -/
def Kept (R : Rules τ β) (c : Cell κ τ β) : Prop :=
  R.latest c.log = none ∨ c.home.isSome ∨ ∃ k h, c.hands k = some h ∧ h.Live

/-- A value whose client is gone is not kept. -/
theorem Inv.not_kept_of_adrift (inv : Inv R c) {k : κ} {t : τ} (hk : c.hands k = some (.adrift t)) :
    ¬ Kept R c := by
  have hc := inv.located_of_hand hk
  rintro (h | h | ⟨k', h', hk', hl⟩)
  · cases h.symm.trans hc.fits
  · rw [hc.home_eq] at h
    cases h
  · cases hc.of_hand hk'
    exact hl

/-- **Exactly the abandoning events lose a value**: after any other event it is kept. -/
theorem Step.kept_iff (h : Step R c e c') (inv : Inv R c) :
    Kept R c' ↔ ¬ e.Abandons := by
  -- a value in the hand of a client that abandons it was the latest one, and is now nowhere
  have gone : ∀ {k hand} {d : Cell κ τ β}, c.hands k = some hand → d.log = c.log →
      d.home = c.home → (∀ k' h', d.hands k' = some h' → ¬ h'.Live) → ¬ Kept R d := by
    intro k hand d hk hlog hhome hdead hd
    obtain ⟨t, hlatest, -⟩ := inv.latest_of_hand hk
    rcases hd with hd | hd | ⟨k', h', hk', hl⟩
    · rw [hlog, hlatest] at hd
      cases hd
    · rw [hhome, inv.home_none_of_hand hk] at hd
      cases hd
    · exact hdead k' h' hk' hl
  cases h with
  | @opened b hlog hb =>
    refine iff_of_true ?_ id
    cases hn : R.next b with
    | none => exact .inl hn
    | some t => exact .inr (.inl rfl)
  | take ht =>
    exact iff_of_true (.inr (.inr ⟨_, _, Function.update_self .., trivial⟩)) id
  | giveBack hk => exact iff_of_true (.inr (.inl rfl)) id
  | use hk hb => exact iff_of_true (.inr (.inr ⟨_, _, Function.update_self .., trivial⟩)) id
  | @publish k b hk =>
    refine iff_of_true ?_ id
    cases hn : R.next b with
    | none => exact .inl hn
    | some t => exact .inr (.inl rfl)
  | leave hk =>
    refine iff_of_false (gone hk rfl rfl ?_) (fun h => h trivial)
    intro k' h' hk'
    rw [(inv.located_of_hand hk).change] at hk'
    simp only [Place.hands, Function.update_apply] at hk'
    split at hk'
    · cases hk'; exact id
    · cases hk'
  | lose hk =>
    refine iff_of_false (gone hk rfl rfl ?_) (fun h => h trivial)
    intro k' h' hk'
    rw [(inv.located_of_hand hk).put_down] at hk'
    cases hk'
  | burn hk =>
    obtain ⟨hand, hk⟩ : ∃ hand, c.hands _ = some hand := hk.elim (⟨_, ·⟩) (⟨_, ·⟩)
    refine iff_of_false (gone hk rfl rfl ?_) (fun h => h trivial)
    intro k' h' hk'
    rw [(inv.located_of_hand hk).put_down] at hk'
    cases hk'

end Inv

end Checkout
