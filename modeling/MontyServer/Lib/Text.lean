import Mathlib.Algebra.Order.Ring.Int
import Mathlib.Data.List.DropRight

/-!
# Rust's strings

What `str` and `FromStr` of the standard library do, on Lean's strings. A string is handled by the
list of its characters.
-/

namespace Text

/-! ## Reading integers -/

/-- The digits of a decimal number. There is at least one. -/
def parseDigits (cs : List Char) : Option Nat :=
  if cs ≠ [] ∧ cs.all Char.isDigit then some (Nat.ofDigitChars 10 cs 0) else none

/-- `from_str` of a signed type before the bounds are checked. -/
def parseInt (s : String) : Option Int :=
  match s.toList with
  | '-' :: cs => (parseDigits cs).map fun n : Nat => -(n : Int)
  | '+' :: cs => (parseDigits cs).map Int.ofNat
  | cs => (parseDigits cs).map Int.ofNat

/-- `from_str` of an unsigned type before the bounds are checked: `-` is no digit. -/
def parseNat (s : String) : Option Nat :=
  match s.toList with
  | '+' :: cs => parseDigits cs
  | cs => parseDigits cs

/-- `i64::from_str`. -/
def parseI64 (s : String) : Option Int64 :=
  ((parseInt s).filter fun i => -2 ^ 63 ≤ i ∧ i < 2 ^ 63).map Int64.ofInt

/-- `u64::from_str`. -/
def parseU64 (s : String) : Option UInt64 :=
  ((parseNat s).filter fun n => n < 2 ^ 64).map UInt64.ofNat

/-- Why a text is not a number. -/
inductive ParseIntError
  | Empty
  | InvalidDigit
  | PosOverflow
  deriving DecidableEq, Repr

/-- The digits of an unsigned number below `size`, after `n`. -/
def readDigits (size n : Nat) : List Char → Except ParseIntError Nat
  | [] => .ok n
  | c :: cs =>
    if c.isDigit then
      if 10 * n + (c.toNat - '0'.toNat) < size then
        readDigits size (10 * n + (c.toNat - '0'.toNat)) cs
      else .error .PosOverflow
    else .error .InvalidDigit

/-- `from_str` of an unsigned type with values below `size`, with the error. -/
def parseUnsigned (size : Nat) (s : String) : Except ParseIntError Nat :=
  match s.toList with
  | [] => .error .Empty
  | ['+'] => .error .InvalidDigit
  | '+' :: cs => readDigits size 0 cs
  | cs => readDigits size 0 cs

/-- `u16::from_str`, with the error. -/
def parseU16 (s : String) : Except ParseIntError UInt16 :=
  (parseUnsigned (2 ^ 16) s).map UInt16.ofNat

/-- `u32::from_str`, with the error. -/
def parseU32 (s : String) : Except ParseIntError UInt32 :=
  (parseUnsigned (2 ^ 32) s).map UInt32.ofNat

/-- `u64::from_str`, with the error. -/
def readU64 (s : String) : Except ParseIntError UInt64 :=
  (parseUnsigned (2 ^ 64) s).map UInt64.ofNat

/-- A decimal number is written with digits only. -/
theorem isDigit_of_mem_toString {n : Nat} {c : Char} (h : c ∈ (toString n).toList) :
    c.isDigit = true := by
  rw [Nat.toString_eq_repr, Nat.toList_repr] at h
  exact Nat.isDigit_of_mem_toDigits (by decide) (by decide) h

theorem toString_toList_ne_nil (n : Nat) : (toString n).toList ≠ [] := by
  rw [Nat.toString_eq_repr, Nat.toList_repr]
  exact Nat.toDigits_ne_nil

/-- **The digits of a number give it back.** -/
theorem parseDigits_toString (n : Nat) : parseDigits (toString n).toList = some n := by
  have hall : (toString n).toList.all Char.isDigit = true :=
    List.all_eq_true.mpr fun c hc => isDigit_of_mem_toString hc
  rw [parseDigits, if_pos ⟨toString_toList_ne_nil n, hall⟩, Nat.toString_eq_repr, Nat.toList_repr,
    Nat.ofDigitChars_ten_toDigits]

/-- A number starts with a digit, so it is not read as a signed one. -/
theorem parseInt_toString (n : Nat) : parseInt (toString n) = some (n : Int) := by
  have hread := parseDigits_toString n
  have hdigit : ∀ c ∈ (toString n).toList, c.isDigit = true := fun _ => isDigit_of_mem_toString
  unfold parseInt
  split
  · next cs hcs =>
    rw [hcs] at hdigit
    exact absurd (hdigit '-' List.mem_cons_self) (by decide)
  · next cs hcs =>
    rw [hcs] at hdigit
    exact absurd (hdigit '+' List.mem_cons_self) (by decide)
  · rw [hread]
    rfl

theorem parseInt_neg_toString (n : Nat) : parseInt ("-" ++ toString n) = some (-(n : Int)) := by
  have hlist : ("-" ++ toString n).toList = '-' :: (toString n).toList := by
    rw [String.toList_append]
    rfl
  simp only [parseInt, hlist, parseDigits_toString, Option.map_some]

/-- A text of an unsigned number is one of the same signed number. -/
theorem parseInt_of_parseNat {s : String} {n : Nat} (h : parseNat s = some n) :
    parseInt s = some (n : Int) := by
  unfold parseNat at h
  unfold parseInt
  split
  · next cs hcs =>
    rw [hcs] at h
    cases h
  · next cs hcs =>
    rw [hcs] at h
    have hdigits : parseDigits cs = some n := h
    rw [hdigits]
    rfl
  · next hminus hplus =>
    split at h
    · next cs hcs => exact absurd hcs (hplus cs)
    · rw [h]
      rfl

theorem parseU64_eq_some {s : String} {n : UInt64} (h : parseU64 s = some n) :
    parseNat s = some n.toNat := by
  obtain ⟨m, hm, rfl⟩ := Option.map_eq_some_iff.mp h
  obtain ⟨hsome, hlt⟩ := Option.filter_eq_some_iff.mp hm
  rw [UInt64.toNat_ofNat_of_lt' (of_decide_eq_true hlt)]
  exact hsome

theorem parseI64_of_parseInt {s : String} {i : Int} (h : parseInt s = some i)
    (hlow : -2 ^ 63 ≤ i) (hhigh : i < 2 ^ 63) : parseI64 s = some (Int64.ofInt i) := by
  have hbounds : decide (-2 ^ 63 ≤ i ∧ i < 2 ^ 63) = true := decide_eq_true ⟨hlow, hhigh⟩
  rw [parseI64, h, Option.filter_some, if_pos hbounds, Option.map_some]

theorem le_ofDigitChars (cs : List Char) (n : Nat) : n ≤ Nat.ofDigitChars 10 cs n := by
  induction cs generalizing n with
  | nil => exact Nat.le_refl n
  | cons c cs ih =>
    have hstep := ih (10 * n + (c.toNat - '0'.toNat))
    rw [Nat.ofDigitChars_cons]
    omega

/-- **The digits are read if there is nothing but digits and their number is small enough.** -/
theorem readDigits_toOption (size n : Nat) (cs : List Char) (hn : n < size) :
    (readDigits size n cs).toOption =
      if cs.all Char.isDigit ∧ Nat.ofDigitChars 10 cs n < size
      then some (Nat.ofDigitChars 10 cs n) else none := by
  induction cs generalizing n with
  | nil => simp [readDigits, hn, Except.toOption]
  | cons c cs ih =>
    have hgrows := le_ofDigitChars cs (10 * n + (c.toNat - '0'.toNat))
    rw [readDigits, Nat.ofDigitChars_cons, List.all_cons]
    by_cases hdigit : c.isDigit = true
    · rw [if_pos hdigit, hdigit, Bool.true_and]
      by_cases hsize : 10 * n + (c.toNat - '0'.toNat) < size
      · rw [if_pos hsize]
        exact ih _ hsize
      · rw [if_neg hsize, if_neg (by omega)]
        rfl
    · rw [if_neg hdigit, if_neg (by simp [hdigit])]
      rfl

/-- The error apart, `from_str` reads a decimal number and then checks the bound. -/
theorem parseUnsigned_toOption {size : Nat} (hsize : 0 < size) (s : String) :
    (parseUnsigned size s).toOption = (parseNat s).filter fun n => n < size := by
  have hread : ∀ cs : List Char, cs ≠ [] →
      (readDigits size 0 cs).toOption = (parseDigits cs).filter fun n => n < size := by
    intro cs hcs
    rw [readDigits_toOption size 0 cs hsize, parseDigits]
    by_cases hdigits : cs.all Char.isDigit = true
    · rw [if_pos (And.intro hcs hdigits), Option.filter_some]
      simp [hdigits]
    · rw [if_neg (fun h => hdigits h.1), if_neg (fun h => hdigits h.2)]
      rfl
  unfold parseUnsigned parseNat
  split
  · next h => simp [h, parseDigits, Except.toOption]
  · next h => simp [h, parseDigits, Except.toOption]
  · next cs hne h =>
    have hcs : cs ≠ [] := by
      rintro rfl
      exact hne rfl
    rw [h]
    exact hread cs hcs
  · next hempty _ hplus =>
    split
    · next cs h => exact absurd h (hplus cs)
    · exact hread s.toList hempty

/-- **What is read is the same with the error and without it.** -/
theorem readU64_toOption (s : String) : (readU64 s).toOption = parseU64 s := by
  rw [parseU64, ← parseUnsigned_toOption (by decide) s, readU64]
  cases parseUnsigned (2 ^ 64) s <;> rfl

/-! ## Whitespace and separators -/

/-- `char::is_whitespace`. -/
def isWhitespace (c : Char) : Bool :=
  (0x9 ≤ c.toNat && c.toNat ≤ 0xD) || (0x2000 ≤ c.toNat && c.toNat ≤ 0x200A) ||
    [0x20, 0x85, 0xA0, 0x1680, 0x2028, 0x2029, 0x202F, 0x205F, 0x3000].contains c.toNat

/-- `str::trim`, on the characters. -/
def trimList (cs : List Char) : List Char := (cs.dropWhile isWhitespace).rdropWhile isWhitespace

def trim (s : String) : String := String.ofList (trimList s.toList)

/-- `str::split` at a character. -/
def split (c : Char) (s : String) : List String := (s.toList.splitOn c).map String.ofList

/-- `str::split_once` at a character. -/
def splitOnce (c : Char) (s : String) : Option (String × String) :=
  match s.toList.dropWhile (· ≠ c) with
  | [] => none
  | _ :: rest => some (String.ofList (s.toList.takeWhile (· ≠ c)), String.ofList rest)

/-- `str::eq_ignore_ascii_case`. -/
def eqIgnoreAsciiCase (s t : String) : Bool :=
  s.toList.map Char.toLower = t.toList.map Char.toLower

theorem trimList_trimList (cs : List Char) : trimList (trimList cs) = trimList cs := by
  unfold trimList
  generalize hmid : cs.dropWhile isWhitespace = mid
  have hhead : ∀ c r, mid = c :: r → isWhitespace c = false := by
    intro c r hcons
    have hne : cs.dropWhile isWhitespace ≠ [] := by rw [hmid, hcons]; exact List.cons_ne_nil c r
    have hfirst := List.head_dropWhile_not isWhitespace hne
    simpa [hmid, hcons] using hfirst
  have hkeep : (mid.rdropWhile isWhitespace).dropWhile isWhitespace =
      mid.rdropWhile isWhitespace := by
    cases hcons : mid.rdropWhile isWhitespace with
    | nil => rfl
    | cons c r =>
      obtain ⟨t, ht⟩ := List.rdropWhile_prefix isWhitespace mid
      rw [hcons, List.cons_append] at ht
      rw [List.dropWhile_cons, hhead c (r ++ t) ht.symm]
      rfl
  rw [hkeep, List.rdropWhile_idempotent]

theorem trim_trim (s : String) : trim (trim s) = trim s := by
  rw [trim, trim, String.toList_ofList, trimList_trimList]

/-- Splitting after a first part without the separator. -/
theorem splitOnce_append {c : Char} {before after : List Char} (h : ∀ d ∈ before, d ≠ c) :
    splitOnce c (String.ofList (before ++ c :: after)) =
      some (String.ofList before, String.ofList after) := by
  have hall : ∀ d ∈ before, decide (d ≠ c) = true := fun d hd => decide_eq_true (h d hd)
  have hdrop : (before ++ c :: after).dropWhile (· ≠ c) = c :: after := by
    rw [List.dropWhile_append_of_pos hall]
    simp
  have htake : (before ++ c :: after).takeWhile (· ≠ c) = before := by
    rw [List.takeWhile_append_of_pos hall]
    simp
  rw [splitOnce, String.toList_ofList, hdrop, htake]

end Text
