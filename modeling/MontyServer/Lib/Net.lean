import Mathlib.Algebra.Order.Ring.Int
import Mathlib.Data.List.Basic

/-!
# Rust's internet addresses

`IpAddr::from_str` of the standard library. It is a parser that backtracks: one that fails has read
nothing.
-/

namespace Net

/-- An IPv4 address: its four octets. -/
structure Ipv4Addr where
  octets : Vector UInt8 4
  deriving DecidableEq

/-- An IPv6 address: its eight 16-bit groups. -/
structure Ipv6Addr where
  groups : Vector UInt16 8
  deriving DecidableEq

inductive IpAddr
  | V4 (addr : Ipv4Addr)
  | V6 (addr : Ipv6Addr)
  deriving DecidableEq

structure SocketAddr where
  ip : IpAddr
  port : UInt16
  deriving DecidableEq

/-- A parser takes what it reads from the front of the text. -/
abbrev Parser (α : Type) := StateT (List Char) Option α

/-- `char::to_digit`. -/
def toDigit (radix : Nat) (c : Char) : Option Nat :=
  let digit :=
    if '0' ≤ c ∧ c ≤ '9' then some (c.toNat - '0'.toNat)
    else if 'a' ≤ c ∧ c ≤ 'z' then some (c.toNat - 'a'.toNat + 10)
    else if 'A' ≤ c ∧ c ≤ 'Z' then some (c.toNat - 'A'.toNat + 10)
    else none
  digit.filter (· < radix)

def readGivenChar (c : Char) : Parser Unit := fun cs =>
  match cs with
  | [] => none
  | d :: cs => if d = c then some ((), cs) else none

/-- All digits that come, at most `maxDigits`, of a number below `size`. -/
def readNumber (radix size maxDigits : Nat) (allowZeroPrefix : Bool) : Parser Nat := fun cs =>
  let digits := (cs.takeWhile fun c => (toDigit radix c).isSome).filterMap (toDigit radix)
  let value := digits.foldl (fun n digit => n * radix + digit) 0
  if digits.length = 0 ∨ maxDigits < digits.length then none
  else if allowZeroPrefix = false ∧ digits.head? = some 0 ∧ 1 < digits.length then none
  else if value < size then some (value, cs.drop digits.length)
  else none

/-- What comes after a separator, unless it is the first. -/
def readSeparator {α : Type} (sep : Char) (first : Bool) (inner : Parser α) : Parser α := do
  if first = false then readGivenChar sep
  inner

/-- Four octets. An octal number is disallowed. -/
def readIpv4Addr : Parser Ipv4Addr := do
  let octet (first : Bool) := readSeparator '.' first (readNumber 10 (2 ^ 8) 3 false)
  let a ← octet true
  let b ← octet false
  let c ← octet false
  let d ← octet false
  return ⟨#v[a.toUInt8, b.toUInt8, c.toUInt8, d.toUInt8]⟩

/-- `u16::from_be_bytes`. -/
def fromBeBytes (high low : UInt8) : UInt16 := high.toUInt16 <<< 8 ||| low.toUInt16

/-- What `read_groups` has read: the groups, whether the last two were written as an IPv4 address,
and the text that is left. -/
structure Groups where
  groups : List UInt16
  embedded : Bool
  rest : List Char

/-- At most `limit` groups, up to the first that cannot be read. -/
def readGroups (limit : Nat) (first : Bool) (cs : List Char) : Groups :=
  match limit with
  | 0 => ⟨[], false, cs⟩
  | limit + 1 =>
    -- there must be at least two groups left for an embedded IPv4 address
    match if 0 < limit then readSeparator ':' first readIpv4Addr cs else none with
    | some (⟨octets⟩, cs) =>
      ⟨[fromBeBytes octets[0] octets[1], fromBeBytes octets[2] octets[3]], true, cs⟩
    | none =>
      match readSeparator ':' first (readNumber 16 (2 ^ 16) 4 true) cs with
      | none => ⟨[], false, cs⟩
      | some (group, cs) =>
        let tail := readGroups limit false cs
        { tail with groups := group.toUInt16 :: tail.groups }

theorem readGroups_length_le (limit : Nat) (first : Bool) (cs : List Char) :
    (readGroups limit first cs).groups.length ≤ limit := by
  induction limit generalizing first cs with
  | zero => exact Nat.le_refl 0
  | succ limit ih =>
    unfold readGroups
    split
    · next h =>
      split at h
      · next hlimit => exact Nat.succ_le_succ hlimit
      · cases h
    · split
      · exact Nat.zero_le _
      · exact Nat.succ_le_succ (ih _ _)

/-- The groups on the two sides of a `::`, which stands for zeros. -/
def joinGroups (head tail : List UInt16) (h : head.length + tail.length ≤ 8) : Ipv6Addr where
  groups := ⟨(head ++ List.replicate (8 - (head.length + tail.length)) 0 ++ tail).toArray, by
    simp only [List.size_toArray, List.length_append, List.length_replicate]
    omega⟩

def readIpv6Addr : Parser Ipv6Addr := fun cs =>
  let head := readGroups 8 true cs
  if hfull : head.groups.length = 8 then
    some (joinGroups head.groups [] (Nat.le_of_eq hfull), head.rest)
  -- an IPv4 part is not allowed before `::`
  else if head.embedded then none
  else do
    let ((), cs) ← readGivenChar ':' head.rest
    let ((), cs) ← readGivenChar ':' cs
    -- the `::` stands for at least one group
    let tail := readGroups (8 - (head.groups.length + 1)) true cs
    have hroom : head.groups.length + tail.groups.length ≤ 8 := by
      have hhead : head.groups.length ≤ 8 := readGroups_length_le 8 true _
      have htail : tail.groups.length ≤ 8 - (head.groups.length + 1) :=
        readGroups_length_le _ true cs
      omega
    some (joinGroups head.groups tail.groups hroom, tail.rest)

def readIpAddr : Parser IpAddr :=
  (IpAddr.V4 <$> readIpv4Addr) <|> (IpAddr.V6 <$> readIpv6Addr)

/-- `IpAddr::from_str`: the whole text must be read. -/
def IpAddr.fromStr (s : String) : Option IpAddr :=
  match readIpAddr s.toList with
  | some (addr, []) => some addr
  | _ => none

end Net
