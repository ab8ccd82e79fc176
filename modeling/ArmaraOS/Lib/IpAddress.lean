import Mathlib.Algebra.Ring.Nat

/-!
IP addresses: their bits, their kinds, their text forms and their blocks.

The text of an IPv4 address is the strict one, of four decimal octets. The text of an IPv6 address
is that of RFC 4291, with `::` for at least one group and an IPv4 address in the place of the last
two.
-/

namespace ArmaraOS.Lib

/-- An IP address. -/
inductive IpAddr where
  | v4 (bits : BitVec 32)
  | v6 (bits : BitVec 128)
deriving DecidableEq

namespace IpAddr

/-! ### Kinds -/

/-- The IPv4 address of four octets. -/
def ofOctets (a b c d : Nat) : IpAddr :=
  .v4 (BitVec.ofNat 32 (a * 2 ^ 24 + b * 2 ^ 16 + c * 2 ^ 8 + d))

/-- The octets of an IPv4 address. -/
def octets (bits : BitVec 32) : List Nat := [24, 16, 8, 0].map fun k => (bits >>> k).toNat % 2 ^ 8

/-- The first group of an IPv6 address. -/
def firstSegment (bits : BitVec 128) : Nat := (bits >>> 112).toNat

/-- `127.0.0.0/8` and `::1`. -/
def isLoopback : IpAddr → Bool
  | .v4 bits => (octets bits).head? == some 127
  | .v6 bits => bits == 1

/-- `0.0.0.0` and `::`. -/
def isUnspecified : IpAddr → Bool
  | .v4 bits => bits == 0
  | .v6 bits => bits == 0

/-- The IPv4 address behind an IPv4-mapped one, and every other address itself. -/
def canonical : IpAddr → IpAddr
  | .v4 bits => .v4 bits
  | .v6 bits => if bits >>> 32 = 0xffff then .v4 (bits.setWidth 32) else .v6 bits

/-! ### Blocks -/

/-- Two addresses of one family agree in their leading bits. -/
def SharesPrefix (n : Nat) : IpAddr → IpAddr → Prop
  | .v4 a, .v4 b => n ≤ 32 ∧ a >>> (32 - n) = b >>> (32 - n)
  | .v6 a, .v6 b => n ≤ 128 ∧ a >>> (128 - n) = b >>> (128 - n)
  | _, _ => False

/-- Two words agree under a mask of leading ones exactly when they agree in their leading bits. -/
theorem and_mask_eq_iff {w : Nat} (a b : BitVec w) (k : Nat) :
    a &&& (BitVec.allOnes w <<< k) = b &&& (BitVec.allOnes w <<< k) ↔ a >>> k = b >>> k := by
  constructor
  · intro h
    refine BitVec.eq_of_getLsbD_eq fun i hi => ?_
    have hbit := congrArg (BitVec.getLsbD · (k + i)) h
    simp only [BitVec.getLsbD_and, BitVec.getLsbD_shiftLeft, BitVec.getLsbD_allOnes] at hbit
    rw [BitVec.getLsbD_ushiftRight, BitVec.getLsbD_ushiftRight]
    by_cases hlt : k + i < w
    · have hle : ¬ k + i < k := by omega
      have hsub : k + i - k < w := by omega
      simpa only [hlt, hle, hsub, decide_true, decide_false, Bool.not_false, Bool.and_true,
        Bool.true_and] using hbit
    · rw [BitVec.getLsbD_of_ge a _ (by omega), BitVec.getLsbD_of_ge b _ (by omega)]
  · intro h
    refine BitVec.eq_of_getLsbD_eq fun i hi => ?_
    simp only [BitVec.getLsbD_and, BitVec.getLsbD_shiftLeft, BitVec.getLsbD_allOnes]
    by_cases hlow : i < k
    · simp [hlow]
    · have hbit := congrArg (BitVec.getLsbD · (i - k)) h
      simp only [BitVec.getLsbD_ushiftRight] at hbit
      have hsum : k + (i - k) = i := by omega
      rw [hsum] at hbit
      rw [hbit]

/-! ### Text -/

/-- The value of a digit, up to sixteen. -/
def digitValue (c : Char) : Option Nat :=
  if c.isDigit then some (c.toNat - '0'.toNat)
  else if 'a' ≤ c.toLower ∧ c.toLower ≤ 'f' then some (c.toLower.toNat - 'a'.toNat + 10)
  else none

/-- The number that digits of a radix write; no digits write zero. -/
def readNumber (radix : Nat) (cs : List Char) : Option Nat :=
  cs.foldlM (fun n c => (digitValue c).bind fun d =>
    if d < radix then some (radix * n + d) else none) 0

/-- A decimal octet, without leading zeros. -/
def readOctet (cs : List Char) : Option Nat :=
  if cs.isEmpty || (1 < cs.length && cs.head? == some '0') then none
  else (readNumber 10 cs).filter (· < 256)

/-- The text of an IPv4 address. -/
def parseV4 (cs : List Char) : Option (BitVec 32) :=
  match (cs.splitOn '.').mapM readOctet with
  | some [a, b, c, d] =>
      some (BitVec.ofNat 32 (a * 2 ^ 24 + b * 2 ^ 16 + c * 2 ^ 8 + d))
  | _ => none

/-- A group of one to four hexadecimal digits. -/
def readGroup (cs : List Char) : Option Nat :=
  if cs.isEmpty || 4 < cs.length then none else readNumber 16 cs

/-- Groups, the last two of which may be written as an IPv4 address. -/
def readGroups (withV4 : Bool) : List (List Char) → Option (List Nat)
  | [] => some []
  | [last] =>
      match readGroup last with
      | some group => some [group]
      | none =>
          if withV4 then
            (parseV4 last).map fun (bits : BitVec 32) => [(bits >>> 16).toNat, bits.toNat % 2 ^ 16]
          else none
  | part :: parts => (readGroup part).bind fun group =>
      (readGroups withV4 parts).map fun groups => group :: groups

/-- The groups between colons; no text has no groups. -/
def groupsOf (withV4 : Bool) (cs : List Char) : Option (List Nat) :=
  if cs.isEmpty then some [] else readGroups withV4 (cs.splitOn ':')

/-- The text before and behind the first `::`. -/
def splitDoubleColon : List Char → Option (List Char × List Char)
  | [] => none
  | ':' :: ':' :: cs => some ([], cs)
  | c :: cs => (splitDoubleColon cs).map fun parts => (c :: parts.1, parts.2)

/-- The address of eight groups. -/
def ofGroups (groups : List Nat) : BitVec 128 :=
  BitVec.ofNat 128 (groups.foldl (fun n group => n * 2 ^ 16 + group) 0)

/-- The text of an IPv6 address. -/
def parseV6 (cs : List Char) : Option (BitVec 128) :=
  match splitDoubleColon cs with
  | none => ((groupsOf true cs).filter fun groups => groups.length == 8).map ofGroups
  | some (left, right) =>
      match groupsOf false left, groupsOf true right with
      | some head, some tail =>
          if head.length + tail.length ≤ 7 then
            some (ofGroups (head ++ List.replicate (8 - head.length - tail.length) 0 ++ tail))
          else none
      | _, _ => none

/-- The text of an address. -/
def parse (cs : List Char) : Option IpAddr :=
  match parseV4 cs with
  | some bits => some (.v4 bits)
  | none => (parseV6 cs).map .v6

example : parse "::ffff:10.0.0.1".toList = some (.v6 0xffff0a000001#128) := by decide +kernel

example : (parse "010.0.0.1".toList, parse "1:2:3:4:5:6:7::8".toList) = (none, none) := by
  decide +kernel

end IpAddr

end ArmaraOS.Lib
