import Mathlib.Algebra.Ring.Nat
import Mathlib.Data.List.Basic
import Mathlib.Data.Nat.Log

/-!
The string operations of Rust's standard library that the runtime uses, on lists
of characters: a position in a string is a character boundary, and a length is a
number of UTF-8 bytes. Also the product of a `usize` with a decimal constant
through `f64`, as `(n as f64 * k) as usize` computes it.
-/

namespace ArmaraOS.Text

/-- `char::is_whitespace`: the characters with the Unicode property `White_Space`. -/
def isWhitespace (c : Char) : Bool :=
  let n := c.toNat
  (9 ≤ n && n ≤ 13) || n == 0x20 || n == 0x85 || n == 0xA0 || n == 0x1680 ||
    (0x2000 ≤ n && n ≤ 0x200A) || n == 0x2028 || n == 0x2029 || n == 0x202F ||
    n == 0x205F || n == 0x3000

/-- `s.trim().is_empty()`. -/
def isBlank (s : String) : Bool := s.toList.all isWhitespace

/-- Drop the characters that satisfy `p` at both ends. -/
def trimChars (p : Char → Bool) (cs : List Char) : List Char :=
  ((cs.dropWhile p).reverse.dropWhile p).reverse

/-- `str::trim`. -/
def trim (s : String) : String := String.ofList (trimChars isWhitespace s.toList)

/-- `str::trim_start`. -/
def trimStart (cs : List Char) : List Char := cs.dropWhile isWhitespace

/-- `str::trim_end`. -/
def trimEnd (cs : List Char) : List Char := (cs.reverse.dropWhile isWhitespace).reverse

/-- `str::starts_with`. -/
def startsWith (s pat : String) : Bool := pat.toList.isPrefixOf s.toList

/-- `pat` occurs in `cs`. -/
def occursIn (pat : List Char) : List Char → Bool
  | [] => pat.isEmpty
  | c :: cs => pat.isPrefixOf (c :: cs) || occursIn pat cs

/-- `str::contains`. -/
def contains (s pat : String) : Bool := occursIn pat.toList s.toList

/-- The characters before the first occurrence of `pat`, or all of them. -/
def beforeFirst (pat : List Char) : List Char → List Char
  | [] => []
  | c :: cs => if pat.isPrefixOf (c :: cs) then [] else c :: beforeFirst pat cs

/-- `s.split(pat).next()`. -/
def splitNext (s pat : String) : String := String.ofList (beforeFirst pat.toList s.toList)

/-- The characters before the last occurrence of `c`, if there is one. -/
def beforeLast (c : Char) : List Char → Option (List Char)
  | [] => none
  | d :: cs =>
      match beforeLast c cs with
      | some front => some (d :: front)
      | none => if d = c then some [] else none

/-- `s.chars().take(n).collect()`. -/
def takeChars (n : Nat) (s : String) : String := String.ofList (s.toList.take n)

/-- The number of UTF-8 bytes of a list of characters. -/
def byteLength (cs : List Char) : Nat := (cs.map Char.utf8Size).sum

/-- The longest prefix of at most `n` bytes: walking back from byte `n` to a
character boundary. -/
def takeBytes : Nat → List Char → List Char
  | _, [] => []
  | n, c :: cs => if c.utf8Size ≤ n then c :: takeBytes (n - c.utf8Size) cs else []

/-- `safe_truncate_str`, `truncate_str`. -/
def truncateStr (s : String) (maxBytes : Nat) : String :=
  String.ofList (takeBytes maxBytes s.toList)

/-- `str::to_ascii_lowercase`. -/
def toAsciiLowercase (s : String) : String := String.ofList (s.toList.map Char.toLower)

/-- The words of `split_whitespace`, with the word being read in `word`. -/
def wordsFrom (word : List Char) : List Char → List (List Char)
  | [] => if word.isEmpty then [] else [word]
  | c :: cs =>
      if isWhitespace c then
        if word.isEmpty then wordsFrom [] cs else word :: wordsFrom [] cs
      else wordsFrom (word ++ [c]) cs

/-- `s.split_whitespace()`. -/
def splitWhitespace (s : String) : List String := (wordsFrom [] s.toList).map String.ofList

/-- The runs of characters between those that pass `isSep`, with the run being read in
`word`; empty ones are left out. -/
def fieldsFrom (isSep : Char → Bool) (word : List Char) : List Char → List (List Char)
  | [] => if word.isEmpty then [] else [word]
  | c :: cs =>
      if isSep c then
        if word.isEmpty then fieldsFrom isSep [] cs else word :: fieldsFrom isSep [] cs
      else fieldsFrom isSep (word ++ [c]) cs

/-- `str::replace` on characters; `skip` counts those of a replaced pattern still to pass. -/
def replaceFrom (pat rep : List Char) : Nat → List Char → List Char
  | _, [] => []
  | skip + 1, _ :: cs => replaceFrom pat rep skip cs
  | 0, c :: cs =>
      if pat.isPrefixOf (c :: cs) then rep ++ replaceFrom pat rep (pat.length - 1) cs
      else c :: replaceFrom pat rep 0 cs

/-- `s.replace(pat, rep)`, for a pattern that is not empty. -/
def replace (s pat rep : String) : String :=
  String.ofList (replaceFrom pat.toList rep.toList 0 s.toList)

/-- `str::parse::<usize>`. -/
def parseUsize (cs : List Char) : Option Nat :=
  let digits := match cs with
    | '+' :: rest => rest
    | _ => cs
  let value := digits.foldl (fun n c => 10 * n + (c.toNat - 48)) 0
  if !digits.isEmpty && digits.all Char.isDigit && value < 2 ^ 64 then some value else none

/-- `items.join(sep)`. -/
def join (sep : String) (items : List String) : String := sep.intercalate items

/-! ### Double-precision products -/

/-- `n` rounded to 53 significant bits, ties to even. -/
def roundTo53 (n : Nat) : Nat :=
  let shift := Nat.log2 n + 1 - 53
  let unit := 2 ^ shift
  let low := n / unit
  let rest := n % unit
  (if 2 * rest > unit ∨ (2 * rest = unit ∧ low % 2 = 1) then low + 1 else low) * unit

/-- `(n as f64 * (mantissa / 2 ^ exponent)) as usize`. -/
def scaleF64 (n mantissa exponent : Nat) : Nat :=
  roundTo53 (roundTo53 n * mantissa) / 2 ^ exponent

example : scaleF64 200000 3152519739159347 52 = 140000 := by decide

end ArmaraOS.Text
