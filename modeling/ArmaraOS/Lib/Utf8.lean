import Mathlib.Algebra.Ring.Nat
import Mathlib.Data.List.Basic

/-!
Lossy UTF-8 decoding: `String::from_utf8_lossy`.

A byte sequence is decoded character by character; where no character starts, the longest
prefix that could be the start of one is replaced by U+FFFD. Encoded text decodes to itself, and
what stands behind it is decoded on its own (`fromUtf8Lossy_encode_append`).
-/

namespace ArmaraOS.Utf8

/-- The bytes of a text. -/
def encode (cs : List Char) : List UInt8 := cs.flatMap String.utf8EncodeChar

/-- A continuation byte. -/
def isContinuation (b : UInt8) : Bool := 0x80 ≤ b && b ≤ 0xBF

/-- The second byte `next` can follow the first byte of a character of three or four bytes. -/
def isSecond (first next : UInt8) : Bool :=
  if first == 0xE0 then 0xA0 ≤ next && next ≤ 0xBF
  else if first == 0xED then 0x80 ≤ next && next ≤ 0x9F
  else if first == 0xF0 then 0x90 ≤ next && next ≤ 0xBF
  else if first == 0xF4 then 0x80 ≤ next && next ≤ 0x8F
  else 0xE1 ≤ first && first ≤ 0xF3 && isContinuation next

/-- The length of the part that is replaced, where no character starts. -/
def invalidLength : List UInt8 → Nat
  | first :: second :: third :: _ =>
      if !isSecond first second then 1
      else if first < 0xF0 || !isContinuation third then 2 else 3
  | [first, second] => if isSecond first second then 2 else 1
  | _ => 1

/-- The character at the start of a byte sequence. -/
def decodeChar? (bytes : List UInt8) : Option Char := bytes.toByteArray.utf8DecodeChar? 0

/-- `fromUtf8Lossy`, with `skip` bytes of the last character still to pass. -/
def lossyFrom : Nat → List UInt8 → List Char
  | _, [] => []
  | skip + 1, _ :: bytes => lossyFrom skip bytes
  | 0, b :: bytes =>
      match decodeChar? (b :: bytes) with
      | some c => c :: lossyFrom (c.utf8Size - 1) bytes
      | none => Char.ofNat 0xFFFD :: lossyFrom (invalidLength (b :: bytes) - 1) bytes

/-- `String::from_utf8_lossy`. -/
def fromUtf8Lossy (bytes : List UInt8) : List Char := lossyFrom 0 bytes

@[simp] theorem encode_nil : encode [] = [] := rfl

theorem decodeChar?_encode_append (c : Char) (bytes : List UInt8) :
    decodeChar? (String.utf8EncodeChar c ++ bytes) = some c := by
  rw [decodeChar?, List.toByteArray_append]
  exact ByteArray.utf8DecodeChar?_utf8EncodeChar_append

theorem lossyFrom_append (skipped bytes : List UInt8) :
    lossyFrom skipped.length (skipped ++ bytes) = lossyFrom 0 bytes := by
  induction skipped with
  | nil => rfl
  | cons b rest ih => exact ih

/-- Encoded text decodes to itself, whatever stands behind it. -/
theorem fromUtf8Lossy_encode_append (cs : List Char) (bytes : List UInt8) :
    fromUtf8Lossy (encode cs ++ bytes) = cs ++ fromUtf8Lossy bytes := by
  induction cs with
  | nil => rfl
  | cons c cs ih =>
      have hlen := String.length_utf8EncodeChar c
      have hdecode := decodeChar?_encode_append c (encode cs ++ bytes)
      rw [encode, List.flatMap_cons, List.append_assoc, ← encode]
      cases hbytes : String.utf8EncodeChar c with
      | nil => exact absurd hbytes String.utf8EncodeChar_ne_nil
      | cons b rest =>
          rw [hbytes] at hlen hdecode
          have hskip : c.utf8Size - 1 = rest.length := by rw [← hlen]; rfl
          rw [List.cons_append] at hdecode ⊢
          rw [fromUtf8Lossy, lossyFrom, hdecode]
          simp only [hskip, lossyFrom_append]
          rw [← fromUtf8Lossy, ih, List.cons_append]

theorem fromUtf8Lossy_encode (cs : List Char) : fromUtf8Lossy (encode cs) = cs := by
  simpa [fromUtf8Lossy, lossyFrom] using fromUtf8Lossy_encode_append cs []

/-- The two halves of a character decode to two replacement characters. -/
example : fromUtf8Lossy [0xC3] ++ fromUtf8Lossy [0xA9] =
    [Char.ofNat 0xFFFD, Char.ofNat 0xFFFD] := by decide +kernel

theorem encode_injective {cs ds : List Char} (h : encode cs = encode ds) : cs = ds := by
  have hdecode := congrArg fromUtf8Lossy h
  rwa [fromUtf8Lossy_encode, fromUtf8Lossy_encode] at hdecode

/-- Texts that end alike behind two marks of one length differ if the marks do. -/
theorem append_mark_ne {front front' mark mark' back : String}
    (hlength : mark.toList.length = mark'.toList.length) (hne : mark ≠ mark') :
    front ++ mark ++ back ≠ front' ++ mark' ++ back := by
  intro h
  have hfront := congrArg String.toList ((String.append_left_inj back).mp h)
  rw [String.toList_append, String.toList_append] at hfront
  exact hne (String.toList_inj.mp (List.append_inj_right' hfront hlength))

end ArmaraOS.Utf8
