import Mathlib.Algebra.Ring.Nat

/-!
Rust's `f64` and `f32` as far as values are passed around and compared.
-/

namespace ArmaraOS

/-- An `f64` by its bits. -/
structure F64 where
  bits : BitVec 64
deriving DecidableEq

namespace F64

/-- The bits below the sign. -/
def magnitude (x : F64) : Nat := x.bits.toNat % 2 ^ 63

/-- `is_nan`. -/
def isNan (x : F64) : Bool := 0x7FF0000000000000 < x.magnitude

/-- The place of a number in the order of the numbers. The two zeros share theirs. -/
def rank (x : F64) : Int := if 2 ^ 63 ≤ x.bits.toNat then -(x.magnitude : Int) else x.magnitude

/-- The operator `>=`. -/
def ge (x y : F64) : Bool := !x.isNan && !y.isNan && decide (y.rank ≤ x.rank)

theorem ge_trans {x y z : F64} (hxy : x.ge y = true) (hyz : y.ge z = true) : x.ge z = true := by
  simp only [ge, Bool.and_eq_true, decide_eq_true_eq] at hxy hyz ⊢
  exact ⟨⟨hxy.1.1, hyz.1.2⟩, Int.le_trans hyz.2 hxy.2⟩

end F64

/-- An `f32` by its bits. -/
structure F32 where
  bits : BitVec 32
deriving DecidableEq

namespace F32

/-- The number 0.5. -/
def half : F32 := ⟨0x3F000000⟩

/-- The number 1. -/
def one : F32 := ⟨0x3F800000⟩

/-- `is_nan`. -/
def isNan (x : F32) : Bool := 0x7F800000 < x.bits.toNat % 2 ^ 31

end F32

end ArmaraOS
