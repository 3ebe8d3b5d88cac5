import Mathlib.Data.Rat.Floor
import Mathlib.Order.Monotone.Basic

/-!
# Arithmetic with rounding

The operations of a floating point type, as an interface. The machine's own type is one instance;
another is exact arithmetic over `ℚ` in which every result is rounded. The rounding is any monotone
map that keeps zero: this is what the results of the second instance are about, and it is true of
the machine's rounding as long as nothing overflows.
-/

namespace ProxyLoom

/-- The operations of a floating point type. -/
structure FloatOps (F : Type) where
  ofNat : ℕ → F
  ofInt : ℤ → F
  add : F → F → F
  sub : F → F → F
  mul : F → F → F
  div : F → F → F
  abs : F → F
  lt : F → F → Bool
  isNaN : F → Bool
  isInf : F → Bool
  /-- A decimal literal. -/
  ofScientific : ℕ → Bool → ℕ → F

def FloatOps.float : FloatOps Float where
  ofNat := Float.ofNat
  ofInt := Float.ofInt
  add x y := x + y
  sub x y := x - y
  mul x y := x * y
  div x y := x / y
  abs := Float.abs
  lt x y := x < y
  isNaN := Float.isNaN
  isInf := Float.isInf
  ofScientific := OfScientific.ofScientific

/-- A monotone rounding that keeps zero. -/
structure Rounding where
  round : ℚ → ℚ
  mono : Monotone round
  zero : round 0 = 0

namespace Rounding

/-- Exact arithmetic with every result rounded; it has no infinities. -/
def ops (r : Rounding) : FloatOps ℚ where
  ofNat n := r.round n
  ofInt n := r.round n
  add x y := r.round (x + y)
  sub x y := r.round (x - y)
  mul x y := r.round (x * y)
  div x y := r.round (x / y)
  abs x := |x|
  lt x y := x < y
  isNaN _ := false
  isInf _ := false
  ofScientific m s e := r.round (OfScientific.ofScientific m s e)

variable {x : ℚ}

theorem round_nonneg (r : Rounding) (h : 0 ≤ x) : 0 ≤ r.round x := by
  rw [← r.zero]
  exact r.mono h

theorem ops_mul_nonneg (r : Rounding) {y : ℚ} (hx : 0 ≤ x) (hy : 0 ≤ y) :
    0 ≤ r.ops.mul x y :=
  r.round_nonneg (mul_nonneg hx hy)

theorem ops_div_nonneg (r : Rounding) {y : ℚ} (hx : 0 ≤ x) (hy : 0 ≤ y) :
    0 ≤ r.ops.div x y :=
  r.round_nonneg (div_nonneg hx hy)

theorem ops_abs_sub_self (r : Rounding) (x : ℚ) : r.ops.abs (r.ops.sub x x) = 0 := by
  show |r.round (x - x)| = 0
  rw [sub_self, r.zero, abs_zero]

def identity : Rounding := ⟨id, monotone_id, rfl⟩

end Rounding

end ProxyLoom
