import MoonFlare.Binary

/-!
# One calculation, two arithmetics

A calculation in doubles and floats is written once, over the operations it uses. Read
over the rationals it is exact; read over doubles every operation rounds as the
machine's does.
-/

namespace MoonFlare

open Binary

/-- The operations of a calculation in doubles and floats. -/
class Arithmetic (V : Type) where
  /-- A constant of the source. -/
  lit : ℚ → V
  /-- `a + b`. -/
  add : V → V → V
  /-- `a - b`. -/
  sub : V → V → V
  /-- `a * b`. -/
  mul : V → V → V
  /-- `a < b`. -/
  lt : V → V → Bool
  /-- `a <= b`. -/
  le : V → V → Bool
  /-- `(long)v`. -/
  toLong : V → ℤ
  /-- `(double)n / 1000.0`. -/
  thousandths : ℤ → V
  /-- `(double)(float)v`. -/
  single : V → V
  /-- `(double)((float)n * 0.001f)`. -/
  singleThousandths : ℕ → V

namespace Double

/-- `a * b`. -/
def mul : Double → Double → Double
  | nan, _ => nan
  | _, nan => nan
  | inf m, inf n => inf (m != n)
  | inf m, fin b => if b.val = 0 then nan else inf (m != decide (b.val < 0))
  | fin a, inf n => if a.val = 0 then nan else inf (n != decide (a.val < 0))
  | fin a, fin b => ofRat (a.val * b.val)

/-- `(double)(float)d`. -/
def single : Double → Double
  | fin d => if |f32 d.val| < 2 ^ 128 then ofRat (f32 d.val) else inf (decide (d.val < 0))
  | d => d

end Double

namespace Arithmetic

/-- Nothing is rounded. -/
instance exact : Arithmetic ℚ where
  lit q := q
  add a b := a + b
  sub a b := a - b
  mul a b := a * b
  lt a b := decide (a < b)
  le a b := decide (a ≤ b)
  toLong q := if 0 ≤ q then ⌊q⌋ else ⌈q⌉
  thousandths z := z / 1000
  single q := q
  singleThousandths n := n / 1000

/-- The arithmetic of the machine. -/
instance machine : Arithmetic Double where
  lit := Double.ofRat
  add := Double.add
  sub := Double.sub
  mul := Double.mul
  lt := Double.lt
  le a b := b.ge a
  toLong := Double.toLong
  thousandths z := Double.ofRat (f64 z / 1000)
  single := Double.single
  singleThousandths n := Double.ofRat (f32 (f32 n * f32 (1 / 1000)))

/-! ## Exact numbers -/

@[simp] theorem lit_rat (q : ℚ) : (lit q : ℚ) = q := rfl

@[simp] theorem add_rat (a b : ℚ) : add a b = a + b := rfl

@[simp] theorem sub_rat (a b : ℚ) : sub a b = a - b := rfl

@[simp] theorem mul_rat (a b : ℚ) : mul a b = a * b := rfl

@[simp] theorem lt_rat (a b : ℚ) : lt a b = decide (a < b) := rfl

@[simp] theorem le_rat (a b : ℚ) : le a b = decide (a ≤ b) := rfl

@[simp] theorem thousandths_rat (z : ℤ) : (thousandths z : ℚ) = z / 1000 := rfl

@[simp] theorem single_rat (q : ℚ) : single q = q := rfl

@[simp] theorem singleThousandths_rat (n : ℕ) : (singleThousandths n : ℚ) = n / 1000 := rfl

theorem toLong_rat (q : ℚ) : toLong q = if 0 ≤ q then ⌊q⌋ else ⌈q⌉ := rfl

end Arithmetic

end MoonFlare
