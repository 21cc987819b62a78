import Mathlib.Data.Rat.Lemmas
import Mathlib.Algebra.Order.Field.Rat

/-! Python floats in exact arithmetic: a rational, or one of the three values that are not. -/
namespace Py

/-- The exceptions that the modelled code raises or catches by name. -/
inductive PyError where
  | typeError
  | valueError
  | overflowError
  | lookupError
  | osError
  deriving DecidableEq, Repr

/-- A computation that can raise returns when each of its two parts does. -/
theorem bind_eq_ok {ε α β : Type} {x : Except ε α} {f : α → Except ε β} {b : β} :
    x >>= f = .ok b ↔ ∃ a, x = .ok a ∧ f a = .ok b := by
  cases x <;> simp [bind, Except.bind]

inductive PyFloat where
  | nan
  | negInf
  | posInf
  | fin (q : ℚ)
  deriving DecidableEq, Repr

namespace PyFloat

/-- `math.isfinite`. -/
def isFinite : PyFloat → Bool
  | .fin _ => true
  | _ => false

/-- `x < y`: every comparison with a NaN is false. -/
def lt : PyFloat → PyFloat → Bool
  | .fin p, .fin q => decide (p < q)
  | .negInf, .fin _ => true
  | .negInf, .posInf => true
  | .fin _, .posInf => true
  | _, _ => false

/-- `x <= y`. -/
def le : PyFloat → PyFloat → Bool
  | .fin p, .fin q => decide (p ≤ q)
  | .nan, _ => false
  | _, .nan => false
  | .negInf, _ => true
  | _, .posInf => true
  | _, _ => false

/-- `1.0 / x`, for `x` other than zero. -/
def recip : PyFloat → PyFloat
  | .nan => .nan
  | .negInf | .posInf => .fin 0
  | .fin q => .fin (1 / q)

/-- `x * q`, for a positive rational `q`. -/
def scale (q : ℚ) : PyFloat → PyFloat
  | .fin p => .fin (p * q)
  | x => x

/-- `min(x, y)`: the second only where it is smaller, so a NaN there is passed over. -/
def pyMin (x y : PyFloat) : PyFloat := if y.lt x then y else x

/-- `max(x, y)`. -/
def pyMax (x y : PyFloat) : PyFloat := if x.lt y then y else x

/-- The least integer that no longer rounds to a finite double. -/
@[irreducible] def overflowBound : ℤ := 2 ^ 1024 - 2 ^ 970

/-- `float(n)`. -/
def ofInt (n : ℤ) : Except PyError PyFloat :=
  if |n| < overflowBound then .ok (.fin n) else .error .overflowError

@[simp] theorem isFinite_iff {x : PyFloat} : x.isFinite = true ↔ ∃ q, x = .fin q := by
  cases x <;> simp [isFinite]

@[simp] theorem lt_fin {p q : ℚ} : lt (.fin p) (.fin q) = true ↔ p < q := by simp [lt]

@[simp] theorem le_fin {p q : ℚ} : le (.fin p) (.fin q) = true ↔ p ≤ q := by simp [le]

@[simp] theorem lt_nan_left (x : PyFloat) : lt .nan x = false := by cases x <;> rfl

@[simp] theorem lt_nan_right (x : PyFloat) : lt x .nan = false := by cases x <;> rfl

@[simp] theorem le_nan_left (x : PyFloat) : le .nan x = false := by cases x <;> rfl

@[simp] theorem le_nan_right (x : PyFloat) : le x .nan = false := by cases x <;> rfl

/-- Between numbers that are not NaN, `not (x < y)` says `y <= x`. -/
theorem lt_false_iff_le {x y : PyFloat} (hx : x ≠ .nan) (hy : y ≠ .nan) :
    lt x y = false ↔ le y x = true := by
  cases x <;> cases y <;> simp_all [lt, le]

end PyFloat
end Py
