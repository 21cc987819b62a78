import Mathlib.Algebra.Order.Positive.Field
import Mathlib.Analysis.SpecialFunctions.Log.Basic

/-! Logarithms in exact arithmetic: an ordered group and the positive numbers of a field, each the
image of the other. -/

/-- An exponential and its logarithm. -/
structure LogScale (B V : Type*) [AddCommGroup B] [LinearOrder B] [Field V] [LinearOrder V] where
  exp : B → V
  log : V → B
  exp_pos (a : B) : 0 < exp a
  exp_add (a b : B) : exp (a + b) = exp a * exp b
  log_exp (a : B) : log (exp a) = a
  exp_log {v : V} (h : 0 < v) : exp (log v) = v
  exp_lt_exp {a b : B} : exp a < exp b ↔ a < b

namespace LogScale

/-- The natural logarithm. -/
noncomputable def real : LogScale ℝ ℝ where
  exp := Real.exp
  log := Real.log
  exp_pos := Real.exp_pos
  exp_add := Real.exp_add
  log_exp := Real.log_exp
  exp_log := Real.exp_log
  exp_lt_exp := Real.exp_lt_exp

/-- The logarithms of the positive rationals, each named by its number. -/
def rational : LogScale (Additive {q : ℚ // 0 < q}) ℚ where
  exp a := a.toMul.1
  log v := if h : 0 < v then .ofMul ⟨v, h⟩ else 0
  exp_pos a := a.toMul.2
  exp_add _ _ := rfl
  log_exp a := dif_pos a.toMul.2
  exp_log h := by rw [dif_pos h]; rfl
  exp_lt_exp := Iff.rfl

variable {B V : Type*} [AddCommGroup B] [LinearOrder B] [Field V] [LinearOrder V]
  (scale : LogScale B V) {a b : B} {v w : V}

theorem exp_le_exp : scale.exp a ≤ scale.exp b ↔ a ≤ b := by
  rw [← not_lt, ← not_lt, scale.exp_lt_exp]

theorem exp_zero : scale.exp 0 = 1 := by
  have hsquare : scale.exp 0 * scale.exp 0 = scale.exp 0 := by
    rw [← scale.exp_add, add_zero]
  exact mul_left_cancel₀ (scale.exp_pos 0).ne' (hsquare.trans (mul_one _).symm)

theorem exp_le_one : scale.exp a ≤ 1 ↔ a ≤ 0 := by
  rw [← scale.exp_zero, scale.exp_le_exp]

theorem log_le_log (hv : 0 < v) (hw : 0 < w) : scale.log v ≤ scale.log w ↔ v ≤ w := by
  rw [← scale.exp_le_exp, scale.exp_log hv, scale.exp_log hw]

end LogScale
