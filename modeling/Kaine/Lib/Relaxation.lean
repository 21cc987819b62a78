import Mathlib.Analysis.SpecialFunctions.Exp

/-! The exact step of a linear relaxation towards an equilibrium. -/
namespace Relaxation

variable {K : Type*} [Field K] [LinearOrder K] {exp : K → K}

/-- What a step uses of the exponential. -/
structure IsExp (exp : K → K) : Prop where
  zero : exp 0 = 1
  add : ∀ x y, exp (x + y) = exp x * exp y
  nonneg : ∀ x, 0 ≤ exp x
  le_one : ∀ x, x ≤ 0 → exp x ≤ 1

theorem isExp_real : IsExp Real.exp where
  zero := Real.exp_zero
  add := Real.exp_add
  nonneg x := (Real.exp_pos x).le
  le_one _ := Real.exp_le_one_iff.mpr

/-- The value after `dt`, which approaches `eq` at the rate `r`. -/
def relax (exp : K → K) (eq r x dt : K) : K := eq + (x - eq) * exp (-r * dt)

variable {eq r x dt dt₁ dt₂ lo hi : K}

theorem relax_zero (h : IsExp exp) : relax exp eq r x 0 = x := by
  rw [relax, mul_zero, h.zero]
  ring

theorem relax_relax (h : IsExp exp) :
    relax exp eq r (relax exp eq r x dt₁) dt₂ = relax exp eq r x (dt₁ + dt₂) := by
  have hsplit : exp (-r * (dt₁ + dt₂)) = exp (-r * dt₁) * exp (-r * dt₂) := by
    rw [← h.add]
    ring_nf
  rw [relax, relax, relax, hsplit]
  ring

variable [IsStrictOrderedRing K]

theorem IsExp.decay_le_one (h : IsExp exp) (hr : 0 ≤ r) (hdt : 0 ≤ dt) : exp (-r * dt) ≤ 1 := by
  have hprod : 0 ≤ r * dt := mul_nonneg hr hdt
  exact h.le_one _ (by linarith)

/-- A step stays between any bounds on the equilibrium and the start: it is a weighted mean of the
two. -/
theorem relax_mem (h : IsExp exp) (hr : 0 ≤ r) (hdt : 0 ≤ dt) (heq : lo ≤ eq ∧ eq ≤ hi)
    (hx : lo ≤ x ∧ x ≤ hi) : lo ≤ relax exp eq r x dt ∧ relax exp eq r x dt ≤ hi := by
  have hmean : relax exp eq r x dt = eq * (1 - exp (-r * dt)) + x * exp (-r * dt) := by
    rw [relax]
    ring
  have hweight : 0 ≤ 1 - exp (-r * dt) := sub_nonneg.mpr (h.decay_le_one hr hdt)
  have hnonneg := h.nonneg (-r * dt)
  rw [hmean]
  constructor
  · calc lo = lo * (1 - exp (-r * dt)) + lo * exp (-r * dt) := by ring
      _ ≤ eq * (1 - exp (-r * dt)) + x * exp (-r * dt) :=
          add_le_add (mul_le_mul_of_nonneg_right heq.1 hweight)
            (mul_le_mul_of_nonneg_right hx.1 hnonneg)
  · calc eq * (1 - exp (-r * dt)) + x * exp (-r * dt)
        ≤ hi * (1 - exp (-r * dt)) + hi * exp (-r * dt) :=
          add_le_add (mul_le_mul_of_nonneg_right heq.2 hweight)
            (mul_le_mul_of_nonneg_right hx.2 hnonneg)
      _ = hi := by ring

end Relaxation
