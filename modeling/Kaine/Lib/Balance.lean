import Mathlib.Algebra.BigOperators.Field
import Mathlib.Algebra.Order.BigOperators.Group.Finset
import Mathlib.Algebra.Order.Field.Basic
import Mathlib.Tactic.Linarith
import Mathlib.Tactic.Ring

/-! Shares of a fixed total: transfers between two of them, and contraction towards one value. -/
namespace Balance
open Function

variable {ι K : Type*}

/-- Move an amount from one share to another. -/
def transfer [DecidableEq ι] [AddGroup K] (g : ι → K) (up down : ι) (delta : K) : ι → K :=
  let raised := update g up (g up + delta)
  update raised down (raised down - delta)

/-- Scale the distance from a centre. -/
def contract [Ring K] (centre factor : K) (g : ι → K) : ι → K :=
  fun i => centre + (g i - centre) * factor

theorem transfer_apply [DecidableEq ι] [AddCommGroup K] (g : ι → K) (up down i : ι) (delta : K) :
    transfer g up down delta i =
      g i + (if i = up then delta else 0) - (if i = down then delta else 0) := by
  by_cases hd : i = down <;> by_cases hu : i = up <;> simp_all [transfer, update_apply]

theorem sum_transfer [DecidableEq ι] [Fintype ι] [AddCommGroup K] (g : ι → K) (up down : ι)
    (delta : K) : ∑ i, transfer g up down delta i = ∑ i, g i := by
  simp only [transfer_apply, Finset.sum_sub_distrib, Finset.sum_add_distrib,
    Finset.sum_ite_eq', Finset.mem_univ, if_true, add_sub_cancel_right]

/-- Shares that average to the centre still do after a contraction towards it. -/
theorem sum_contract [Fintype ι] [Ring K] {g : ι → K} {centre factor : K}
    (h : ∑ i, g i = Fintype.card ι * centre) :
    ∑ i, contract centre factor g i = Fintype.card ι * centre := by
  simp only [contract, Finset.sum_add_distrib, ← Finset.sum_mul, Finset.sum_sub_distrib, h]
  simp

section
variable [Field K] [LinearOrder K] [IsStrictOrderedRing K] {g : ι → K}
  {delta low high centre factor : K}

/-- A transfer within the room of both ends stays between the bounds. -/
theorem transfer_mem [DecidableEq ι] {up down : ι} (h : ∀ i, low ≤ g i ∧ g i ≤ high)
    (hpos : 0 ≤ delta) (hup : delta ≤ high - g up) (hdown : delta ≤ g down - low) (i : ι) :
    low ≤ transfer g up down delta i ∧ transfer g up down delta i ≤ high := by
  obtain ⟨hl, hh⟩ := h i
  rw [transfer_apply]
  by_cases hu : i = up
  · subst hu
    by_cases hd : i = down
    · subst hd
      constructor <;> simp <;> linarith
    · constructor <;> simp [hd] <;> linarith
  · by_cases hd : i = down
    · subst hd
      constructor <;> simp [hu] <;> linarith
    · constructor <;> simp [hu, hd] <;> linarith

theorem contract_mem (h : ∀ i, low ≤ g i ∧ g i ≤ high) (hlow : low ≤ centre)
    (hhigh : centre ≤ high) (h0 : 0 ≤ factor) (h1 : factor ≤ 1) (i : ι) :
    low ≤ contract centre factor g i ∧ contract centre factor g i ≤ high := by
  obtain ⟨hl, hh⟩ := h i
  have hlow' : 0 ≤ (g i - low) * factor := mul_nonneg (by linarith) h0
  have hhigh' : 0 ≤ (high - g i) * factor := mul_nonneg (by linarith) h0
  have hlow'' : 0 ≤ (centre - low) * (1 - factor) := mul_nonneg (by linarith) (by linarith)
  have hhigh'' : 0 ≤ (high - centre) * (1 - factor) := mul_nonneg (by linarith) (by linarith)
  constructor
  · have : contract centre factor g i - low =
        (g i - low) * factor + (centre - low) * (1 - factor) := by
      simp only [contract]
      ring
    linarith
  · have : high - contract centre factor g i =
        (high - g i) * factor + (high - centre) * (1 - factor) := by
      simp only [contract]
      ring
    linarith

end
end Balance
