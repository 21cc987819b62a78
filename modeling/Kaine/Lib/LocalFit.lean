import Mathlib.LinearAlgebra.Matrix.ToLinearEquiv
import Mathlib.LinearAlgebra.Vandermonde

/-! Weighted polynomial fits: when the normal equations have one solution, and what a fit gives
back. -/
namespace LocalFit

variable {ι κ n K : Type*} [Field K] {m : ℕ}

/-- The exact solution of linear equations, where there is one. -/
def solve [Fintype n] [DecidableEq n] [DecidableEq K] (A : Matrix n n K) (B : Matrix n κ K) :
    Option (Matrix n κ K) :=
  if A.det = 0 then none else some ((A.det)⁻¹ • A.adjugate * B)

theorem solve_eq [Fintype n] [DecidableEq n] [DecidableEq K] {A : Matrix n n K} (hdet : A.det ≠ 0)
    (B : Matrix n κ K) :
    solve A B = some (A⁻¹ * B) := by
  rw [solve, if_neg hdet, Matrix.inv_def, Ring.inverse_eq_inv]

/-- The powers of the points up to the `m`-th, a row for each point. -/
def powers (x : ι → K) (m : ℕ) : Matrix ι (Fin (m + 1)) K := Matrix.of fun i j => x i ^ (j : ℕ)

/-- The powers with the weights, a column for each point. -/
def weightedPowers (x w : ι → K) (m : ℕ) : Matrix (Fin (m + 1)) ι K :=
  Matrix.of fun j i => x i ^ (j : ℕ) * w i

open Matrix Polynomial

theorem powers_coeff {f : K[X]} (hf : f.natDegree ≤ m) (x : ι → K) (i : ι) :
    ∑ j : Fin (m + 1), powers x m i j * f.coeff j = f.eval (x i) := by
  rw [eval_eq_sum_range' (Nat.lt_succ_of_le hf), Finset.sum_range]
  exact Finset.sum_congr rfl fun j _ => mul_comm _ _

section Exact

variable [Fintype ι] {x w : ι → K}

/-- The matrix of the normal equations. -/
def gram (x w : ι → K) (m : ℕ) : Matrix (Fin (m + 1)) (Fin (m + 1)) K :=
  weightedPowers x w m * powers x m

/-- The matrix that takes outcomes to the coefficients of their fit. -/
noncomputable def fit (x w : ι → K) (m : ℕ) : Matrix (Fin (m + 1)) ι K :=
  (gram x w m)⁻¹ * weightedPowers x w m

theorem fit_mul_powers (hdet : (gram x w m).det ≠ 0) : fit x w m * powers x m = 1 := by
  rw [fit, Matrix.mul_assoc]
  exact Matrix.nonsing_inv_mul _ (isUnit_iff_ne_zero.mpr hdet)

/-- A fit gives back the coefficients of a polynomial up to its order. -/
theorem fit_eval (hdet : (gram x w m).det ≠ 0) {f : K[X]} (hf : f.natDegree ≤ m) (j : Fin (m + 1)) :
    ∑ i, fit x w m j i * f.eval (x i) = f.coeff j := by
  have hproduct : (fit x w m * powers x m) *ᵥ (fun k : Fin (m + 1) => f.coeff k) = fun k :
      Fin (m + 1) => f.coeff k := by
    rw [fit_mul_powers hdet, one_mulVec]
  rw [← Matrix.mulVec_mulVec] at hproduct
  have hentry := congrFun hproduct j
  rw [← hentry]
  refine Finset.sum_congr rfl fun i _ => ?_
  rw [← powers_coeff hf]
  rfl

end Exact

section Identified

variable [Fintype ι] {x w : ι → K} [LinearOrder K] [IsStrictOrderedRing K]

/-- With positive weights and more distinct points than the order, the normal equations have one
solution. -/
theorem det_gram_ne_zero (hw : ∀ i, 0 < w i) (hx : m + 1 ≤ (Finset.univ.image x).card) :
    (gram x w m).det ≠ 0 := by
  intro hzero
  obtain ⟨v, hv, hgram⟩ := exists_mulVec_eq_zero_iff.mpr hzero
  have hsquares : ∑ i, w i * ((powers x m *ᵥ v) i * (powers x m *ᵥ v) i) = 0 := by
    have hproduct : v ⬝ᵥ gram x w m *ᵥ v = 0 := by rw [hgram, dotProduct_zero]
    rw [gram, ← mulVec_mulVec, dotProduct_mulVec] at hproduct
    rw [← hproduct]
    refine Finset.sum_congr rfl fun i _ => ?_
    rw [← mul_assoc]
    congr 1
    rw [vecMul, dotProduct, mulVec, dotProduct, Finset.mul_sum]
    refine Finset.sum_congr rfl fun j _ => ?_
    rw [weightedPowers, powers, of_apply, of_apply]
    ring
  have hpoint (i : ι) : (powers x m *ᵥ v) i = 0 := by
    have hnonneg : ∀ i ∈ Finset.univ, 0 ≤ w i * ((powers x m *ᵥ v) i * (powers x m *ᵥ v) i) :=
      fun i _ => mul_nonneg (hw i).le (mul_self_nonneg _)
    have hterm := (Finset.sum_eq_zero_iff_of_nonneg hnonneg).mp hsquares i (Finset.mem_univ i)
    exact mul_self_eq_zero.mp ((mul_eq_zero.mp hterm).resolve_left (hw i).ne')
  -- As many distinct points as there are coefficients determine them.
  let u := Finset.orderEmbOfCardLe (Finset.univ.image x) hx
  have hvandermonde : vandermonde u *ᵥ v = 0 := by
    funext k
    obtain ⟨i, -, hi⟩ :=
      Finset.mem_image.mp (Finset.orderEmbOfCardLe_mem (Finset.univ.image x) hx k)
    have hrow := hpoint i
    rw [mulVec, dotProduct] at hrow ⊢
    rw [Pi.zero_apply, ← hrow]
    refine Finset.sum_congr rfl fun j _ => ?_
    rw [vandermonde_apply, powers, of_apply, hi]
  exact hv (eq_zero_of_mulVec_eq_zero (det_vandermonde_ne_zero_iff.mpr u.injective) hvandermonde)

end Identified

section Reindex

variable [Fintype ι] [Fintype κ] (e : κ ≃ ι)

theorem gram_comp (x w : ι → K) (m : ℕ) : gram (x ∘ e) (w ∘ e) m = gram x w m := by
  ext j k
  exact Equiv.sum_comp e fun i => weightedPowers x w m j i * powers x m i k

theorem fit_comp (x w : ι → K) (m : ℕ) (j : Fin (m + 1)) (k : κ) :
    fit (x ∘ e) (w ∘ e) m j k = fit x w m j (e k) := by
  rw [fit, gram_comp]
  rfl

end Reindex

end LocalFit
