import Mathlib.Algebra.BigOperators.Ring.Finset
import Mathlib.Algebra.Field.Defs

/-! Sums over the pairs of two lists, and the quadratic forms of indicator vectors that they are;
the unbiased energy distance of two samples is built from them. -/
namespace PairSum

variable {α K : Type*}

section
variable [AddCommMonoid K]

/-- The sum of a function over all pairs of two lists. -/
def pairSum (d : α → α → K) (xs ys : List α) : K := (xs.map fun a => (ys.map (d a)).sum).sum

theorem pairSum_map {β : Type*} (d : α → α → K) (f : β → α) (xs ys : List β) :
    pairSum d (xs.map f) (ys.map f) = pairSum (fun a b => d (f a) (f b)) xs ys := by
  simp only [pairSum, List.map_map, Function.comp_def]

end

section
variable [Semiring K]

/-- The quadratic form of a matrix given by its rows. -/
def quadForm (P : List K) (D : List (List K)) (Q : List K) : K :=
  (P.zipWith (fun p row => (Q.zipWith (fun q d => p * d * q) row).sum) D).sum

/-- A sum against the indicator of a list of indices. -/
theorem sum_indicator {m : ℕ} {S : List ℕ} (hS : S.Nodup) (hm : ∀ i ∈ S, i < m) (f : ℕ → K) :
    ((List.range m).map fun i => (if i ∈ S then 1 else 0) * f i).sum = (S.map f).sum := by
  have hsub : Finset.range m ∩ S.toFinset = S.toFinset := by
    rw [Finset.inter_eq_right]
    intro i hi
    exact Finset.mem_range.mpr (hm i (List.mem_toFinset.mp hi))
  have hrange : (List.range m).toFinset = Finset.range m := by
    ext i
    simp
  calc ((List.range m).map fun i => (if i ∈ S then 1 else 0) * f i).sum
      = ∑ i ∈ Finset.range m, (if i ∈ S then 1 else 0) * f i := by
        rw [← hrange, List.sum_toFinset _ List.nodup_range]
    _ = ∑ i ∈ Finset.range m, if i ∈ S.toFinset then f i else 0 := by
        simp only [ite_mul, one_mul, zero_mul, List.mem_toFinset]
    _ = ∑ i ∈ S.toFinset, f i := by rw [Finset.sum_ite_mem, hsub]
    _ = (S.map f).sum := List.sum_toFinset f hS

/-- Between two indicators, the quadratic form sums the pairs of their indices. -/
theorem quadForm_indicator {m : ℕ} {S U : List ℕ} (hS : S.Nodup) (hm : ∀ i ∈ S, i < m)
    (hU : U.Nodup) (hn : ∀ i ∈ U, i < m) (d : ℕ → ℕ → K) :
    quadForm ((List.range m).map fun i => if i ∈ S then 1 else 0)
      ((List.range m).map fun i => (List.range m).map (d i))
      ((List.range m).map fun i => if i ∈ U then 1 else 0) = pairSum d S U := by
  have hrow : ∀ (p : K) i, (((List.range m).map fun j => if j ∈ U then (1 : K) else 0).zipWith
      (fun q d => p * d * q) ((List.range m).map (d i))).sum = p * (U.map (d i)).sum := by
    intro p i
    rw [List.zipWith_map, List.zipWith_self, ← sum_indicator hU hn, ← List.sum_map_mul_left]
    congr 1
    apply List.map_congr_left
    intro j _
    by_cases hj : j ∈ U <;> simp [hj]
  unfold quadForm
  rw [List.zipWith_map, List.zipWith_self]
  simp only [hrow]
  exact sum_indicator hS hm _

end

section
variable [Field K]

/-- The energy distance of two samples, with the means within a sample over its ordered pairs of
distinct members. -/
def energy (d : α → α → K) (xs ys : List α) : K :=
  2 * pairSum d xs ys / ((xs.length * ys.length : ℕ) : K)
    - pairSum d xs xs / ((xs.length * (xs.length - 1) : ℕ) : K)
    - pairSum d ys ys / ((ys.length * (ys.length - 1) : ℕ) : K)

end

end PairSum
