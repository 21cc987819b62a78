import Kaine.Lib.LocalFit

/-! The discontinuity estimate by local polynomial fits on the two sides
(`kaine/experiment/rd_robust.py`). -/
namespace Kaine.RdRobust
open LocalFit Matrix

variable {ι K : Type} [Fintype ι] [Field K] [LinearOrder K]

abbrev Estimated (α : Type) := Except String α

/-- The units of a side with positive weight. -/
abbrev Inside (x : ι → K) (h : K) : Type := {i // |x i| < h}

abbrev Left (x : ι → K) : Type := {i // x i < 0}
abbrev Right (x : ι → K) : Type := {i // ¬ x i < 0}

/-- A fit on one side: its coefficients, and the matrix that takes the outcomes to them. -/
structure SideFit (ι K : Type) (m : ℕ) where
  beta : Fin (m + 1) → K
  L : Matrix (Fin (m + 1)) ι K

/-- `_local_poly`. -/
def localPoly (xSide ySide : ι → K) (h : K) (m : ℕ) : Estimated (SideFit ι K m) :=
  let xIn := fun i : Inside xSide h => xSide i
  let yIn := fun i : Inside xSide h => ySide i
  if h ≤ 0 then .error "bandwidth must be positive and finite"
  else if Fintype.card (Inside xSide h) < m + 1 then
    .error s!"side has fewer than {m + 1} units with positive weight"
  else if (Finset.univ.image xIn).card < m + 1 then
    .error s!"side has fewer than {m + 1} distinct x values with positive weight"
  else
    let w := fun i => (1 - |xIn i / h|) / h
    let Rw := weightedPowers xIn w m
    let RWR := Rw * powers xIn m
    match solve RWR (Matrix.of fun j (_ : Unit) => (Rw *ᵥ yIn) j) with
    | none => .error "local polynomial fit is numerically singular"
    | some beta =>
      match solve RWR Rw with
      | none => .error "local polynomial fit is numerically singular"
      | some L =>
        .ok ⟨fun j => beta j (), Matrix.of fun j i => if hi : |xSide i| < h then L j ⟨i, hi⟩ else 0⟩

/-- `_D_scalar`. -/
def dScalar (xSide : ι → K) (h : K) (p : ℕ) : Estimated K :=
  match localPoly xSide (fun _ => 0) h p with
  | .error e => .error e
  | .ok side => .ok (∑ i, side.L 0 i * xSide i ^ (p + 1))

/-- `_residuals`. -/
def residuals (xSide ySide : ι → K) {m : ℕ} (beta : Fin (m + 1) → K) : ι → K :=
  fun i => ySide i - (powers xSide m *ᵥ beta) i

structure RDWeights (ι K : Type) where
  wConventional : ι → K
  wBiasCorrected : ι → K
  residualsConventional : ι → K
  residualsRobust : ι → K

/-- An array over all units from one over each side. -/
def scatter (x : ι → K) (left : Left x → K) (right : Right x → K) : ι → K :=
  fun i => if hi : x i < 0 then left ⟨i, hi⟩ else right ⟨i, hi⟩

/-- `rd_weights` past its checks; the second fit has a coefficient of order `p + 1`. -/
def weightsOf (x y : ι → K) (h b : K) (p q : ℕ) (hpq : p + 1 < q + 1) :
    Estimated (RDWeights ι K) := do
  let xr := fun i : Right x => x i
  let yr := fun i : Right x => y i
  let xl := fun i : Left x => x i
  let yl := fun i : Left x => y i
  let fitPR ← localPoly xr yr h p
  let fitPL ← localPoly xl yl h p
  let fitQR ← localPoly xr yr b q
  let fitQL ← localPoly xl yl b q
  let dr ← dScalar xr h p
  let dl ← dScalar xl h p
  let top : Fin (q + 1) := ⟨p + 1, hpq⟩
  .ok {
    wConventional := scatter x (fun i => -fitPL.L 0 i) (fun i => fitPR.L 0 i)
    wBiasCorrected := scatter x (fun i => -fitPL.L 0 i + dl * fitQL.L top i)
      (fun i => fitPR.L 0 i - dr * fitQR.L top i)
    residualsConventional := scatter x (residuals xl yl fitPL.beta) (residuals xr yr fitPR.beta)
    residualsRobust := scatter x (residuals xl yl fitQL.beta) (residuals xr yr fitQR.beta) }

theorem toNat_lt {p q : ℤ} (hp : ¬ p < 0) (hq : ¬ q ≤ p) : p.toNat + 1 < q.toNat + 1 := by omega

def rdWeights (x y : ι → K) (h b : K) (p q : ℤ) : Estimated (RDWeights ι K) :=
  if h ≤ 0 then .error "h is not positive and finite"
  else if b ≤ 0 then .error "b is not positive and finite"
  else if hp : p < 0 then .error "p must be a non-negative integer"
  else if hq : q ≤ p then .error "q must be an integer greater than p"
  else weightsOf x y h b p.toNat q.toNat (toNat_lt hp hq)

/-- An estimate without its standard errors and its interval. -/
structure RDEstimate (K : Type) where
  tauConventional : K
  tauBiasCorrected : K
  nLeft : ℕ
  nRight : ℕ
  h : K
  b : K

/-- `rd_estimate` with its defaults, up to the variances. -/
def rdEstimate (x y : ι → K) (h b : K) (p q : ℤ) : Estimated (RDEstimate K) :=
  if h ≤ 0 then .error "h must be positive and finite"
  else if b ≤ 0 then .error "b must be positive and finite"
  else if p < 0 then .error "p must be a non-negative integer"
  else if q ≤ p then .error "q must be an integer greater than p"
  else
    match rdWeights x y h b p q with
    | .error e => .error e
    | .ok weights =>
      let cutoff := max h b
      .ok {
        tauConventional := ∑ i, weights.wConventional i * y i
        tauBiasCorrected := ∑ i, weights.wBiasCorrected i * y i
        nLeft := (Finset.univ.filter fun i => x i < 0 ∧ -cutoff < x i).card
        nRight := (Finset.univ.filter fun i => ¬ x i < 0 ∧ x i < cutoff).card
        h := h
        b := b }

end Kaine.RdRobust
