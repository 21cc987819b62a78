import Kaine.Lib.PairSum
import Kaine.Lib.PyFloat
import Kaine.Lib.Rounding

/-! The stratified energy test (`kaine/lifecycle/individuation_stats.py`). Statistics are in exact
arithmetic, over any field and its square root; the p-value is the double that Python computes. -/
namespace Kaine.IndividuationStats
open Py PairSum

/-- A two-dimensional array. -/
structure Sample (K : Type) where
  cols : ℕ
  rows : List (List K)
  widths : ∀ row ∈ rows, row.length = cols

local instance two_atLeastTwo : Nat.AtLeastTwo 2 := ⟨le_rfl⟩

variable {K : Type} [Field K] [LinearOrder K] (sqrt : K → K)

def dot (u v : List K) : K := (u.zipWith (· * ·) v).sum

/-- The Euclidean distance of two rows, as the code expands it. -/
def distance (u v : List K) : K := sqrt (max (dot u u + dot v v - 2 * dot u v) 0)

def pairwiseDistanceMatrix (a : List (List K)) : List (List K) :=
  a.map fun u => a.map (distance sqrt u)

def pairwiseMeanDistance (a b : List (List K)) : K :=
  (a.map fun u => (b.map (distance sqrt u)).sum).sum / ((a.length * b.length : ℕ) : K)

def withinMeanDistance (a : List (List K)) : K :=
  ((pairwiseDistanceMatrix sqrt a).map List.sum).sum / ((a.length * (a.length - 1) : ℕ) : K)

def energyU (x y : Sample K) : Except PyError K :=
  if x.cols ≠ y.cols then .error .valueError
  else if x.rows.length < 2 ∨ y.rows.length < 2 then .error .valueError
  else .ok (2 * pairwiseMeanDistance sqrt x.rows y.rows - withinMeanDistance sqrt x.rows
    - withinMeanDistance sqrt y.rows)

def stratifiedEnergy (strata : List (Sample K × Sample K)) : Except PyError K :=
  strata.foldlM (fun total s => return total + (← energyU sqrt s.1 s.2)) 0

/-- A stratum that `permutation_test` has checked. -/
structure Stratum (K : Type) where
  x : Sample K
  y : Sample K
  cols : x.cols = y.cols
  xRows : 2 ≤ x.rows.length
  yRows : 2 ≤ y.rows.length

namespace Stratum

def samples (s : Stratum K) : Sample K × Sample K := (s.x, s.y)

/-- The rows of both samples. -/
def pooled (s : Stratum K) : List (List K) := s.x.rows ++ s.y.rows

end Stratum

def checkStratum (s : Sample K × Sample K) : Except PyError (Stratum K) :=
  if hc : s.1.cols = s.2.cols then
    if hr : 2 ≤ s.1.rows.length ∧ 2 ≤ s.2.rows.length then .ok ⟨s.1, s.2, hc, hr.1, hr.2⟩
    else .error .valueError
  else .error .valueError

/-- What `permuted` and `permutation` promise: for each draw an order of the indices. -/
structure Generator where
  permuted : (stratum draw m : ℕ) → List ℕ
  isPerm : ∀ stratum draw m, (permuted stratum draw m).Perm (List.range m)

/-- One row of `_random_label_matrix`. -/
def labelRow (perm : List ℕ) (m nB : ℕ) : List Bool :=
  (List.range m).map fun i => i ∈ perm.take nB

/-- The label matrices of the draws from the given one on. -/
def labelMatrices (rng : Generator) (strata : List (Stratum K)) (start k : ℕ) :
    List (List (List Bool)) :=
  strata.mapIdx fun j s => (List.range k).map fun r =>
    labelRow (rng.permuted j (start + r) s.pooled.length) s.pooled.length s.x.rows.length

def indicator (labels : List Bool) : List K := labels.map fun b => if b then 1 else 0

/-- The statistic of one row of labels. -/
def rowEnergy (D : List (List K)) (nB nC : ℕ) (labels : List Bool) : K :=
  let P : List K := indicator labels
  let Q := P.map fun p => 1 - p
  2 * quadForm P D Q / ((nB * nC : ℕ) : K) - quadForm P D P / ((nB * (nB - 1) : ℕ) : K)
    - quadForm Q D Q / ((nC * (nC - 1) : ℕ) : K)

/-- The statistics so far, with those of one stratum added. -/
def addStratum (T : List K) (stratum : List (List K) × List (List Bool)) :
    Except PyError (List K) :=
  let (D, P) := stratum
  match P with
  | [] => .error .lookupError
  | first :: _ =>
    let nB := first.count true
    if nB < 2 ∨ D.length < nB + 2 then .error .valueError
    else .ok (T.zipWith (· + ·) (P.map (rowEnergy D nB (D.length - nB))))

def batchStatistics (Ds : List (List (List K))) (labels : List (List (List Bool))) :
    Except PyError (List K) :=
  match Ds, labels with
  | [], _ | _, [] => .error .valueError
  | Ds, first :: rest =>
    (Ds.zip (first :: rest)).foldlM addStratum (List.replicate first.length 0)

/-- `(exceed + 1) / (permutations + 1)`, rounded as Python divides integers. -/
def pValue (exceed permutations : ℕ) : ℚ :=
  Rounding.binary64 ((exceed + 1 : ℕ) / (permutations + 1 : ℕ))

/-- Whether the p-value that is reached by now is above alpha for good. -/
def stops (alpha : Option PyFloat) (exceed permutations : ℕ) : Bool :=
  match alpha with
  | none => false
  | some alpha => alpha.lt (.fin (pValue exceed permutations))

/-- How far a test has come. -/
structure Progress where
  evaluated : ℕ
  exceed : ℕ
  stoppedEarly : Bool
  deriving DecidableEq

/-- The batches of a test, each given its first draw and its size. -/
def permuteFrom {V : Type} (batch : ℕ → ℕ → Except PyError (List V)) (meets : V → Bool)
    (alpha : Option PyFloat) (permutations : ℕ) {batchSize : ℕ} (hb : 0 < batchSize)
    (evaluated exceed : ℕ) : Except PyError Progress :=
  if evaluated < permutations then do
    let k := min batchSize (permutations - evaluated)
    let T ← batch evaluated k
    let exceed := exceed + T.countP meets
    if stops alpha exceed permutations then return ⟨evaluated + k, exceed, true⟩
    else permuteFrom batch meets alpha permutations hb (evaluated + k) exceed
  else return ⟨evaluated, exceed, false⟩
termination_by permutations - evaluated
decreasing_by omega

structure PermutationResult (K : Type) where
  pValue : ℚ
  statistic : K
  permutations : ℕ
  exceed : ℕ
  planned : ℕ
  stoppedEarly : Bool

/-- Permuted statistics this far below the observed one still meet it. -/
def threshold (observed : K) : K := observed - 10 ^ (-12 : ℤ) * max 1 |observed|

def permutationTest (strata : List (Sample K × Sample K)) (permutations : ℤ) (rng : Generator)
    (alpha : Option PyFloat) (batchSize : ℤ) : Except PyError (PermutationResult K) :=
  if permutations < 1 then .error .valueError
  else if hb : batchSize < 1 then .error .valueError
  else if strata.isEmpty then .error .valueError
  else do
    let strata ← strata.mapM checkStratum
    let Ds := strata.map fun s => pairwiseDistanceMatrix sqrt s.pooled
    let observed ← stratifiedEnergy sqrt (strata.map Stratum.samples)
    let B := permutations.toNat
    let hb : 0 < batchSize.toNat := by omega
    let progress ← permuteFrom (fun start k =>
      batchStatistics Ds (labelMatrices rng strata start k)) (fun T => threshold observed ≤
        T) alpha B hb 0 0
    return ⟨pValue progress.exceed B, observed, progress.evaluated, progress.exceed, B,
      progress.stoppedEarly⟩

end Kaine.IndividuationStats
