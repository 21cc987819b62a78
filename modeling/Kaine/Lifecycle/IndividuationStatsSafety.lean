import Kaine.Lifecycle.IndividuationStats

/-! The permutation test: stopping early keeps its decision, and a batch computes the statistics of
the relabelled rows. -/
namespace Kaine.IndividuationStats
open Py PairSum

/-! ### Stopping early -/

/-- What a caller decides by. -/
def reports (alpha : PyFloat) (p : ℚ) : Bool := (PyFloat.fin p).le alpha

theorem pValue_mono {e e' : ℕ} (h : e ≤ e') (B : ℕ) : pValue e B ≤ pValue e' B := by
  apply Rounding.nearest_binary64.mono
  have hle : ((e + 1 : ℕ) : ℚ) ≤ (e' + 1 : ℕ) := by exact_mod_cast Nat.succ_le_succ h
  exact div_le_div_of_nonneg_right hle (Nat.cast_nonneg _)

/-- Once a test stops, no larger count of exceedances is significant. -/
theorem reports_of_stops {alpha : PyFloat} {e e' B : ℕ} (hstops : stops (some alpha) e B = true)
    (h : e ≤ e') : reports alpha (pValue e' B) = false := by
  have hp := pValue_mono h B
  cases alpha with
  | nan | negInf => rfl
  | posInf => cases hstops
  | fin q =>
    have hlt : q < pValue e B := by simpa [stops, PyFloat.lt] using hstops
    simpa [reports, PyFloat.le] using hlt.trans_le hp

section
variable {V : Type} {batch : ℕ → ℕ → Except PyError (List V)} {B batchSize : ℕ} {stat : ℕ → V}

/-- How many of the statistics from one index up to another meet the observed one. -/
def exceedances (meets : V → Bool) (stat : ℕ → V) (start stop : ℕ) : ℕ :=
  ((List.range' start (stop - start)).map stat).countP meets

theorem exceedances_append (meets : V → Bool) (stat : ℕ → V) {start k stop : ℕ}
    (h : start + k ≤ stop) :
    ((List.range' start k).map stat).countP meets + exceedances meets stat (start + k) stop =
      exceedances meets stat start stop := by
  have hsplit : stop - start = k + (stop - (start + k)) := by omega
  rw [exceedances, exceedances, hsplit, ← List.range'_append_1, List.map_append, List.countP_append]

/-- A test over a fixed stream ends: at its end with every exceedance counted, or earlier where it
stops for good. -/
theorem permuteFrom_stream (meets : V → Bool) (alpha : Option PyFloat) (hb : 0 < batchSize)
    (hbatch : ∀ start k, 0 < k → batch start k = .ok ((List.range' start k).map stat))
    (evaluated exceed : ℕ) (hle : evaluated ≤ B) :
    ∃ progress, permuteFrom batch meets alpha B hb evaluated exceed = .ok progress ∧
      progress.evaluated ≤ B ∧
      progress.exceed ≤ exceed + exceedances meets stat evaluated B ∧
      if progress.stoppedEarly then stops alpha progress.exceed B = true
      else progress.evaluated = B ∧
        progress.exceed = exceed + exceedances meets stat evaluated B := by
  induction hn : B - evaluated using Nat.strong_induction_on generalizing evaluated exceed with
  | _ n ih =>
    rw [permuteFrom]
    by_cases hlt : evaluated < B
    · have hk : 0 < min batchSize (B - evaluated) := by omega
      have hnext : evaluated + min batchSize (B - evaluated) ≤ B := by omega
      have hcount := exceedances_append meets stat hnext
      rw [if_pos hlt]
      simp only [hbatch _ _ hk, bind, Except.bind]
      split
      · next hstops =>
        refine ⟨_, rfl, hnext, Nat.add_le_add_left ?_ exceed, hstops⟩
        rw [← hcount]
        exact Nat.le_add_right _ _
      · obtain ⟨progress, hrun, hend, hexceed, hdone⟩ :=
          ih (B - (evaluated + min batchSize (B - evaluated))) (by omega) _
            (exceed + ((List.range' evaluated (min batchSize (B - evaluated))).map stat).countP
              meets) hnext rfl
        rw [Nat.add_assoc, hcount] at hexceed hdone
        exact ⟨progress, hrun, hend, hexceed, hdone⟩
    · obtain rfl : evaluated = B := by omega
      rw [if_neg hlt]
      refine ⟨_, rfl, le_rfl, Nat.le_add_right _ _, ?_⟩
      simp [exceedances]

/-- Whatever the stream of statistics, a test that may stop early decides as the full count does. -/
theorem permuteFrom_decides (meets : V → Bool) (alpha : PyFloat) (hb : 0 < batchSize)
    (hbatch : ∀ start k, 0 < k → batch start k = .ok ((List.range' start k).map stat)) :
    ∃ progress, permuteFrom batch meets (some alpha) B hb 0 0 = .ok progress ∧
      reports alpha (pValue progress.exceed B) =
        reports alpha (pValue (exceedances meets stat 0 B) B) := by
  obtain ⟨progress, hrun, -, hexceed, hdone⟩ :=
    permuteFrom_stream meets (some alpha) hb hbatch 0 0 (Nat.zero_le B)
  rw [Nat.zero_add] at hexceed hdone
  refine ⟨progress, hrun, ?_⟩
  cases hstopped : progress.stoppedEarly with
  | true =>
    rw [hstopped, if_pos rfl] at hdone
    rw [reports_of_stops hdone le_rfl, reports_of_stops hdone hexceed]
  | false =>
    rw [hstopped, if_neg (by simp)] at hdone
    rw [hdone.2]

/-- A test that never stops counts every exceedance. -/
theorem permuteFrom_full (meets : V → Bool) (hb : 0 < batchSize)
    (hbatch : ∀ start k, 0 < k → batch start k = .ok ((List.range' start k).map stat)) :
    permuteFrom batch meets none B hb 0 0 = .ok ⟨B, exceedances meets stat 0 B, false⟩ := by
  obtain ⟨progress, hrun, -, -, hdone⟩ :=
    permuteFrom_stream meets none hb hbatch 0 0 (Nat.zero_le B)
  cases hstopped : progress.stoppedEarly with
  | true =>
    rw [hstopped, if_pos rfl] at hdone
    cases hdone
  | false =>
    rw [hstopped, if_neg (by simp), Nat.zero_add] at hdone
    rw [hrun, ← hdone.2, ← hstopped]
    obtain ⟨hev, -⟩ := hdone
    rw [← hev]

end

/-! ### Relabelling -/

namespace Stratum
variable {K : Type} {s : Stratum K} {perm : List ℕ}

/-- The row of an index, among those of both samples. -/
def row (s : Stratum K) (i : ℕ) : List K := s.pooled.getD i []

theorem pooled_eq (s : Stratum K) : s.pooled = (List.range s.pooled.length).map s.row := by
  apply List.ext_getElem
  · simp
  · intro i hi _
    simp [row, hi]

theorem row_length {i : ℕ} (hi : i < s.pooled.length) : (s.row i).length = s.x.cols := by
  have hmem : s.row i ∈ s.x.rows ++ s.y.rows := by
    rw [row, List.getD_eq_getElem?_getD, List.getElem?_eq_getElem hi]
    exact List.getElem_mem hi
  rcases List.mem_append.mp hmem with hx | hy
  · exact s.x.widths _ hx
  · exact (s.y.widths _ hy).trans s.cols.symm

/-- The sample of the rows at some indices. -/
def select (s : Stratum K) (indices : List ℕ) (h : ∀ i ∈ indices, i < s.pooled.length) :
    Sample K where
  cols := s.x.cols
  rows := indices.map s.row
  widths := by
    intro row hrow
    obtain ⟨i, hi, rfl⟩ := List.mem_map.mp hrow
    exact row_length (h i hi)

theorem lt_of_mem_perm (hperm : perm.Perm (List.range s.pooled.length)) {i : ℕ} (hi : i ∈ perm) :
    i < s.pooled.length :=
  List.mem_range.mp (hperm.mem_iff.mp hi)

/-- The stratum with its rows relabelled: the first of an order go to the reference sample. -/
def relabel (s : Stratum K) (perm : List ℕ) (hperm : perm.Perm (List.range s.pooled.length)) :
    Stratum K where
  x := s.select (perm.take s.x.rows.length) fun _ hi =>
    lt_of_mem_perm hperm (List.mem_of_mem_take hi)
  y := s.select (perm.drop s.x.rows.length) fun _ hi =>
    lt_of_mem_perm hperm (List.mem_of_mem_drop hi)
  cols := rfl
  xRows := by
    have hlength := hperm.length_eq
    have hx := s.xRows
    simp only [select, List.length_map, List.length_take, hlength, List.length_range, pooled,
      List.length_append]
    omega
  yRows := by
    have hlength := hperm.length_eq
    have hy := s.yRows
    simp only [select, List.length_map, List.length_drop, hlength, List.length_range, pooled,
      List.length_append]
    omega

end Stratum

/-- The strata with the rows of each relabelled by one draw. -/
def relabelled {K : Type} (rng : Generator) (strata : List (Stratum K)) (draw : ℕ) :
    List (Stratum K) :=
  strata.mapIdx fun j s => s.relabel _ (rng.isPerm j draw s.pooled.length)

/-! ### The statistics of a batch -/

variable {K : Type} [Field K] [LinearOrder K] {sqrt : K → K} {s : Stratum K} {perm : List ℕ}

omit [LinearOrder K] in
theorem dot_expand : ∀ {u v : List K}, u.length = v.length →
    dot u u + dot v v - 2 * dot u v = (u.zipWith (fun a b => (a - b) ^ 2) v).sum
  | [], [], _ => by simp [dot]
  | a :: u, b :: v, h => by
    have ih := dot_expand (u := u) (v := v) (Nat.succ.inj h)
    simp only [dot] at ih ⊢
    simp only [List.zipWith_cons_cons, List.sum_cons, ← ih]
    ring

/-- The expanded form is the Euclidean distance; what it cuts off at zero is never negative. -/
theorem distance_eq [IsStrictOrderedRing K] (sqrt : K → K) {u v : List K}
    (h : u.length = v.length) :
    distance sqrt u v = sqrt (u.zipWith (fun a b => (a - b) ^ 2) v).sum := by
  have hnonneg : 0 ≤ (u.zipWith (fun a b => (a - b) ^ 2) v).sum := by
    apply List.sum_nonneg
    intro x hx
    rw [← List.map_uncurry_zip_eq_zipWith] at hx
    obtain ⟨pair, -, rfl⟩ := List.mem_map.mp hx
    exact sq_nonneg _
  rw [distance, dot_expand h, max_eq_left hnonneg]

theorem energyU_stratum (s : Stratum K) :
    energyU sqrt s.x s.y = .ok (energy (distance sqrt) s.x.rows s.y.rows) := by
  have hx := s.xRows
  have hy := s.yRows
  rw [energyU, if_neg (not_not_intro s.cols), if_neg (by omega)]
  simp only [pairwiseMeanDistance, withinMeanDistance, pairwiseDistanceMatrix, List.map_map,
    Function.comp_def, energy, pairSum, mul_div_assoc]

/-- The sum over strata, each with the statistic of its two samples. -/
theorem stratifiedEnergy_eq (sqrt : K → K) (strata : List (Stratum K)) :
    stratifiedEnergy sqrt (strata.map Stratum.samples) =
      .ok (strata.foldl (fun total s => total + energy (distance sqrt) s.x.rows s.y.rows) 0) := by
  unfold stratifiedEnergy
  generalize (0 : K) = total
  induction strata generalizing total with
  | nil => rfl
  | cons s strata ih =>
    rw [List.map_cons, List.foldlM_cons, List.foldl_cons]
    simp only [Stratum.samples, energyU_stratum, bind, Except.bind, pure, Except.pure]
    exact ih _

section
variable (hperm : perm.Perm (List.range s.pooled.length))

include hperm

omit [Field K] [LinearOrder K] in
theorem length_take : (perm.take s.x.rows.length).length = s.x.rows.length := by
  simp only [List.length_take, hperm.length_eq, List.length_range, Stratum.pooled,
    List.length_append]
  omega

omit [Field K] [LinearOrder K] in
theorem length_drop :
    (perm.drop s.x.rows.length).length = s.pooled.length - s.x.rows.length := by
  simp only [List.length_drop, hperm.length_eq, List.length_range]

omit [Field K] [LinearOrder K] in
/-- An order splits the indices between the two samples. -/
theorem mem_drop_iff {i : ℕ} (hi : i < s.pooled.length) :
    i ∈ perm.drop s.x.rows.length ↔ i ∉ perm.take s.x.rows.length := by
  have hnodup : perm.Nodup := hperm.nodup_iff.mpr List.nodup_range
  have hmem : i ∈ perm := hperm.mem_iff.mpr (List.mem_range.mpr hi)
  rw [← List.take_append_drop s.x.rows.length perm] at hnodup hmem
  constructor
  · intro hdrop htake
    exact List.disjoint_of_nodup_append hnodup htake hdrop
  · intro htake
    exact (List.mem_append.mp hmem).resolve_left htake

omit [Field K] [LinearOrder K] in
theorem count_labelRow : (labelRow perm s.pooled.length s.x.rows.length).count true =
    s.x.rows.length := by
  have hnodup : perm.Nodup := hperm.nodup_iff.mpr List.nodup_range
  have hsame : ((List.range s.pooled.length).filter fun i => i ∈ perm.take s.x.rows.length).Perm
      (perm.take s.x.rows.length) := by
    rw [List.perm_ext_iff_of_nodup (List.nodup_range.filter _)
      (hnodup.sublist (List.take_sublist _ _))]
    intro i
    rw [List.mem_filter, List.mem_range, decide_eq_true_iff]
    exact ⟨And.right, fun hi => ⟨Stratum.lt_of_mem_perm hperm (List.mem_of_mem_take hi), hi⟩⟩
  calc (labelRow perm s.pooled.length s.x.rows.length).count true
      = ((List.range s.pooled.length).filter fun i => i ∈ perm.take s.x.rows.length).length := by
        rw [labelRow, List.count, List.countP_map, List.countP_eq_length_filter]
        congr 2
        funext i
        simp
    _ = (perm.take s.x.rows.length).length := hsame.length_eq
    _ = s.x.rows.length := length_take hperm

/-- The statistic of a row of labels is that of the relabelled samples. -/
theorem rowEnergy_labelRow (sqrt : K → K) :
    rowEnergy (pairwiseDistanceMatrix sqrt s.pooled) s.x.rows.length
      (s.pooled.length - s.x.rows.length) (labelRow perm s.pooled.length s.x.rows.length) =
    energy (distance sqrt) (s.relabel perm hperm).x.rows (s.relabel perm hperm).y.rows := by
  have hnodup : perm.Nodup := hperm.nodup_iff.mpr List.nodup_range
  have hD : pairwiseDistanceMatrix sqrt s.pooled = (List.range s.pooled.length).map fun i =>
      (List.range s.pooled.length).map fun j => distance sqrt (s.row i) (s.row j) := by
    calc pairwiseDistanceMatrix sqrt s.pooled
        = pairwiseDistanceMatrix sqrt ((List.range s.pooled.length).map s.row) := by
          rw [← s.pooled_eq]
      _ = _ := by simp only [pairwiseDistanceMatrix, List.map_map, Function.comp_def]
  have hP : (indicator (labelRow perm s.pooled.length s.x.rows.length) : List K) =
      (List.range s.pooled.length).map fun i => if i ∈ perm.take s.x.rows.length then 1 else 0 := by
    simp only [indicator, labelRow, List.map_map, Function.comp_def, decide_eq_true_iff]
  have hQ : ((List.range s.pooled.length).map fun i =>
        if i ∈ perm.take s.x.rows.length then (1 : K) else 0).map (fun p => 1 - p) =
      (List.range s.pooled.length).map fun i => if i ∈ perm.drop s.x.rows.length then 1 else 0 := by
    rw [List.map_map]
    apply List.map_congr_left
    intro i hi
    have hsplit := mem_drop_iff hperm (List.mem_range.mp hi)
    by_cases htake : i ∈ perm.take s.x.rows.length <;> simp [hsplit, htake]
  have htake : (perm.take s.x.rows.length).Nodup := hnodup.sublist (List.take_sublist _ _)
  have hdrop : (perm.drop s.x.rows.length).Nodup := hnodup.sublist (List.drop_sublist _ _)
  have hlt : ∀ i ∈ perm.take s.x.rows.length, i < s.pooled.length := fun _ hi =>
    Stratum.lt_of_mem_perm hperm (List.mem_of_mem_take hi)
  have hlt' : ∀ i ∈ perm.drop s.x.rows.length, i < s.pooled.length := fun _ hi =>
    Stratum.lt_of_mem_perm hperm (List.mem_of_mem_drop hi)
  simp only [rowEnergy, hD, hP, hQ, energy, Stratum.relabel, Stratum.select, pairSum_map,
    List.length_map, length_take hperm, length_drop hperm]
  rw [quadForm_indicator htake hlt hdrop hlt', quadForm_indicator htake hlt htake hlt,
    quadForm_indicator hdrop hlt' hdrop hlt']

end

/-- The statistic of a stratum under one draw. -/
def drawnEnergy (sqrt : K → K) (rng : Generator) (s : Stratum K) (j draw : ℕ) : K :=
  let drawn := s.relabel _ (rng.isPerm j draw s.pooled.length)
  energy (distance sqrt) drawn.x.rows drawn.y.rows

/-- The label matrix of one stratum. -/
def stratumLabels (rng : Generator) (s : Stratum K) (j start k : ℕ) : List (List Bool) :=
  (List.range k).map fun r =>
    labelRow (rng.permuted j (start + r) s.pooled.length) s.pooled.length s.x.rows.length

/-- What one stratum adds to the statistics of a batch. -/
theorem addStratum_labels (sqrt : K → K) (s : Stratum K) (rng : Generator) (j start : ℕ) {k : ℕ}
    (f : ℕ → K) (hk : 0 < k) :
    addStratum ((List.range k).map f)
      (pairwiseDistanceMatrix sqrt s.pooled, stratumLabels rng s j start k) =
    .ok ((List.range k).map fun r => f r + drawnEnergy sqrt rng s j (start + r)) := by
  obtain ⟨k, rfl⟩ : ∃ k', k = k' + 1 := ⟨k - 1, by omega⟩
  obtain ⟨rest, hP⟩ : ∃ rest, stratumLabels rng s j start (k + 1) =
      labelRow (rng.permuted j (start + 0) s.pooled.length) s.pooled.length s.x.rows.length ::
        rest := by
    exact ⟨_, by rw [stratumLabels, List.range_succ_eq_map, List.map_cons]⟩
  have hcount := count_labelRow (rng.isPerm j (start + 0) s.pooled.length)
  have hlength : (pairwiseDistanceMatrix sqrt s.pooled).length = s.pooled.length :=
    List.length_map _
  have hvalid : ¬ (s.x.rows.length < 2 ∨ s.pooled.length < s.x.rows.length + 2) := by
    have hx := s.xRows
    have hy := s.yRows
    simp only [Stratum.pooled, List.length_append]
    omega
  simp only [hP, addStratum, hcount, hlength]
  rw [if_neg hvalid, ← hP, stratumLabels, List.map_map, List.zipWith_map, List.zipWith_self]
  congr 2
  funext r
  exact congrArg (f r + ·) (rowEnergy_labelRow _ sqrt)

/-- The strata of a batch one after the other. -/
theorem foldlM_addStratum (sqrt : K → K) (rng : Generator) (start : ℕ) {k : ℕ} (hk : 0 < k)
    (items : List (Stratum K × ℕ)) (f : ℕ → K) :
    (items.map fun it => (pairwiseDistanceMatrix sqrt it.1.pooled,
        stratumLabels rng it.1 it.2 start k)).foldlM addStratum ((List.range k).map f) =
    .ok ((List.range k).map fun r =>
      items.foldl (fun total it => total + drawnEnergy sqrt rng it.1 it.2 (start + r)) (f r)) := by
  induction items generalizing f with
  | nil => rfl
  | cons it items ih =>
    rw [List.map_cons, List.foldlM_cons, addStratum_labels sqrt it.1 rng it.2 start f hk]
    exact ih _

/-- The statistic of all strata under one draw. -/
def drawnStatistic (sqrt : K → K) (rng : Generator) (strata : List (Stratum K)) (draw : ℕ) : K :=
  strata.zipIdx.foldl (fun total it => total + drawnEnergy sqrt rng it.1 it.2 draw) 0

theorem stratifiedEnergy_relabelled (sqrt : K → K) (rng : Generator) (strata : List (Stratum K))
    (draw : ℕ) : stratifiedEnergy sqrt ((relabelled rng strata draw).map Stratum.samples) =
      .ok (drawnStatistic sqrt rng strata draw) := by
  rw [stratifiedEnergy_eq, relabelled, List.mapIdx_eq_zipIdx_map, List.foldl_map]
  rfl

theorem batchStatistics_ok (sqrt : K → K) (rng : Generator) {strata : List (Stratum K)}
    (hne : strata ≠ []) (start : ℕ) {k : ℕ} (hk : 0 < k) :
    batchStatistics (strata.map fun s => pairwiseDistanceMatrix sqrt s.pooled)
        (labelMatrices rng strata start k) =
      .ok ((List.range' start k).map (drawnStatistic sqrt rng strata)) := by
  have hlabels : labelMatrices rng strata start k =
      strata.zipIdx.map fun it => stratumLabels rng it.1 it.2 start k := by
    rw [labelMatrices, List.mapIdx_eq_zipIdx_map]
    rfl
  have hDs : (strata.map fun s => pairwiseDistanceMatrix sqrt s.pooled) =
      strata.zipIdx.map fun it => pairwiseDistanceMatrix sqrt it.1.pooled := by
    calc (strata.map fun s => pairwiseDistanceMatrix sqrt s.pooled)
        = ((strata.zipIdx.map Prod.fst).map fun s => pairwiseDistanceMatrix sqrt s.pooled) := by
          rw [List.zipIdx_map_fst]
      _ = _ := by rw [List.map_map]; rfl
  rw [hlabels, hDs]
  obtain ⟨it, items, hitems⟩ : ∃ it items, strata.zipIdx = it :: items := by
    apply List.exists_cons_of_ne_nil
    simpa [List.zipIdx_eq_nil_iff] using hne
  have hstart : (stratumLabels rng it.1 it.2 start k).length = k := by simp [stratumLabels]
  have hzero : List.replicate k (0 : K) = (List.range k).map fun _ => 0 := by simp
  have hfold := foldlM_addStratum sqrt rng start hk (it :: items) fun _ => 0
  have hcons : ∀ (D : List (List K)) Ds P Ps, batchStatistics (D :: Ds) (P :: Ps) =
      ((D :: Ds).zip (P :: Ps)).foldlM addStratum (List.replicate P.length 0) := fun _ _ _ _ => rfl
  rw [hitems, List.map_cons, List.map_cons, hcons, List.zip_cons_cons, List.zip_map', hstart, hzero]
  refine hfold.trans ?_
  rw [List.range'_eq_map_range, List.map_map]
  simp only [drawnStatistic, hitems, Function.comp_def]

/-- A batch computes what the relabelled strata have, draw for draw. -/
theorem batchStatistics_eq (sqrt : K → K) (rng : Generator) {strata : List (Stratum K)}
    (hne : strata ≠ []) (start : ℕ) {k : ℕ} (hk : 0 < k) :
    batchStatistics (strata.map fun s => pairwiseDistanceMatrix sqrt s.pooled)
        (labelMatrices rng strata start k) =
      (List.range' start k).mapM fun draw =>
        stratifiedEnergy sqrt ((relabelled rng strata draw).map Stratum.samples) := by
  rw [batchStatistics_ok sqrt rng hne start hk]
  simp only [stratifiedEnergy_relabelled]
  exact (List.mapM_pure (m := Except PyError)).symm

omit [Field K] [LinearOrder K] in
theorem checked_ne_nil {strata : List (Sample K × Sample K)} {checked : List (Stratum K)}
    (hne : ¬ strata.isEmpty = true) (h : strata.mapM checkStratum = .ok checked) :
    checked ≠ [] := by
  cases strata with
  | nil => exact absurd rfl hne
  | cons pair strata =>
    rw [List.mapM_cons, bind_eq_ok] at h
    obtain ⟨s, -, h⟩ := h
    obtain ⟨rest, -, h⟩ := bind_eq_ok.mp h
    obtain rfl : s :: rest = checked := Except.ok.inj h
    exact List.cons_ne_nil _ _

/-- The whole test, over any strata that it accepts or refuses. -/
theorem permutationTest_decides (sqrt : K → K) (strata : List (Sample K × Sample K))
    (permutations : ℤ) (rng : Generator) (alpha : PyFloat) (batchSize : ℤ) :
    (permutationTest sqrt strata permutations rng (some alpha) batchSize).map
        (fun r => reports alpha r.pValue) =
      (permutationTest sqrt strata permutations rng none batchSize).map
        (fun r => reports alpha r.pValue) := by
  unfold permutationTest
  by_cases hp : permutations < 1
  · simp only [if_pos hp]
  · by_cases hb : batchSize < 1
    · simp only [if_neg hp, dif_pos hb]
    · by_cases hs : strata.isEmpty = true
      · simp only [if_neg hp, dif_neg hb, if_pos hs]
      · simp only [if_neg hp, dif_neg hb, if_neg hs]
        cases hcheck : strata.mapM checkStratum with
        | error e => rfl
        | ok checked =>
          have hne := checked_ne_nil hs hcheck
          have hbatch := fun start k (hk : 0 < k) => batchStatistics_ok sqrt rng hne start hk
          have hpositive : 0 < batchSize.toNat := by omega
          have hobserved := stratifiedEnergy_eq sqrt checked
          generalize checked.foldl _ (0 : K) = observed at hobserved
          obtain ⟨early, hearly, hsame⟩ := permuteFrom_decides
            (fun T : K => decide (threshold observed ≤ T)) alpha hpositive hbatch
            (B := permutations.toNat)
          have hfull := permuteFrom_full (fun T : K => decide (threshold observed ≤ T)) hpositive
            hbatch (B := permutations.toNat)
          simp only [bind, Except.bind, hobserved, hearly, hfull, pure, Except.pure, Except.map]
          exact congrArg _ hsame

/-- Every run of the test over a fixed stream of statistics returns, and decides as the full run
does, whatever the observed statistic, alpha and the sizes; so does the whole test; and each batch
of it holds the energy statistics of the strata with their rows relabelled. -/
theorem early_stop_keeps_decision (sqrt : K → K) (rng : Generator) :
    (∀ {V : Type} (stat : ℕ → V) (meets : V → Bool) (alpha : PyFloat) (B : ℕ) {batchSize : ℕ}
      (hb : 0 < batchSize), ∃ early full,
        permuteFrom (fun start k => .ok ((List.range' start k).map stat)) meets
          (some alpha) B hb 0 0 = .ok early ∧
        permuteFrom (fun start k => .ok ((List.range' start k).map stat)) meets none B hb 0 0 =
          .ok full ∧
        full.evaluated = B ∧ full.exceed = ((List.range B).map stat).countP meets ∧
        reports alpha (pValue early.exceed B) = reports alpha (pValue full.exceed B)) ∧
    (∀ strata permutations alpha batchSize,
      (permutationTest sqrt strata permutations rng (some alpha) batchSize).map
          (fun r => reports alpha r.pValue) =
        (permutationTest sqrt strata permutations rng none batchSize).map
          (fun r => reports alpha r.pValue)) ∧
    ∀ strata start k, strata ≠ [] → 0 < k →
      batchStatistics (strata.map fun s => pairwiseDistanceMatrix sqrt s.pooled)
          (labelMatrices rng strata start k) =
        (List.range' start k).mapM fun draw =>
          stratifiedEnergy sqrt ((relabelled rng strata draw).map Stratum.samples) := by
  refine ⟨?_, ?_, ?_⟩
  · intro V stat meets alpha B batchSize hb
    have hbatch : ∀ start k, 0 < k →
        (fun start k => Except.ok ((List.range' start k).map stat) : ℕ → ℕ →
          Except PyError (List V)) start k = .ok ((List.range' start k).map stat) :=
      fun _ _ _ => rfl
    obtain ⟨early, hearly, hsame⟩ := permuteFrom_decides meets alpha hb hbatch
    refine ⟨early, _, hearly, permuteFrom_full meets hb hbatch, rfl, ?_, hsame⟩
    rw [List.range_eq_range']
    rfl
  · intro strata permutations alpha batchSize
    exact permutationTest_decides sqrt strata permutations rng alpha batchSize
  · intro strata start k hne hk
    exact batchStatistics_eq sqrt rng hne start hk

section
/-- Two samples of two rows, a unit apart, over the rationals; the distances are 0 and 1. -/
def unitSample : Sample ℚ := ⟨1, [[0], [1]], by decide⟩

def unitStratum : Stratum ℚ := ⟨unitSample, unitSample, rfl, le_rfl, le_rfl⟩

def unitRoot (q : ℚ) : ℚ := if q = 1 then 1 else 0

/-- A generator whose every order is the reverse. -/
def reversing : Generator := ⟨fun _ _ m => (List.range m).reverse, fun _ _ _ => List.reverse_perm _⟩

theorem early_stop_keeps_decision_unit :
    batchStatistics [pairwiseDistanceMatrix unitRoot unitStratum.pooled]
        (labelMatrices reversing [unitStratum] 0 2) =
      (List.range' 0 2).mapM fun draw =>
        stratifiedEnergy unitRoot ((relabelled reversing [unitStratum] draw).map Stratum.samples) :=
  (early_stop_keeps_decision unitRoot reversing).2.2 [unitStratum] 0 2 (by simp) (by decide)

end

end Kaine.IndividuationStats
