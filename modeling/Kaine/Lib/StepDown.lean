import Mathlib.Algebra.Order.Field.Basic
import Mathlib.Data.Finset.Max
import Mathlib.Tactic.Ring

/-! Step-down thresholds on a family of values, and the adjusted values that decide the same. -/
namespace StepDown

section AtLeast

variable {K : Type*} [LinearOrder K] {values sorted : List K} {v w c start : K} {rank : ℕ}

/-- How many of the values are at least so large. -/
def atLeast (values : List K) (w : K) : ℕ := values.countP fun v => w ≤ v

theorem atLeast_perm {shuffled : List K} (h : shuffled.Perm values) (w : K) :
    atLeast shuffled w = atLeast values w :=
  h.countP_eq _

theorem atLeast_eq_length (h : ∀ v ∈ values, w ≤ v) : atLeast values w = values.length :=
  List.countP_eq_length.mpr fun v hv => decide_eq_true (h v hv)

/-- In ascending order the values from a place on are as large as the one there. -/
theorem length_sub_le_atLeast (hsorted : sorted.Pairwise (· ≤ ·)) (h : rank < sorted.length) :
    sorted.length - rank ≤ atLeast sorted sorted[rank] := by
  have hrest : atLeast (sorted.drop rank) sorted[rank] = (sorted.drop rank).length := by
    refine atLeast_eq_length fun v hv => ?_
    rw [List.drop_eq_getElem_cons h] at hv
    have hpairs : (sorted.drop rank).Pairwise (· ≤ ·) :=
      hsorted.sublist (List.drop_sublist rank sorted)
    rw [List.drop_eq_getElem_cons h] at hpairs
    rcases List.mem_cons.mp hv with rfl | hv
    · exact le_refl _
    · exact (List.pairwise_cons.mp hpairs).1 v hv
  rw [List.length_drop] at hrest
  rw [← hrest]
  exact List.Sublist.countP_le (List.drop_sublist rank sorted)

/-- Up to a place there is the first that is as large as a bound. -/
theorem exists_first (hsorted : sorted.Pairwise (· ≤ ·)) (h : rank < sorted.length)
    (hw : w ≤ sorted[rank]) :
    ∃ first, ∃ hlt : first < sorted.length, first ≤ rank ∧ w ≤ sorted[first] ∧
      atLeast sorted w = sorted.length - first := by
  induction sorted generalizing rank with
  | nil => exact absurd h (Nat.not_lt_zero rank)
  | cons v rest ih =>
    obtain ⟨hhead, hrest⟩ := List.pairwise_cons.mp hsorted
    by_cases hv : w ≤ v
    · refine ⟨0, Nat.succ_pos _, Nat.zero_le _, hv, atLeast_eq_length fun u hu => ?_⟩
      rcases List.mem_cons.mp hu with rfl | hu
      · exact hv
      · exact hv.trans (hhead u hu)
    · cases rank with
      | zero => exact absurd hw hv
      | succ rank =>
        obtain ⟨first, hlt, hle, hfirst, hcount⟩ := ih hrest (Nat.lt_of_succ_lt_succ h) hw
        refine ⟨first + 1, Nat.succ_lt_succ hlt, Nat.succ_le_succ hle, hfirst, ?_⟩
        rw [List.length_cons, Nat.add_sub_add_right, ← hcount]
        exact List.countP_cons_of_neg (by simpa using hv)

/-- Below a value of the list there is one that as many are as large as. -/
theorem exists_least (hv : v ∈ values) (hw : w ≤ v) :
    ∃ u ∈ values, w ≤ u ∧ u ≤ v ∧ atLeast values w = atLeast values u := by
  have hmem : v ∈ values.toFinset.filter (fun u => w ≤ u) :=
      Finset.mem_filter.mpr ⟨List.mem_toFinset.mpr hv, hw⟩
  obtain ⟨u, hu, hleast⟩ := Finset.exists_min_image _ id ⟨v, hmem⟩
  obtain ⟨hu, hwu⟩ := Finset.mem_filter.mp hu
  refine ⟨u, List.mem_toFinset.mp hu, hwu, hleast v hmem, List.countP_congr fun x hx => ?_⟩
  rw [decide_eq_true_eq, decide_eq_true_eq]
  exact ⟨fun h => hleast x (Finset.mem_filter.mpr ⟨List.mem_toFinset.mpr hx, h⟩),
    fun h => hwu.trans h⟩

theorem foldr_max_le (l : List K) : l.foldr max start ≤ c ↔ start ≤ c ∧ ∀ x ∈ l, x ≤ c := by
  induction l with
  | nil => simp
  | cons x l ih =>
    rw [List.foldr_cons, max_le_iff, ih, List.forall_mem_cons]
    exact and_left_comm

end AtLeast

section Adjusted

variable {ι K : Type*} [Field K] [LinearOrder K]
variable {values sorted lowered : List K} {u v w c alpha : K} {p : ι → K} {asc : List ι}
  {m k rank : ℕ}

/-- A value weighted by the number that are as large. -/
def weighted (values : List K) (w : K) : K := min (atLeast values w * w) 1

/-- The largest weighted value up to the given one. -/
def adjusted (values : List K) (v : K) : K :=
  ((values.filter fun w => w ≤ v).map (weighted values)).foldr max 0

/-- Taking in ascending order, from the `k`-th of `m` on, until the first that is over its
threshold. -/
def stepDown (alpha : K) (p : ι → K) (m : ℕ) : ℕ → List ι → List ι
  | _, [] => []
  | k, i :: rest =>
    if p i ≤ alpha / ((m : K) - k + 1) then i :: stepDown alpha p m (k + 1) rest else []

theorem adjusted_le_iff (values : List K) (v c : K) :
    adjusted values v ≤ c ↔ 0 ≤ c ∧ ∀ w ∈ values, w ≤ v → weighted values w ≤ c := by
  rw [adjusted, foldr_max_le]
  simp only [List.forall_mem_map, List.mem_filter, decide_eq_true_eq, and_imp]

theorem adjusted_perm {shuffled : List K} (h : shuffled.Perm values) (v : K) :
    adjusted shuffled v = adjusted values v := by
  refine eq_of_forall_ge_iff fun c => ?_
  have hweighted : weighted shuffled = weighted values :=
      funext fun w => by rw [weighted, weighted, atLeast_perm h]
  rw [adjusted_le_iff, adjusted_le_iff, hweighted]
  exact and_congr_right fun _ => forall_congr' fun w => imp_congr_left h.mem_iff

/-- What is taken is what stands at a place up to which all are within their thresholds. -/
theorem mem_stepDown (hnodup : asc.Nodup) (h : rank < asc.length) :
    asc[rank] ∈ stepDown alpha p m k asc ↔
      ∀ r, ∀ hr : r < asc.length, r ≤ rank → p asc[r] ≤ alpha / ((m : K) - (k + r : ℕ) + 1) := by
  induction asc generalizing rank k with
  | nil => exact absurd h (Nat.not_lt_zero rank)
  | cons i rest ih =>
    obtain ⟨hnew, hrest⟩ := List.nodup_cons.mp hnodup
    rw [stepDown]
    by_cases hi : p i ≤ alpha / ((m : K) - k + 1)
    · rw [if_pos hi]
      cases rank with
      | zero =>
        refine ⟨fun _ r hr hle => ?_, fun _ => List.mem_cons_self⟩
        rw [Nat.le_zero] at hle
        subst hle
        exact hi
      | succ rank =>
        have hlt : rank < rest.length := Nat.lt_of_succ_lt_succ h
        have hne : rest[rank] ≠ i := fun he => hnew (he ▸ List.getElem_mem hlt)
        have htail : rest[rank] ∈ i :: stepDown alpha p m (k + 1) rest ↔
            rest[rank] ∈ stepDown alpha p m (k + 1) rest := by
          rw [List.mem_cons]
          exact or_iff_right hne
        rw [List.getElem_cons_succ, htail, ih hrest hlt]
        constructor
        · intro hplaces r hr hle
          cases r with
          | zero => exact hi
          | succ r =>
            have hplace := hplaces r (Nat.lt_of_succ_lt_succ hr) (Nat.le_of_succ_le_succ hle)
            rwa [Nat.add_right_comm, Nat.add_assoc] at hplace
        · intro hplaces r hr hle
          have hplace := hplaces (r + 1) (Nat.succ_lt_succ hr) (Nat.succ_le_succ hle)
          rwa [Nat.add_right_comm, Nat.add_assoc]
    · rw [if_neg hi]
      refine ⟨fun hmem => absurd hmem List.not_mem_nil, fun hplaces => ?_⟩
      exact absurd (hplaces 0 (Nat.succ_pos _) (Nat.zero_le rank)) hi

variable [IsStrictOrderedRing K]

/-- The values of the list bound as much as all values up to the given one. -/
theorem adjusted_le_iff_all (hv : v ∈ values) :
    adjusted values v ≤ c ↔ 0 ≤ c ∧ ∀ w ≤ v, weighted values w ≤ c := by
  rw [adjusted_le_iff]
  refine and_congr_right fun _ => ⟨fun h w hw => ?_, fun h w _ hw => h w hw⟩
  obtain ⟨u, hu, hwu, huv, hcount⟩ := exists_least hv hw
  rw [weighted, hcount]
  exact (min_le_min_right 1 (mul_le_mul_of_nonneg_left hwu (Nat.cast_nonneg _))).trans (h u hu huv)

/-- In ascending order the places up to one bound as much as the values up to the one there. -/
theorem places_iff (hsorted : sorted.Pairwise (· ≤ ·)) (hpos : ∀ v ∈ sorted, 0 ≤ v)
    (h : rank < sorted.length) : (∀ r, ∀ hr : r < sorted.length, r ≤ rank →
      min (((sorted.length - r : ℕ) : K) * sorted[r]) 1 ≤ c) ↔
        ∀ w ≤ sorted[rank], weighted sorted w ≤ c := by
  constructor
  · intro hplaces w hle
    obtain ⟨first, hlt, hfirst, hwfirst, hcount⟩ := exists_first hsorted h hle
    rw [weighted, hcount]
    refine (min_le_min_right 1 ?_).trans (hplaces first hlt hfirst)
    exact mul_le_mul_of_nonneg_left hwfirst (Nat.cast_nonneg _)
  · intro hvalues r hr hle
    have hsmall : sorted[r] ≤ sorted[rank] := by
      rcases Nat.lt_or_eq_of_le hle with hlt | rfl
      · exact List.pairwise_iff_getElem.mp hsorted r rank hr h hlt
      · exact le_refl _
    have hcount : ((sorted.length - r : ℕ) : K) ≤ atLeast sorted sorted[r] := by
      exact_mod_cast length_sub_le_atLeast hsorted hr
    have hnonneg : 0 ≤ sorted[r] := hpos _ (List.getElem_mem hr)
    exact (min_le_min_right 1 (mul_le_mul_of_nonneg_right hcount hnonneg)).trans (hvalues _ hsmall)

/-- Lowering values lowers no adjusted value above a bound. -/
theorem adjusted_lowered (hv : v ∈ values) (huv : u ≤ v)
    (hcount : ∀ w, atLeast lowered w ≤ atLeast values w) (hpos : ∀ v ∈ lowered, 0 ≤ v) :
    adjusted lowered u ≤ adjusted values v := by
  obtain ⟨hnonneg, hall⟩ := (adjusted_le_iff_all hv).mp (le_refl (adjusted values v))
  refine (adjusted_le_iff lowered u _).mpr ⟨hnonneg, fun w hw hwu => ?_⟩
  have hcast : (atLeast lowered w : K) ≤ atLeast values w := by exact_mod_cast hcount w
  exact (min_le_min_right 1 (mul_le_mul_of_nonneg_right hcast (hpos w hw))).trans
    (hall w (hwu.trans huv))

/-- A part of the family with a value within the level has its least within the share of the
level. -/
theorem least_le_of_adjusted_le (hv : v ∈ values) (halpha : alpha < 1)
    (hle : adjusted values v ≤ alpha) {size : ℕ} (hsize : 0 < size) (hw : w ≤ v) (hpos : 0 ≤ w)
    (hcount : size ≤ atLeast values w) : w ≤
      alpha / size := by
  have hweighted := ((adjusted_le_iff_all hv).mp hle).2 w hw
  have hproduct : atLeast values w * w ≤ alpha := by
    rcases min_le_iff.mp hweighted with h | h
    · exact h
    · exact absurd halpha (not_lt.mpr h)
  have hcast : (size : K) ≤ atLeast values w := by exact_mod_cast hcount
  have hsize : (0 : K) < size := by exact_mod_cast hsize
  rw [le_div_iff₀ hsize, mul_comm]
  exact (mul_le_mul_of_nonneg_right hcast hpos).trans hproduct

/-- The adjusted values decide as the taking in ascending order does. -/
theorem mem_stepDown_iff (hnodup : asc.Nodup) (hsorted : (asc.map p).Pairwise (· ≤ ·))
    (hpos : ∀ i ∈ asc, 0 ≤ p i)
    (halpha : 0 ≤ alpha ∧ alpha < 1) (h : rank < asc.length) :
    asc[rank] ∈ stepDown alpha p asc.length 1 asc ↔ adjusted (asc.map p) (p asc[rank]) ≤ alpha := by
  have hlength : (asc.map p).length = asc.length := List.length_map p
  have hrank : rank < (asc.map p).length := hlength ▸ h
  have hpos : ∀ v ∈ asc.map p, 0 ≤ v := List.forall_mem_map.mpr hpos
  have hmem : p asc[rank] ∈ asc.map p := List.mem_map_of_mem (List.getElem_mem h)
  have hplaces := places_iff (c := alpha) hsorted hpos hrank
  simp only [List.getElem_map, hlength] at hplaces
  rw [mem_stepDown hnodup h, adjusted_le_iff_all hmem, ← hplaces]
  have hone (x : K) : min x 1 ≤ alpha ↔ x ≤ alpha := by
    rw [min_le_iff]
    exact or_iff_left (not_le.mpr halpha.2)
  rw [and_iff_right halpha.1]
  refine forall_congr' fun r => forall_congr' fun hr => imp_congr_right fun _ => ?_
  have hrest : (asc.length : K) - (1 + r : ℕ) + 1 = ((asc.length - r : ℕ) : K) := by
    rw [Nat.cast_sub hr.le]
    push_cast
    ring
  have hposr : (0 : K) < ((asc.length - r : ℕ) : K) := by exact_mod_cast Nat.sub_pos_of_lt hr
  rw [hone, hrest, le_div_iff₀ hposr, mul_comm]

end Adjusted

end StepDown
