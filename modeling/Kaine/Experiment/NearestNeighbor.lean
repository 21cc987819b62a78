import Kaine.Experiment.RdRobust
import Kaine.Lib.OrderStatistic
import Kaine.Lib.SortBy
import Mathlib.Data.List.GetD

/-! The nearest-neighbour variances of one side (`kaine/experiment/rd_robust.py`). Every unit has
the variance about all units that are as near as the nearest few. -/
namespace Kaine.RdRobust

variable {n : ℕ} {K : Type} [Field K] [LinearOrder K]

/-- `_eq_distance` with its relative tolerance. -/
def eqDistance (tolerance a b : K) : Bool := a = b ∨ |a - b| ≤ tolerance * max (max |a| |b|) 1

def leqDistance (tolerance a b : K) : Bool := a ≤ b || eqDistance tolerance a b

/-- The units that are matched with the one at a position, of the units in ascending order. -/
def matched (tolerance : K) (x : Fin n → K) (units : List (Fin n)) (j pos : ℕ) (i : Fin n) :
    List (Fin n) :=
  let lo := pos - (j + 1)
  let hi := min (units.length - 1) (pos + j + 1)
  let dist := fun k => |x k - x i|
  let near := (units.take pos).drop lo ++ (units.take (hi + 1)).drop (pos + 1)
  if near.length ≤ j then near
  else
    let jth := (SortBy.sortBy (fun d => d) (near.map dist)).getD (j - 1) 0
    near.filter (fun k => leqDistance tolerance (dist k) jth) ++
      (units.take lo).reverse.takeWhile (fun k => eqDistance tolerance (dist k) jth) ++
      (units.drop (hi + 1)).takeWhile (fun k => eqDistance tolerance (dist k) jth)

/-- The variance of a unit with the units that are matched with it. -/
def matchedVariance (y : Fin n → K) (i : Fin n) (found : List (Fin n)) : K :=
  if found.length = 0 then 0
  else
    let count : K := (found.length : K)
    let mean := (found.map y).sum / count
    count / (count + 1) * (y i - mean) ^ 2

/-- The units of a side within the window. -/
def windowMask (x : Fin n → K) (sideMask : Fin n → Bool) (nnWindow : Option K) (i : Fin n) : Bool :=
  match nnWindow with
  | none => sideMask i
  | some w => sideMask i && |x i| ≤ w

/-- `_nearest_neighbor_sigma_side`; the sort of the positions and its inverse are the sort of the
units. -/
def nearestNeighborSigmaSide (tolerance : K) (x y : Fin n → K) (sideMask : Fin n → Bool) (j : ℤ)
    (nnWindow : Option K) : Estimated (Fin n → K) :=
  if j < 1 then .error "j must be a positive integer"
  else
    let idx := (List.finRange n).filter (windowMask x sideMask nnWindow)
    let units := SortBy.sortBy x idx
    let sortedSigma2 := units.mapIdx fun pos i => (i,
      matchedVariance y i (matched tolerance x units j.toNat pos i))
    .ok fun i => (sortedSigma2.lookup i).getD 0

open OrderStatistic

section Lookup

variable {A V : Type} [DecidableEq A] {units front back : List A} {i : A}

theorem lookup_mapIdx_none (f : ℕ → A → V) (h : i ∉ units) :
    (units.mapIdx fun pos k => (k, f pos k)).lookup i = none := by
  refine List.lookup_eq_none_iff.mpr fun kv hkv => ?_
  obtain ⟨pos, hpos, rfl⟩ := List.mem_mapIdx.mp hkv
  exact bne_iff_ne.mpr fun he => h (he ▸ List.getElem_mem hpos)

/-- What is found for a member is what was made at its position. -/
theorem lookup_mapIdx (f : ℕ → A → V) (h : i ∉ front) :
    ((front ++ i :: back).mapIdx fun pos k => (k, f pos k)).lookup i = some (f front.length i) := by
  rw [List.mapIdx_append, List.lookup_append, lookup_mapIdx_none f h, List.mapIdx_cons,
    List.lookup_cons_self, Nat.zero_add]
  rfl

end Lookup

section Spread

variable {n : ℕ} {K : Type} [Field K] {found : List (Fin n)}

/-- The squared difference from the mean of some units, with the correction for their number. -/
def spread (y : Fin n → K) (i : Fin n) (units : Finset (Fin n)) : K :=
  (units.card : K) / (units.card + 1) * (y i - (∑ k ∈ units, y k) / units.card) ^ 2

theorem matchedVariance_eq (hnodup : found.Nodup) (y : Fin n → K) (i : Fin n) :
    matchedVariance y i found = spread y i found.toFinset := by
  unfold matchedVariance
  rw [spread, List.toFinset_card_of_nodup hnodup, List.sum_toFinset y hnodup]
  split_ifs with hzero
  · rw [hzero, Nat.cast_zero, zero_div, zero_mul]
  · rfl

theorem spread_comp (σ : Equiv.Perm (Fin n)) (y : Fin n → K) (i : Fin n) (units : Finset (Fin n)) :
    spread (y ∘ σ) i units = spread y (σ i) (units.map σ.toEmbedding) := by
  rw [spread, spread, Finset.card_map, Finset.sum_map]
  rfl

end Spread

variable {x y : Fin n → K} {front back : List (Fin n)} {i : Fin n} {j : ℕ}

section Definition

/-- The other units of the side within the window. -/
def others (x : Fin n → K) (sideMask : Fin n → Bool) (nnWindow : Option K) (i : Fin n) :
    Finset (Fin n) :=
  Finset.univ.filter fun k => windowMask x sideMask nnWindow k = true ∧ k ≠ i

/-- The `j`-th smallest of some values. -/
def jthSmallest (values : Multiset K) (j : ℕ) : K := (values.sort (· ≤ ·)).getD (j - 1) 0

/-- All units where there are so few, else those within the distance of the `j`-th nearest. -/
def neighbours (x : Fin n → K) (units : Finset (Fin n)) (i : Fin n) (j : ℕ) : Finset (Fin n) :=
  if units.card ≤ j then units
  else units.filter fun k => |x k - x i| ≤ jthSmallest (units.val.map fun k => |x k - x i|) j

end Definition

section Matched

variable [IsStrictOrderedRing K]

theorem eqDistance_zero (a b : K) : eqDistance 0 a b = decide (a = b) := by
  rw [eqDistance, decide_eq_decide, zero_mul, abs_nonpos_iff, sub_eq_zero, or_self]

theorem leqDistance_zero (a b : K) : leqDistance 0 a b = decide (a ≤ b) := by
  rw [leqDistance, eqDistance_zero, ← Bool.decide_or, decide_eq_decide]
  exact or_iff_left_of_imp le_of_eq

/-- Outwards from a unit the distances rise. -/
theorem pairwise_dist (hsorted : (front ++ i :: back).Pairwise fun a b => x a ≤ x b) :
    (front.reverse.Pairwise fun a b => |x a - x i| ≤ |x b - x i|) ∧
      back.Pairwise fun a b => |x a - x i| ≤ |x b - x i| := by
  obtain ⟨hfront, hback, hcross⟩ := List.pairwise_append.mp hsorted
  obtain ⟨habove, hback⟩ := List.pairwise_cons.mp hback
  have hbelow : ∀ a ∈ front, x a ≤ x i := fun a ha => hcross a ha i List.mem_cons_self
  constructor
  · refine List.pairwise_reverse.mpr (hfront.imp_of_mem fun {a b} ha hb hle => ?_)
    rw [abs_of_nonpos (sub_nonpos.mpr (hbelow a ha)), abs_of_nonpos (sub_nonpos.mpr (hbelow b hb))]
    exact neg_le_neg (sub_le_sub_right hle _)
  · refine hback.imp_of_mem fun {a b} ha hb hle => ?_
    rw [abs_of_nonneg (sub_nonneg.mpr (habove a ha)), abs_of_nonneg (sub_nonneg.mpr (habove b hb))]
    exact sub_le_sub_right hle _

/-- The positions that are looked at are the nearest of the units before and after. -/
theorem near_perm (front back : List (Fin n)) (i : Fin n) (j : ℕ) :
    (((front ++ i :: back).take front.length).drop (front.length - (j + 1)) ++
      ((front ++ i :: back).take (min ((front ++ i :: back).length - 1)
        (front.length + j + 1) + 1)).drop (front.length + 1)).Perm
          (window front.reverse back (j + 1)) := by
  have hhi : min ((front ++ i :: back).length - 1) (front.length + j + 1) + 1 =
      (front ++ [i]).length + min (j + 1) back.length := by
    rw [List.length_append, List.length_append, List.length_cons, List.length_singleton]
    omega
  have hunits : front ++ i :: back = (front ++ [i]) ++ back := by rw [List.append_assoc]; rfl
  have hafter : ((front ++
      i :: back).take (min ((front ++ i :: back).length - 1) (front.length + j + 1) + 1)).drop
      (front.length + 1) = back.take (j + 1) := by
    have hpos : front.length + 1 = (front ++ [i]).length := by
      rw [List.length_append, List.length_singleton]
    rw [hhi, hpos, hunits, List.take_length_add_append, List.drop_left, ← List.take_eq_take_min]
  rw [hafter, List.take_left, window, List.take_reverse]
  exact (List.reverse_perm _).symm.append_right _

/-- What ties beyond them is looked for outwards from there. -/
theorem beyond_eq (front back : List (Fin n)) (i : Fin n) (j : ℕ) :
    ((front ++ i :: back).take (front.length - (j + 1))).reverse = front.reverse.drop (j + 1) ∧
    (front ++ i :: back).drop (min ((front ++ i :: back).length - 1) (front.length + j + 1) + 1) =
      back.drop (j + 1) := by
  constructor
  · rw [List.take_append_of_le_length (Nat.sub_le _ _), List.drop_reverse]
  · have hhi : min ((front ++ i :: back).length - 1) (front.length + j + 1) + 1 =
        (front ++ [i]).length + min (j + 1) back.length := by
      rw [List.length_append, List.length_append, List.length_cons, List.length_singleton]
      omega
    have hunits : front ++ i :: back = (front ++ [i]) ++ back := by rw [List.append_assoc]; rfl
    rw [hhi, hunits, List.drop_length_add_append]
    rcases Nat.le_total (j + 1) back.length with hle | hle
    · rw [Nat.min_eq_left hle]
    · rw [Nat.min_eq_right hle, List.drop_length, List.drop_eq_nil_of_le hle]

/-- Where something is left out, what is matched is what the window holds and what ties beyond
it. -/
theorem matched_perm_filter (hsorted : (front ++ i :: back).Pairwise fun a b => x a ≤ x b)
    (hj : 0 < j) : (matched 0 x (front ++ i :: back) j front.length i).Perm
      (if (front ++ back).length ≤ j then front ++ back
        else (front ++ back).filter fun k => |x k - x i| ≤
          jthSmallest (↑((front ++ back).map fun k => |x k - x i|)) j) := by
  obtain ⟨hA, hB⟩ := pairwise_dist hsorted
  obtain ⟨hbefore, hafter⟩ := beyond_eq front back i j
  have hnear := near_perm front back i j
  have hwhole : (front.reverse ++ back).Perm (front ++ back) :=
    (List.reverse_perm front).append_right back
  unfold matched
  dsimp only
  rw [hbefore, hafter]
  generalize hlist : ((front ++ i :: back).take front.length).drop (front.length - (j + 1)) ++
    ((front ++ i :: back).take (min ((front ++ i :: back).length - 1)
      (front.length + j + 1) + 1)).drop (front.length + 1) = near at hnear
  by_cases hfew : near.length ≤ j
  · have hall : window front.reverse back (j + 1) = front.reverse ++ back :=
      window_eq (Nat.lt_succ_of_le (hnear.length_eq ▸ hfew))
    have hperm : near.Perm (front ++ back) := (hnear.trans (List.Perm.of_eq hall)).trans hwhole
    rw [if_pos hfew, if_pos (hperm.length_eq ▸ hfew)]
    exact hperm
  · have hmore : ¬ (front ++ back).length ≤ j := by
      have hle := length_window_le front.reverse back (j + 1)
      rw [← hnear.length_eq, hwhole.length_eq] at hle
      omega
    rw [if_neg hfew, if_neg hmore]
    have hS := SortBy.pairwise_sortBy (fun d : K => d) (near.map fun k => |x k - x i|)
    have hSperm : (SortBy.sortBy (fun d : K => d) (near.map fun k => |x k - x i|)).Perm
        ((window front.reverse back (j + 1)).map fun k => |x k - x i|) :=
      (SortBy.sortBy_perm _ _).trans (hnear.map _)
    have hT := Multiset.pairwise_sort (↑((front ++ back).map fun k => |x k - x i|))
      (fun a b : K => a ≤ b)
    have hTperm : ((↑((front ++ back).map fun k => |x k - x i|) : Multiset K).sort (fun a b =>
        a ≤ b)).Perm ((front.reverse ++ back).map fun k => |x k - x i|) :=
      (Multiset.coe_eq_coe.mp (Multiset.sort_eq _ _)).trans (hwhole.symm.map _)
    rw [jthSmallest]
    generalize SortBy.sortBy (fun d : K => d) (near.map fun k => |x k - x i|) = S at hS hSperm
    generalize (↑((front ++ back).map fun k => |x k - x i|) : Multiset K).sort (fun a b => a ≤ b) =
      T at hT hTperm
    have hSlength : j - 1 < S.length := by
      rw [hSperm.length_eq, List.length_map, ← hnear.length_eq]
      omega
    have hTlength : j - 1 < T.length := by
      rw [hTperm.length_eq, List.length_map, hwhole.length_eq]
      omega
    have hjth := getElem_window hA hB hS hSperm hT hTperm (show j - 1 < j + 1 by omega)
      hSlength hTlength
    have hbeyond := fun a ha => getElem_le_of_mem_drop (a := a) hA hB hS hSperm
      (show j - 1 < j + 1 by omega) hSlength ha
    rw [List.getD_eq_getElem S 0 hSlength, List.getD_eq_getElem T 0 hTlength, ← hjth]
    simp only [eqDistance_zero, leqDistance_zero]
    refine (((hnear.filter _).append_right _).append_right _).trans ?_
    exact (filter_window_perm hA hB hbeyond).trans (hwhole.filter _)

/-- What is matched with a unit are its neighbours, each once. -/
theorem matched_neighbours (hnodup : (front ++ i :: back).Nodup)
    (hsorted : (front ++ i :: back).Pairwise fun a b => x a ≤ x b) (hj : 0 < j) :
    (matched 0 x (front ++ i :: back) j front.length i).Nodup ∧
      (matched 0 x (front ++ i :: back) j front.length i).toFinset =
        neighbours x (front ++ back).toFinset i j := by
  have hothers : (front ++ back).Nodup :=
    hnodup.sublist ((List.sublist_cons_self i back).append_left front)
  have hperm := matched_perm_filter hsorted hj
  have hval : (front ++ back).toFinset.val = ↑(front ++ back) := by
    rw [List.toFinset_val, hothers.dedup]
  rw [List.toFinset_eq_of_perm _ _ hperm, hperm.nodup_iff, neighbours,
    List.toFinset_card_of_nodup hothers, hval, Multiset.map_coe]
  split_ifs
  · exact ⟨hothers, rfl⟩
  · refine ⟨hothers.filter _, ?_⟩
    ext k
    rw [List.mem_toFinset, List.mem_filter, Finset.mem_filter, List.mem_toFinset, decide_eq_true_eq]

end Matched

section Unordered

variable (σ : Equiv.Perm (Fin n))

theorem others_comp (x : Fin n → K) (sideMask : Fin n → Bool) (nnWindow : Option K) (i : Fin n) :
    (others (x ∘ σ) (sideMask ∘ σ) nnWindow i).map σ.toEmbedding =
      others x sideMask nnWindow (σ i) := by
  have hmask (k : Fin n) : windowMask (x ∘ σ) (sideMask ∘ σ) nnWindow k =
      windowMask x sideMask nnWindow (σ k) := by
    cases nnWindow with
    | none => rfl
    | some w => rfl
  ext k
  rw [Finset.mem_map, others, others, Finset.mem_filter]
  constructor
  · rintro ⟨l, hl, rfl⟩
    obtain ⟨-, hin, hne⟩ := Finset.mem_filter.mp hl
    exact ⟨Finset.mem_univ _, hmask l ▸ hin, fun he => hne (σ.injective he)⟩
  · rintro ⟨-, hin, hne⟩
    obtain ⟨l, rfl⟩ := σ.surjective k
    exact ⟨l, Finset.mem_filter.mpr ⟨Finset.mem_univ _, (hmask l).symm ▸ hin,
      fun he => hne (he ▸ rfl)⟩, rfl⟩

theorem neighbours_comp (x : Fin n → K) (units : Finset (Fin n)) (i : Fin n) (j : ℕ) :
    (neighbours (x ∘ σ) units i j).map σ.toEmbedding =
      neighbours x (units.map σ.toEmbedding) (σ i) j := by
  have hvalues : (units.map σ.toEmbedding).val.map (fun k => |x k - x (σ i)|) =
      units.val.map fun k => |(x ∘ σ) k - (x ∘ σ) i| := by
    rw [Finset.map_val, Multiset.map_map]
    rfl
  rw [neighbours, neighbours, Finset.card_map, hvalues]
  split_ifs
  · rfl
  · rw [Finset.filter_map]
    rfl

end Unordered

section Laws

theorem mem_idx (sideMask : Fin n → Bool) (nnWindow : Option K) :
    i ∈ SortBy.sortBy x ((List.finRange n).filter (windowMask x sideMask nnWindow)) ↔
      windowMask x sideMask nnWindow i = true := by
  rw [SortBy.mem_sortBy, List.mem_filter]
  exact and_iff_right (List.mem_finRange i)

variable [IsStrictOrderedRing K]

/-- A unit within the window has the spread about its neighbours, any other unit nothing. -/
theorem nearestNeighborSigmaSide_eq (x y : Fin n → K) (sideMask : Fin n → Bool) (hj : 0 < j)
    (nnWindow : Option K) :
    nearestNeighborSigmaSide 0 x y sideMask j nnWindow = .ok fun i =>
      if windowMask x sideMask nnWindow i
        then spread y i (neighbours x (others x sideMask nnWindow i) i j)
      else 0 := by
  rw [nearestNeighborSigmaSide, if_neg (by omega), Int.toNat_natCast]
  refine congrArg Except.ok (funext fun i => ?_)
  have hmem := fun i => mem_idx (x := x) (i := i) sideMask nnWindow
  have hsorted :=
    SortBy.pairwise_sortBy x ((List.finRange n).filter (windowMask x sideMask nnWindow))
  have hnodup :
    (SortBy.sortBy x ((List.finRange n).filter (windowMask x sideMask nnWindow))).Nodup :=
    (SortBy.sortBy_perm x _).nodup_iff.mpr ((List.nodup_finRange n).filter _)
  generalize SortBy.sortBy x ((List.finRange n).filter (windowMask x sideMask nnWindow)) = units
    at hmem hsorted hnodup
  split_ifs with hi
  · obtain ⟨front, back, rfl⟩ := List.append_of_mem ((hmem i).mpr hi)
    have hfront : i ∉ front := fun h => List.disjoint_of_nodup_append hnodup h List.mem_cons_self
    have hback : i ∉ back := (List.nodup_cons.mp (List.nodup_append.mp hnodup).2.1).1
    have hothers : (front ++ back).toFinset = others x sideMask nnWindow i := by
      ext k
      rw [List.mem_toFinset, others, Finset.mem_filter, ← hmem k, List.mem_append, List.mem_append,
        List.mem_cons]
      constructor
      · rintro (h | h)
        · exact ⟨Finset.mem_univ k, .inl h, fun he => hfront (he ▸ h)⟩
        · exact ⟨Finset.mem_univ k, .inr (.inr h), fun he => hback (he ▸ h)⟩
      · rintro ⟨-, h | h | h, hne⟩
        · exact .inl h
        · exact absurd h hne
        · exact .inr h
    obtain ⟨hfound, hneighbours⟩ := matched_neighbours hnodup hsorted hj
    rw [lookup_mapIdx _ hfront, Option.getD_some, matchedVariance_eq hfound, hneighbours, hothers]
  · rw [lookup_mapIdx_none _ fun h => hi ((hmem i).mp h), Option.getD_none]

/-- What the variances of a side keep to. -/
structure VarianceLaws (x y : Fin n → K) (sideMask : Fin n → Bool) (j : ℕ) (nnWindow : Option K)
    (sigma2 : Fin n → K) : Prop where
  inside (i : Fin n) (h : windowMask x sideMask nnWindow i = true) :
    sigma2 i = spread y i (neighbours x (others x sideMask nnWindow i) i j)
  alone (i : Fin n) (h : others x sideMask nnWindow i = ∅) : sigma2 i = 0
  outside (i : Fin n) (h : windowMask x sideMask nnWindow i = false) : sigma2 i = 0
  permuted (σ : Equiv.Perm (Fin n)) :
    nearestNeighborSigmaSide 0 (x ∘ σ) (y ∘ σ) (sideMask ∘ σ) j nnWindow = .ok (sigma2 ∘ σ)

/-- The variances are those of their definition, whatever the order of the units. -/
theorem nearest_neighbor_laws (x y : Fin n → K) (sideMask : Fin n → Bool) (nnWindow : Option K)
    (hj : 1 ≤ j) : ∃ sigma2, nearestNeighborSigmaSide 0 x y sideMask j nnWindow = .ok sigma2 ∧
      VarianceLaws x y sideMask j nnWindow sigma2 := by
  refine ⟨_, nearestNeighborSigmaSide_eq x y sideMask hj nnWindow, fun i h => if_pos h,
    fun i h => ?_, fun i h => ?_,
    fun σ => ?_⟩
  · rw [h, neighbours, Finset.card_empty, if_pos (Nat.zero_le j), spread, Finset.card_empty,
      Nat.cast_zero, zero_div, zero_mul, ite_self]
  · exact if_neg (by rw [h]; exact Bool.false_ne_true)
  · rw [nearestNeighborSigmaSide_eq (x ∘ σ) (y ∘ σ) (sideMask ∘ σ) hj nnWindow]
    refine congrArg Except.ok (funext fun i => ?_)
    rw [spread_comp, neighbours_comp, others_comp]
    cases nnWindow with
    | none => rfl
    | some w => rfl

/-- Three units on a line, the outer two as far from the middle one. -/
theorem nearest_neighbor_laws_three :
    ∃ sigma2, nearestNeighborSigmaSide 0 (![0, 1, 2] : Fin 3 → ℚ) ![1, 2,
      4] (fun _ => true) (1 : ℕ) none = .ok sigma2 ∧
      VarianceLaws (![0, 1, 2] : Fin 3 → ℚ) ![1, 2, 4] (fun _ => true) 1 none sigma2 :=
  nearest_neighbor_laws _ _ _ _ (le_refl 1)

end Laws

end Kaine.RdRobust
