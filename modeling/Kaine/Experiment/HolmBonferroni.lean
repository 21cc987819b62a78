import Kaine.Lib.SortBy
import Kaine.Lib.StepDown
import Mathlib.Data.List.FinRange
import Mathlib.Tactic.NormNum

/-! The correction of a family of tests (`kaine/experiment/multiple_comparisons.py`). The correction
decides as the step-down rule does, whatever the order of the family. -/
namespace Kaine.MultipleComparisons

/-- One test's raw and corrected decision. -/
structure Comparison where
  name : String
  rawP : ℚ
  holmP : ℚ
  reject : Bool

inductive HolmError where
  | alpha
  | pValue (name : String) (p : ℚ)
  | missing (index : ℕ)

/-- The loop over the ascending order; each index comes once, so the dict holds what was
assigned. -/
def holmByIndex {m : ℕ} (p : Fin m → ℚ) : ℕ → ℚ → List (Fin m) → List (Fin m × ℚ)
  | _, _, [] => []
  | rank, runningMax, idx :: order =>
    let adjusted := min (((m - rank : ℕ) : ℚ) * p idx) 1
    let runningMax := max runningMax adjusted
    (idx, runningMax) :: holmByIndex p (rank + 1) runningMax order

def comparison (items : List (String × ℚ)) (alpha : ℚ) (holm : List (Fin items.length × ℚ))
    (i : Fin items.length) : Except HolmError Comparison :=
  (holm.lookup i).elim (.error (.missing i)) fun holmP =>
    .ok ⟨items[i].1, items[i].2, holmP, holmP ≤ alpha⟩

/-- `holm_bonferroni` of named p-values in their order. -/
def holmBonferroni (items : List (String × ℚ)) (alpha : ℚ) : Except HolmError (List Comparison) :=
  if ¬ (0 < alpha ∧ alpha < 1) then .error .alpha
  else match items.find? (fun item => ¬ (0 ≤ item.2 ∧ item.2 ≤ 1)) with
  | some item => .error (.pValue item.1 item.2)
  | none =>
    if items.length = 0 then .ok []
    else
      let p := fun i : Fin items.length => items[i].2
      let order := SortBy.sortBy p (List.finRange items.length)
      (List.finRange items.length).mapM (comparison items alpha (holmByIndex p 0 0 order))

open StepDown SortBy

variable {items shuffled : List (String × ℚ)} {alpha : ℚ} {m k rank : ℕ}

/-- The p-values of a family. -/
def pValues (items : List (String × ℚ)) : List ℚ := items.map Prod.snd

/-- What the family makes of one of its tests. -/
def corrected (items : List (String × ℚ)) (alpha : ℚ) (item : String × ℚ) : Comparison :=
  ⟨item.1, item.2, adjusted (pValues items) item.2, adjusted (pValues items) item.2 ≤ alpha⟩

section Loop

/-- The loop assigns to a test the largest of what the tests up to it in the order come to. -/
theorem holmByIndex_lookup {p : Fin m → ℚ} {order : List (Fin m)} (hnodup : order.Nodup) (top : ℚ)
    (h : rank < order.length) : ∃ holm, (holmByIndex p k top order).lookup order[rank] = some holm ∧
    ∀ c, holm ≤ c ↔ top ≤ c ∧
      ∀ r, ∀ hr : r < order.length, r ≤ rank →
        min (((m - (k + r) : ℕ) : ℚ) * p order[r]) 1 ≤ c := by
  induction order generalizing rank k top with
  | nil => exact absurd h (Nat.not_lt_zero rank)
  | cons idx order ih =>
    obtain ⟨hnew, hrest⟩ := List.nodup_cons.mp hnodup
    cases rank with
    | zero =>
      refine ⟨max top (min (((m - k : ℕ) : ℚ) * p idx) 1), by simp [holmByIndex], fun c => ?_⟩
      rw [max_le_iff]
      refine and_congr_right fun _ => ⟨fun hle r hr hrank => ?_,
        fun hplaces => hplaces 0 h (le_refl 0)⟩
      rw [Nat.le_zero] at hrank
      subst hrank
      exact hle
    | succ rank =>
      have hlt : rank < order.length := Nat.lt_of_succ_lt_succ h
      obtain ⟨holm, hlookup, hbound⟩ :=
        ih (k := k + 1) hrest (max top (min (((m - k : ℕ) : ℚ) * p idx) 1)) hlt
      have hne : (order[rank] == idx) = false := by
        rw [beq_eq_false_iff_ne]
        exact fun he => hnew (he ▸ List.getElem_mem hlt)
      refine ⟨holm, ?_, fun c => ?_⟩
      · rw [holmByIndex, List.getElem_cons_succ, List.lookup_cons, hne]
        exact hlookup
      · rw [hbound, max_le_iff, and_assoc]
        refine and_congr_right fun _ => ⟨fun ⟨hfirst, hplaces⟩ r hr hrank => ?_,
          fun hplaces => ⟨?_, ?_⟩⟩
        · cases r with
          | zero => exact hfirst
          | succ r =>
            have hplace := hplaces r (Nat.lt_of_succ_lt_succ hr) (Nat.le_of_succ_le_succ hrank)
            rwa [Nat.add_right_comm, Nat.add_assoc] at hplace
        · exact hplaces 0 (Nat.succ_pos _) (Nat.zero_le _)
        · intro r hr hrank
          have hplace := hplaces (r + 1) (Nat.succ_lt_succ hr) (Nat.succ_le_succ hrank)
          rwa [Nat.add_right_comm, Nat.add_assoc]

/-- The p-values in an order of the family. -/
theorem order_perm {order : List (Fin items.length)}
    (horder : order.Perm (List.finRange items.length)) :
    (order.map fun i => items[i].2).Perm (pValues items) := by
  have hall : (List.finRange items.length).map (fun i => items[i].2) = pValues items := by
    have hget : (List.finRange items.length).map items.get = items := List.map_get_finRange items
    calc (List.finRange items.length).map (fun i => items[i].2)
        = ((List.finRange items.length).map items.get).map Prod.snd := by rw [List.map_map]; rfl
      _ = pValues items := by rw [hget, pValues]
  rw [← hall]
  exact horder.map _

/-- The loop over an ascending order finds the adjusted values. -/
theorem holmByIndex_adjusted {order : List (Fin items.length)}
    (horder : order.Perm (List.finRange items.length))
    (hsorted : order.Pairwise fun i j => items[i].2 ≤ items[j].2)
    (hpos : ∀ item ∈ items, 0 ≤ item.2)
    (i : Fin items.length) : (holmByIndex (fun i => items[i].2) 0 0 order).lookup i =
      some (adjusted (pValues items) items[i].2) := by
  have hmem : i ∈ order := horder.mem_iff.mpr (List.mem_finRange i)
  obtain ⟨rank, hrank, rfl⟩ := List.getElem_of_mem hmem
  have hnodup : order.Nodup := horder.nodup_iff.mpr (List.nodup_finRange _)
  obtain ⟨holm, hlookup, hbound⟩ :=
    holmByIndex_lookup (p := fun i : Fin items.length => items[i].2) (k := 0) hnodup 0 hrank
  rw [hlookup]
  congr 1
  have hlength : order.length = items.length := by rw [horder.length_eq, List.length_finRange]
  have hascending : (order.map fun i => items[i].2).Pairwise (· ≤ ·) :=
    List.pairwise_map.mpr hsorted
  have hnonneg : ∀ v ∈ order.map fun i => items[i].2, 0 ≤ v :=
    List.forall_mem_map.mpr fun i _ => hpos _ (List.getElem_mem i.2)
  have hvalue : items[order[rank]].2 ∈ order.map fun i => items[i].2 :=
      List.mem_map_of_mem (List.getElem_mem hrank)
  rw [← adjusted_perm (order_perm horder)]
  refine eq_of_forall_ge_iff fun c => ?_
  have hplace : rank < (order.map fun i => items[i].2).length := (List.length_map _).symm ▸ hrank
  have hplaces := places_iff (c := c) hascending hnonneg hplace
  simp only [List.getElem_map, List.length_map, hlength] at hplaces
  rw [hbound, adjusted_le_iff_all hvalue, ← hplaces]
  refine and_congr_right fun _ => ?_
  simp only [Nat.zero_add, hlength]

end Loop

section Laws

/-- A family of p-values. -/
def InRange (items : List (String × ℚ)) : Prop := ∀ item ∈ items, 0 ≤ item.2 ∧ item.2 ≤ 1

theorem holmBonferroni_eq (hrange : InRange items) (halpha : 0 < alpha ∧ alpha < 1) :
    holmBonferroni items alpha = .ok (items.map (corrected items alpha)) := by
  have hfind : items.find? (fun item => ¬ (0 ≤ item.2 ∧ item.2 ≤ 1)) = none := by
    refine List.find?_eq_none.mpr fun item hitem => ?_
    rw [decide_eq_true_eq, not_not]
    exact hrange item hitem
  unfold holmBonferroni
  rw [if_neg (not_not.mpr halpha), hfind]
  dsimp only
  by_cases hempty : items.length = 0
  · rw [if_pos hempty, List.length_eq_zero_iff.mp hempty]
    rfl
  · rw [if_neg hempty]
    have hcomparison : comparison items alpha (holmByIndex (fun i => items[i].2) 0 0
        (sortBy (fun i => items[i].2) (List.finRange items.length))) =
        fun i => pure (corrected items alpha items[i]) := by
      funext i
      have hpos : ∀ item ∈ items, 0 ≤ item.2 := fun item h => (hrange item h).1
      rw [comparison, holmByIndex_adjusted (sortBy_perm _ _) (pairwise_sortBy _ _) hpos]
      rfl
    have hget : (List.finRange items.length).map items.get = items := List.map_get_finRange items
    rw [hcomparison, List.mapM_pure]
    refine congrArg Except.ok ?_
    calc (List.finRange items.length).map (fun i => corrected items alpha items[i])
        = ((List.finRange items.length).map items.get).map (corrected items alpha) := by
          rw [List.map_map]; rfl
      _ = items.map (corrected items alpha) := by rw [hget]

theorem corrected_perm (h : shuffled.Perm items) (alpha : ℚ) :
    corrected shuffled alpha = corrected items alpha := by
  funext item
  have hvalues : (pValues shuffled).Perm (pValues items) := h.map Prod.snd
  rw [corrected, corrected, adjusted_perm hvalues]

theorem reject_iff (item : String × ℚ) :
    (corrected items alpha item).reject = true ↔ adjusted (pValues items) item.2 ≤ alpha :=
  decide_eq_true_iff

theorem mem_pValues {item : String × ℚ} (h : item ∈ items) : item.2 ∈ pValues items :=
  List.mem_map_of_mem h

theorem atLeast_lowered {before after : List (String × ℚ)} {name : String} {p q : ℚ}
    (hqp : q ≤ p) (w : ℚ) : atLeast (pValues (before ++ (name, q) :: after)) w ≤
      atLeast (pValues (before ++ (name, p) :: after)) w := by
  have hone : (if decide (w ≤ q) then 1 else 0) ≤ if decide (w ≤ p) then 1 else 0 := by
    by_cases hw : w ≤ q
    · rw [if_pos (decide_eq_true hw), if_pos (decide_eq_true (hw.trans hqp))]
    · rw [if_neg (by simpa using hw)]
      exact Nat.zero_le _
  rw [atLeast, atLeast, pValues, pValues, List.map_append, List.map_append, List.map_cons,
    List.map_cons, List.countP_append, List.countP_append, List.countP_cons, List.countP_cons]
  dsimp only
  omega

/-- The members of a part of the family are as large as its least. -/
theorem card_le_atLeast (part : Finset (Fin items.length)) {w : ℚ}
    (hleast : ∀ i ∈ part, w ≤ items[i].2) : part.card ≤ atLeast (pValues items) w := by
  have hcount : atLeast (pValues items) w =
      ((List.finRange items.length).filter fun i => w ≤ items[i].2).length := by
    rw [← atLeast_perm (order_perm (List.Perm.refl _)), atLeast, List.countP_map,
      List.countP_eq_length_filter]
    rfl
  have hnodup := (List.nodup_finRange items.length).filter fun i => decide (w ≤ items[i].2)
  rw [hcount, ← List.toFinset_card_of_nodup hnodup]
  refine Finset.card_le_card fun i hi => ?_
  rw [List.mem_toFinset, List.mem_filter]
  exact ⟨List.mem_finRange i, decide_eq_true (hleast i hi)⟩

/-- What the decisions on a family keep to, `f` being what is made of each test. -/
structure HolmLaws (items : List (String × ℚ)) (alpha : ℚ)
    (f : String × ℚ → Comparison) : Prop where
  raw : ∀ item ∈ items, (f item).name = item.1 ∧ (f item).rawP = item.2
  rule (ascending : List (Fin items.length)) (horder : ascending.Perm (List.finRange items.length))
    (hsorted : ascending.Pairwise fun i j => items[i].2 ≤ items[j].2) (i : Fin items.length) :
    (f items[i]).reject = true ↔
      i ∈ stepDown alpha (fun i : Fin items.length => items[i].2) items.length 1 ascending
  ties : ∀ a ∈ items, ∀ b ∈ items, a.2 = b.2 → (f a).holmP = (f b).holmP ∧
    (f a).reject = (f b).reject
  permuted (shuffled : List (String × ℚ)) (h : shuffled.Perm items) :
    holmBonferroni shuffled alpha = .ok (shuffled.map f)
  lowered (before : List (String × ℚ)) (name : String) (p q : ℚ) (after : List (String × ℚ))
    (h : items = before ++ (name, p) :: after) (hq : 0 ≤ q) (hqp : q ≤ p) :
    ∃ g, holmBonferroni (before ++ (name, q) :: after) alpha =
      .ok ((before ++ (name, q) :: after).map g) ∧
        ((f (name, p)).reject = true → (g (name, q)).reject = true) ∧
      ∀ item ∈ before ++ after, (f item).reject = true → (g item).reject = true
  part (tests : Finset (Fin items.length)) (h : ∃ i ∈ tests, (f items[i]).reject = true) :
    ∃ i ∈ tests, (∀ j ∈ tests, items[i].2 ≤ items[j].2) ∧ items[i].2 ≤ alpha / tests.card

theorem rule_iff (hrange : InRange items) (halpha : 0 < alpha ∧ alpha < 1)
    {ascending : List (Fin items.length)} (horder : ascending.Perm (List.finRange items.length))
    (hsorted : ascending.Pairwise fun i j => items[i].2 ≤ items[j].2) (i : Fin items.length) :
    (corrected items alpha items[i]).reject = true ↔
      i ∈ stepDown alpha (fun i : Fin items.length => items[i].2) items.length 1 ascending := by
  have hmem : i ∈ ascending := horder.mem_iff.mpr (List.mem_finRange i)
  obtain ⟨rank, hrank, rfl⟩ := List.getElem_of_mem hmem
  have hlength : ascending.length = items.length := by rw [horder.length_eq, List.length_finRange]
  have hnodup : ascending.Nodup := horder.nodup_iff.mpr (List.nodup_finRange _)
  have hiff := mem_stepDown_iff (p := fun i : Fin items.length => items[i].2) hnodup
    (List.pairwise_map.mpr hsorted)
    (fun i _ => (hrange _ (List.getElem_mem i.2)).1) ⟨halpha.1.le, halpha.2⟩ hrank
  rw [hlength, adjusted_perm (order_perm horder)] at hiff
  rw [reject_iff, hiff]

theorem inRange_lowered {before after : List (String × ℚ)} {name : String} {p q : ℚ}
    (hrange : InRange (before ++ (name, p) :: after)) (hq : 0 ≤ q) (hqp : q ≤ p) :
    InRange (before ++ (name, q) :: after) := by
  intro item hitem
  rcases List.mem_append.mp hitem with h | h
  · exact hrange item (List.mem_append_left _ h)
  · rcases List.mem_cons.mp h with rfl | h
    · exact ⟨hq, hqp.trans (hrange (name, p) (List.mem_append_right _ List.mem_cons_self)).2⟩
    · exact hrange item (List.mem_append_right _ (List.mem_cons_of_mem _ h))

theorem reject_lowered {before after : List (String × ℚ)} {name : String} {p q : ℚ}
    {old new : String × ℚ} (hrange : InRange (before ++ (name, p) :: after)) (hq : 0 ≤ q)
    (hqp : q ≤ p)
    (hold : old ∈ before ++ (name, p) :: after) (hle : new.2 ≤ old.2)
    (h : (corrected (before ++ (name, p) :: after) alpha old).reject = true) :
    (corrected (before ++ (name, q) :: after) alpha new).reject = true := by
  have hpos : ∀ v ∈ pValues (before ++ (name, q) :: after), 0 ≤ v :=
    List.forall_mem_map.mpr fun item hitem => (inRange_lowered hrange hq hqp item hitem).1
  rw [reject_iff] at h ⊢
  exact (adjusted_lowered (mem_pValues hold) hle (atLeast_lowered hqp) hpos).trans h

/-- Every family of p-values is corrected by the laws. -/
theorem holm_laws (hrange : InRange items) (halpha : 0 < alpha ∧ alpha < 1) :
    ∃ f, holmBonferroni items alpha = .ok (items.map f) ∧ HolmLaws items alpha f := by
  refine ⟨_, holmBonferroni_eq hrange halpha, fun item _ => ⟨rfl, rfl⟩,
    fun ascending horder hsorted i => ?_, fun a _ b _ h => ?_, fun shuffled h => ?_,
      fun before name p q after h hq hqp => ?_, fun tests h => ?_⟩
  · exact rule_iff hrange halpha horder hsorted i
  · rw [corrected, corrected, h]
    exact ⟨rfl, rfl⟩
  · have hrange : InRange shuffled := fun item hitem => hrange item (h.mem_iff.mp hitem)
    rw [holmBonferroni_eq hrange halpha, corrected_perm h]
  · subst h
    have hold : (name, p) ∈ before ++ (name, p) :: after :=
      List.mem_append_right _ List.mem_cons_self
    have hrest : ∀ item ∈ before ++ after, item ∈ before ++ (name, p) :: after := fun item hitem =>
      (List.Sublist.append_left (List.sublist_cons_self _ after) before).subset hitem
    refine ⟨_, holmBonferroni_eq (inRange_lowered hrange hq hqp) halpha, fun h => ?_,
      fun item hitem h => ?_⟩
    · exact reject_lowered hrange hq hqp hold hqp h
    · exact reject_lowered hrange hq hqp (hrest item hitem) (le_refl _) h
  · obtain ⟨i, hi, hreject⟩ := h
    obtain ⟨least, hleast, hmin⟩ := Finset.exists_min_image tests (fun i => items[i].2) ⟨i, hi⟩
    refine ⟨least, hleast, hmin, ?_⟩
    rw [reject_iff] at hreject
    have hsize : 0 < tests.card := Finset.card_pos.mpr ⟨i, hi⟩
    exact least_le_of_adjusted_le (mem_pValues (List.getElem_mem i.2)) halpha.2 hreject hsize
      (hmin i hi) (hrange _ (List.getElem_mem least.2)).1 (card_le_atLeast tests hmin)

theorem holm_laws_two : ∃ f, holmBonferroni [("pose", 1 / 50), ("gait", 1 / 50)] (1 / 20) =
    .ok ([("pose", 1 / 50), ("gait", 1 / 50)].map f) ∧
      HolmLaws [("pose", 1 / 50), ("gait", 1 / 50)] (1 / 20) f := by
  refine holm_laws (fun item hitem => ?_) (by norm_num)
  simp only [List.mem_cons, List.not_mem_nil, or_false] at hitem
  rcases hitem with rfl | rfl
  · norm_num
  · norm_num

end Laws

end Kaine.MultipleComparisons
