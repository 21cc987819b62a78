import Kaine.Experiment.StableRunSafety

/-! The two sign tests exclude each other, do not depend on the order of the runs and rise with
them. -/
namespace Kaine.Calibration
open Binomial

variable {n k a b c d : ℕ} {alpha minEffect x y : ℚ} {values pre post : List ℚ}
  {statistics : List (Option ℚ)}

section Chance

/-- The chance of at least so many successes where they and the failures are equally likely. -/
def chance (successes failures : ℕ) : ℚ := tail (1 / 2) (successes + failures) successes

theorem chance_eq (a b : ℕ) : chance a b = (upper 1 1 (a + b) a : ℚ) / 2 ^ (a + b) :=
  tail_half (a + b) a

/-- A chance below a half needs more successes than failures, by two at least. -/
theorem lt_of_chance_lt (h : chance a b < 1 / 2) : b + 1 < a := by
  by_contra hle
  have hhalf : (2 : ℚ) ^ (a + b) ≤ 2 * upper 1 1 (a + b) a := by
    exact_mod_cast half_le_upper (show 2 * a ≤ a + b + 1 by omega)
  have hpos : (0 : ℚ) < 2 ^ (a + b) := by positivity
  rw [chance_eq, div_lt_div_iff₀ hpos two_pos] at h
  linarith

/-- A failure less. -/
theorem chance_failure (a b : ℕ) : chance a b ≤ chance a (b + 1) := by
  have hpos (n : ℕ) : (0 : ℚ) < 2 ^ n := by positivity
  have hle : 2 * upper 1 1 (a + b) a ≤ upper 1 1 (a + b + 1) a := by
    cases a with
    | zero =>
      have hnow := lower_add_upper 1 1 (Nat.zero_le (0 + b + 1))
      have hnext := lower_add_upper 1 1 (Nat.zero_le (0 + b + 1 + 1))
      rw [lower, Finset.sum_range_zero, zero_add] at hnow hnext
      rw [hnow, hnext, pow_succ, mul_comm]
    | succ a =>
      rw [upper_one_succ]
      have hanti := upper_anti 1 1 (a + 1 + b) (Nat.le_add_right a 1)
      omega
  have hcast : (2 : ℚ) * upper 1 1 (a + b) a ≤ upper 1 1 (a + b + 1) a := by exact_mod_cast hle
  rw [chance_eq, chance_eq, ← add_assoc, div_le_div_iff₀ (hpos _) (hpos _), pow_succ]
  calc (upper 1 1 (a + b) a : ℚ) * (2 ^ (a + b) * 2)
      = 2 * upper 1 1 (a + b) a * 2 ^ (a + b) := by ring
    _ ≤ upper 1 1 (a + b + 1) a * 2 ^ (a + b) := mul_le_mul_of_nonneg_right hcast (hpos _).le

/-- A success more. -/
theorem chance_success (a b : ℕ) : chance (a + 1) b ≤ chance a b := by
  have hpos (n : ℕ) : (0 : ℚ) < 2 ^ n := by positivity
  have hle : upper 1 1 (a + b + 1) (a + 1) ≤ 2 * upper 1 1 (a + b) a := by
    have hanti := upper_anti 1 1 (a + b) (Nat.le_add_right a 1)
    rw [upper_one_succ]
    omega
  have hcast : (upper 1 1 (a + b + 1) (a + 1) : ℚ) ≤ 2 * upper 1 1 (a + b) a := by
    exact_mod_cast hle
  have hsum : a + 1 + b = a + b + 1 := by omega
  rw [chance_eq, chance_eq, hsum, div_le_div_iff₀ (hpos _) (hpos _), pow_succ]
  calc (upper 1 1 (a + b + 1) (a + 1) : ℚ) * 2 ^ (a + b) ≤ 2 * upper 1 1 (a + b) a * 2 ^ (a + b) :=
        mul_le_mul_of_nonneg_right hcast (hpos _).le
    _ = upper 1 1 (a + b) a * (2 ^ (a + b) * 2) := by ring

theorem chance_mono (hsuccess : a ≤ c) (hfailure : d ≤ b) : chance c d ≤ chance a b := by
  have hmore : ∀ b, chance c b ≤ chance a b := fun b => by
    induction hsuccess with
    | refl => exact le_refl _
    | step _ ih => exact (chance_success _ b).trans ih
  have hless : chance c d ≤ chance c b := by
    induction hfailure with
    | refl => exact le_refl _
    | step _ ih => exact ih.trans (chance_failure c _)
  exact hless.trans (hmore b)

/-- The chance is within the level from the planned count on. -/
theorem chance_le_iff (a b : ℕ) (alpha : ℚ) : chance a b ≤ alpha ↔
    criticalCount (a + b) alpha ≤ a := by
  obtain ⟨hmem, hleast⟩ := criticalCount_least (a + b) alpha
  have hhalf : (0 : ℚ) < 1 / 2 ∧ (1 / 2 : ℚ) < 1 := by norm_num
  refine ⟨fun hle => hleast (Or.inl ⟨Nat.le_add_right a b, hle⟩), fun hle => ?_⟩
  rcases hmem with ⟨-, hwithin⟩ | hend
  · exact (tail_anti hhalf hle).trans hwithin
  · omega

end Chance

section Values

/-- What differs from a bound is above it or below it. -/
theorem countP_ne (bound : ℚ) (values : List ℚ) : values.countP (fun v => v ≠ bound) =
    values.countP (fun v => bound < v) + values.countP (fun v => v < bound) := by
  induction values with
  | nil => rfl
  | cons v values ih =>
    rw [List.countP_cons, List.countP_cons, List.countP_cons, ih]
    rcases lt_trichotomy v bound with hv | hv | hv
    · simp [hv, hv.ne, hv.not_gt, add_assoc]
    · simp [hv]
    · simp [hv, hv.ne', hv.not_gt, add_right_comm]

/-- The p-value is the chance of the counts above and below zero. -/
theorem signTestPvalue_eq (values : List ℚ) :
    signTestPvalue values = chance (values.countP (fun v => 0 < v))
      (values.countP (fun v => v < 0)) := by
  have hpos : (values.filter (fun v => v ≠ 0)).countP (fun v => 0 < v) =
    values.countP (fun v => 0 < v) := by
    rw [List.countP_filter]
    refine List.countP_congr fun v _ => ?_
    rw [Bool.and_eq_true, decide_eq_true_eq, decide_eq_true_eq]
    exact ⟨fun h => h.1, fun h => ⟨h, h.ne'⟩⟩
  have hlength : (values.filter (fun v => v ≠ 0)).length =
      values.countP (fun v => 0 < v) + values.countP (fun v => v < 0) := by
    rw [← List.countP_eq_length_filter, countP_ne]
  have hsum (n k : ℕ) : ((List.range' k (n + 1 - k)).map n.choose).sum = upper 1 1 n k := by
    rw [upper_one]
    rfl
  unfold signTestPvalue
  dsimp only
  rw [hpos, hlength, hsum, chance_eq]
  split_ifs with hzero
  · obtain ⟨hsuccess, hfailure⟩ := Nat.add_eq_zero_iff.mp hzero
    have hwhole : upper 1 1 0 0 = 1 := rfl
    rw [hsuccess, hfailure, hwhole, pow_zero, Nat.cast_one, div_one]
  · rfl

theorem countP_raised (hxy : x ≤ y) (bound : ℚ) :
    (pre ++ x :: post).countP (fun v => bound < v) ≤
      (pre ++ y :: post).countP (fun v => bound < v) ∧
    (pre ++ y :: post).countP (fun v => v < bound) ≤
      (pre ++ x :: post).countP (fun v => v < bound) := by
  have habove : (if decide (bound < x) then 1 else 0) ≤ if decide (bound < y) then 1 else 0 := by
    by_cases hx : bound < x
    · rw [if_pos (decide_eq_true hx), if_pos (decide_eq_true (hx.trans_le hxy))]
    · rw [if_neg (by simpa using hx)]
      exact Nat.zero_le _
  have hbelow : (if decide (y < bound) then 1 else 0) ≤ if decide (x < bound) then 1 else 0 := by
    by_cases hy : y < bound
    · rw [if_pos (decide_eq_true hy), if_pos (decide_eq_true (hxy.trans_lt hy))]
    · rw [if_neg (by simpa using hy)]
      exact Nat.zero_le _
  rw [List.countP_append, List.countP_append, List.countP_append, List.countP_append,
    List.countP_cons, List.countP_cons, List.countP_cons, List.countP_cons]
  exact ⟨by omega, by omega⟩

end Values

section Verdict

/-- The statistics of the runs that enter. -/
def entered (statistics : List (Option ℚ)) : List ℚ := statistics.filterMap id

/-- The p-values of a verdict, by the counts about the effect and its negative. -/
def winChance (minEffect : ℚ) (values : List ℚ) : ℚ :=
  chance (values.countP (fun d => minEffect < d)) (values.countP (fun d => d < minEffect))

def negativeChance (minEffect : ℚ) (values : List ℚ) : ℚ :=
  chance (values.countP (fun d => d < -minEffect)) (values.countP (fun d => -minEffect < d))

theorem signTestPvalue_win (minEffect : ℚ) (values : List ℚ) :
    signTestPvalue (values.map (fun d => d - minEffect)) = winChance minEffect values := by
  rw [signTestPvalue_eq, List.countP_map, List.countP_map, winChance]
  congr 1
  · exact List.countP_congr fun d _ => by simp
  · exact List.countP_congr fun d _ => by simp

theorem signTestPvalue_negative (minEffect : ℚ) (values : List ℚ) :
    signTestPvalue (values.map (fun d => -minEffect - d)) = negativeChance minEffect values := by
  rw [signTestPvalue_eq, List.countP_map, List.countP_map, negativeChance]
  congr 1
  · exact List.countP_congr fun d _ => by simp
  · exact List.countP_congr fun d _ => by simp

theorem winChance_nil (minEffect : ℚ) : winChance minEffect [] = 1 := by
  have hwhole : upper 1 1 0 0 = 1 := rfl
  rw [winChance, List.countP_nil, List.countP_nil, chance_eq, hwhole, pow_zero,
    Nat.cast_one, div_one]

theorem negativeChance_nil (minEffect : ℚ) : negativeChance minEffect [] = 1 :=
  winChance_nil minEffect

/-- What the two tests of a list of statistics make of it. -/
def result (statistics : List (Option ℚ)) (minEffect alpha : ℚ) : SignTestResult :=
  let pWin := winChance minEffect (entered statistics)
  let pNegative := negativeChance minEffect (entered statistics)
  ⟨if entered statistics = [] then .notExercised else if pWin ≤ alpha then .win
    else if pNegative ≤ alpha then .negative else .null,
    statistics.length, (entered statistics).length, pWin, pNegative⟩

theorem signTestVerdict_eq (heffect : 0 < minEffect) (statistics : List (Option ℚ)) (alpha : ℚ) :
    signTestVerdict statistics minEffect alpha = .ok (result statistics minEffect alpha) := by
  rw [signTestVerdict, if_neg (not_le.mpr heffect)]
  dsimp only
  change (if entered statistics = [] then _ else _) = _
  rw [signTestPvalue_win, signTestPvalue_negative, result]
  by_cases hnone : entered statistics = []
  · rw [if_pos hnone, if_pos hnone, hnone, winChance_nil, negativeChance_nil]
    rfl
  · rw [if_neg hnone, if_neg hnone]
    rfl

/-- Below a half the two tests never reject together. -/
theorem not_both (heffect : 0 < minEffect) (halpha : alpha < 1 / 2) (values : List ℚ) :
    ¬ (winChance minEffect values ≤ alpha ∧ negativeChance minEffect values ≤ alpha) := by
  rintro ⟨hwin, hnegative⟩
  have hmost := lt_of_chance_lt (hwin.trans_lt halpha)
  have hleast := lt_of_chance_lt (hnegative.trans_lt halpha)
  have habove : values.countP (fun d => minEffect < d) ≤
    values.countP (fun d => -minEffect < d) := by
    refine List.countP_mono_left fun d _ hd => ?_
    rw [decide_eq_true_eq] at hd ⊢
    linarith
  have hbelow : values.countP (fun d => d < -minEffect) ≤
    values.countP (fun d => d < minEffect) := by
    refine List.countP_mono_left fun d _ hd => ?_
    rw [decide_eq_true_eq] at hd ⊢
    linarith
  omega

theorem winChance_neg (minEffect : ℚ) (values : List ℚ) :
    winChance minEffect (values.map (fun d => -d)) = negativeChance minEffect values := by
  rw [winChance, negativeChance, List.countP_map, List.countP_map]
  congr 1
  · exact List.countP_congr fun d _ => by simp [lt_neg]
  · exact List.countP_congr fun d _ => by simp [neg_lt]

theorem negativeChance_neg (minEffect : ℚ) (values : List ℚ) :
    negativeChance minEffect (values.map (fun d => -d)) = winChance minEffect values := by
  have hback : (values.map (fun d => -d)).map (fun d => -d) = values := by simp
  rw [← winChance_neg, hback]

theorem winChance_perm {shuffled : List ℚ} (h : shuffled.Perm values) (minEffect : ℚ) :
    winChance minEffect shuffled = winChance minEffect values := by
  rw [winChance, winChance, h.countP_eq, h.countP_eq]

theorem negativeChance_perm {shuffled : List ℚ} (h : shuffled.Perm values) (minEffect : ℚ) :
    negativeChance minEffect shuffled = negativeChance minEffect values := by
  rw [negativeChance, negativeChance, h.countP_eq, h.countP_eq]

theorem winChance_raised (hxy : x ≤ y) (minEffect : ℚ) :
    winChance minEffect (pre ++ y :: post) ≤ winChance minEffect (pre ++ x :: post) :=
  chance_mono (countP_raised hxy minEffect).1 (countP_raised hxy minEffect).2

theorem negativeChance_raised (hxy : x ≤ y) (minEffect : ℚ) :
    negativeChance minEffect (pre ++ x :: post) ≤ negativeChance minEffect (pre ++ y :: post) :=
  chance_mono (countP_raised hxy (-minEffect)).2 (countP_raised hxy (-minEffect)).1

/-- What a verdict on a list of statistics keeps to. -/
structure VerdictLaws (statistics : List (Option ℚ)) (minEffect alpha : ℚ)
    (r : SignTestResult) : Prop where
  exclusive : ¬ (r.pWin ≤ alpha ∧ r.pNegative ≤ alpha)
  win : r.outcome = .win ↔ r.pWin ≤ alpha
  negative : r.outcome = .negative ↔ r.pNegative ≤ alpha
  unordered (shuffled : List (Option ℚ)) (h : shuffled.Perm statistics) :
    signTestVerdict shuffled minEffect alpha = .ok r
  swapped : ∃ r', signTestVerdict (statistics.map (Option.map (fun d => -d))) minEffect alpha =
    .ok r' ∧ r'.pWin = r.pNegative ∧ r'.pNegative = r.pWin
  raised (before : List (Option ℚ)) (x y : ℚ) (after : List (Option ℚ))
    (h : statistics = before ++ some x :: after) (hxy : x ≤ y) :
    ∃ r', signTestVerdict (before ++ some y :: after) minEffect alpha = .ok r' ∧
      r'.pWin ≤ r.pWin ∧ r.pNegative ≤ r'.pNegative
  planned : ∃ k, signTestCriticalCount ((entered statistics).countP (fun d => d ≠ minEffect))
    alpha = .ok k ∧ (r.pWin ≤ alpha ↔ k ≤ (entered statistics).countP (fun d => minEffect < d))

theorem result_win (halpha : alpha < 1 / 2) (statistics : List (Option ℚ)) (minEffect : ℚ) :
    (result statistics minEffect alpha).outcome = .win ↔
      winChance minEffect (entered statistics) ≤ alpha := by
  rw [result]
  dsimp only
  split_ifs with hnone hwin hnegative
  · rw [hnone, winChance_nil]
    exact ⟨fun h => (by cases h), fun h => by linarith⟩
  · exact ⟨fun _ => hwin, fun _ => rfl⟩
  · exact ⟨fun h => (by cases h), fun h => absurd h hwin⟩
  · exact ⟨fun h => (by cases h), fun h => absurd h hwin⟩

theorem result_negative (heffect : 0 < minEffect) (halpha : alpha < 1 / 2)
    (statistics : List (Option ℚ)) : (result statistics minEffect alpha).outcome = .negative ↔
      negativeChance minEffect (entered statistics) ≤ alpha := by
  rw [result]
  dsimp only
  split_ifs with hnone hwin hnegative
  · rw [hnone, negativeChance_nil]
    exact ⟨fun h => (by cases h), fun h => by linarith⟩
  · exact ⟨fun h => (by cases h), fun h => absurd ⟨hwin, h⟩ (not_both heffect halpha _)⟩
  · exact ⟨fun _ => hnegative, fun _ => rfl⟩
  · exact ⟨fun h => (by cases h), fun h => absurd h hnegative⟩

theorem entered_neg (statistics : List (Option ℚ)) :
    entered (statistics.map (Option.map (fun d => -d))) =
      (entered statistics).map (fun d => -d) := by
  rw [entered, entered, List.filterMap_map, List.map_filterMap]
  rfl

theorem entered_insert (before after : List (Option ℚ)) (x : ℚ) :
    entered (before ++ some x :: after) = entered before ++ x :: entered after := by
  rw [entered, List.filterMap_append]
  rfl

/-- Every verdict keeps to the laws. -/
theorem sign_test_verdict_laws (heffect : 0 < minEffect) (halpha : 0 < alpha ∧ alpha < 1 / 2)
    (statistics : List (Option ℚ)) :
    ∃ r, signTestVerdict statistics minEffect alpha = .ok r ∧
      VerdictLaws statistics minEffect alpha r := by
  refine ⟨_, signTestVerdict_eq heffect statistics alpha, ?_⟩
  refine ⟨not_both heffect halpha.2 _, result_win halpha.2 statistics minEffect,
    result_negative heffect halpha.2 statistics, fun shuffled h => ?_, ?_,
      fun before x y after h hxy => ?_, ?_⟩
  · have hentered : (entered shuffled).Perm (entered statistics) := h.filterMap id
    have hempty : entered shuffled = [] ↔ entered statistics = [] := by
      rw [← List.length_eq_zero_iff, hentered.length_eq, List.length_eq_zero_iff]
    rw [signTestVerdict_eq heffect, result, result, winChance_perm hentered,
      negativeChance_perm hentered, hentered.length_eq, h.length_eq, if_congr hempty rfl rfl]
  · refine ⟨_, signTestVerdict_eq heffect _ alpha, ?_, ?_⟩
    · change winChance minEffect (entered _) = negativeChance minEffect (entered statistics)
      rw [entered_neg, winChance_neg]
    · change negativeChance minEffect (entered _) = winChance minEffect (entered statistics)
      rw [entered_neg, negativeChance_neg]
  · subst h
    refine ⟨_, signTestVerdict_eq heffect _ alpha, ?_, ?_⟩
    · change winChance minEffect (entered _) ≤ winChance minEffect (entered _)
      rw [entered_insert, entered_insert]
      exact winChance_raised hxy minEffect
    · change negativeChance minEffect (entered _) ≤ negativeChance minEffect (entered _)
      rw [entered_insert, entered_insert]
      exact negativeChance_raised hxy minEffect
  · refine ⟨criticalCount ((entered statistics).countP (fun d => d ≠ minEffect)) alpha, ?_, ?_⟩
    · rw [signTestCriticalCount, if_neg (by omega), Int.toNat_natCast]
    · rw [countP_ne]
      exact chance_le_iff _ _ alpha

theorem sign_test_verdict_laws_two :
    ∃ r, signTestVerdict [some 1, none, some (1 / 10)] (1 / 10) alphaTest = .ok r ∧
    VerdictLaws [some 1, none, some (1 / 10)] (1 / 10) alphaTest r :=
  sign_test_verdict_laws (by norm_num) (by decide +kernel) _

end Verdict

end Kaine.Calibration
