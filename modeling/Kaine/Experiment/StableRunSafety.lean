import Kaine.Experiment.SignTest
import Mathlib.Algebra.BigOperators.Field
import Mathlib.Tactic.FieldSimp

/-! The counts, the powers and the number of runs of the sign test are those of their
definitions. -/
namespace Kaine.Calibration
open Binomial

variable {n k a c i steps candidate : ℕ} {q alpha target : ℚ} {horizon : ℤ}

/-- The chance of at least so many of one kind, each of that kind with the given chance. -/
def tail (q : ℚ) (n k : ℕ) : ℚ := ∑ i ∈ Finset.Icc k n, n.choose i * q ^ i * (1 - q) ^ (n - i)

/-- Every division of the loop that adds terms leaves no remainder. -/
def TermsExact (n a c : ℕ) : ℕ → ℕ → ℕ → Prop
  | 0, _, _ => True
  | steps + 1, i, term =>
    (i + 1) * c ∣ term * (n - i) * a ∧
      TermsExact n a c steps (i + 1) (term * (n - i) * a / ((i + 1) * c))

/-- Every division of the walk down to the critical count leaves no remainder. -/
def WalkExact (n : ℕ) (alpha : ℚ) : ℕ → ℕ → ℕ → Prop
  | 0, _, _ => True
  | candidate + 1, binom, tail =>
    (candidate < n → n - candidate ∣ binom * (candidate + 1)) ∧
    let binom := if candidate < n then binom * (candidate + 1) / (n - candidate) else binom
    overLevel n alpha (tail + binom) = false → WalkExact n alpha candidate binom (tail + binom)

/-- The divisions of both functions, the one that advances the binomial to the first term
included. -/
structure DivisionsExact (n : ℕ) (q alpha : ℚ) : Prop where
  power (hk : criticalCount n alpha ≤ n) : let a := q.num.toNat; let k := criticalCount n alpha
    TermsExact n a (q.den - a) (n - k) k (n.choose k * a ^ k * (q.den - a) ^ (n - k))
  walk : WalkExact n alpha (n + 1) 1 0
  first : let found := criticalWalk n alpha (n + 1) 1 0
    0 < found.1 → found.1 ≤ n → found.1 ∣ found.2 * (n - found.1 + 1)
  search : let found := criticalWalk n alpha (n + 1) 1 0; let a := q.num.toNat
    found.1 ≤ n → TermsExact n a (q.den - a) (n - found.1) found.1 (firstTerm n a (q.den - a) found)

section Divisions

theorem termsExact (hc : 0 < c) (hi : i + steps ≤ n) :
    TermsExact n a c steps i (weight a c n i) := by
  induction steps generalizing i with
  | zero => trivial
  | succ steps ih =>
    refine ⟨?_, ?_⟩
    · rw [weight_step a c (by omega)]
      exact Nat.dvd_mul_left _ _
    · rw [weight_succ (by omega) hc]
      exact ih (by omega)

theorem walkExact (alpha : ℚ) (hk : k ≤ n) (tail : ℕ) : WalkExact n alpha k (n.choose k) tail := by
  induction k generalizing tail with
  | zero => trivial
  | succ k ih =>
    have hproduct : n.choose (k + 1) * (k + 1) = n.choose k * (n - k) :=
      Nat.choose_succ_right_eq n k
    refine ⟨fun _ => ?_, ?_⟩
    · rw [hproduct]
      exact Nat.dvd_mul_left _ _
    · rw [if_pos (by omega), hproduct, Nat.mul_div_cancel _ (by omega)]
      exact fun _ => ih (by omega) _

theorem walkExact_top (n : ℕ) (alpha : ℚ) : WalkExact n alpha (n + 1) 1 0 := by
  have h := walkExact alpha (le_refl n) (0 + 1)
  rw [Nat.choose_self] at h
  refine ⟨fun hlt => absurd hlt (lt_irrefl n), ?_⟩
  rw [if_neg (lt_irrefl n)]
  exact fun _ => h

theorem divisionsExact (hq : 0 < q ∧ q < 1) (n : ℕ) (alpha : ℚ) : DivisionsExact n q alpha := by
  obtain ⟨-, hlt⟩ := num_lt_den hq
  have hc : 0 < q.den - q.num.toNat := Nat.sub_pos_of_lt hlt
  have hterms (hk : criticalCount n alpha ≤ n) :
      TermsExact n q.num.toNat (q.den - q.num.toNat) (n - criticalCount n alpha)
        (criticalCount n alpha) (weight q.num.toNat (q.den - q.num.toNat) n
          (criticalCount n alpha)) :=
    termsExact hc (le_of_eq (Nat.add_sub_cancel' hk))
  refine ⟨hterms, walkExact_top n alpha, ?_, ?_⟩
  · rw [criticalWalk_top]
    intro found hpos hle
    change 0 < criticalCount n alpha at hpos
    change criticalCount n alpha ≤ n at hle
    change criticalCount n alpha ∣ n.choose (criticalCount n alpha - 1) *
      (n - criticalCount n alpha + 1)
    obtain ⟨k, hk⟩ : ∃ k, criticalCount n alpha = k + 1 := ⟨_, (Nat.succ_pred_eq_of_pos hpos).symm⟩
    rw [hk] at hle ⊢
    have hrest : n - (k + 1) + 1 = n - k := by omega
    rw [hrest, Nat.add_sub_cancel, ← Nat.choose_succ_right_eq]
    exact Nat.dvd_mul_left _ _
  · rw [criticalWalk_top]
    intro found a hle
    rw [firstTerm_eq hle]
    exact hterms hle

end Divisions

section Tail

/-- The weights over the whole are the chances. -/
theorem tail_eq (hac : a < c) (n k : ℕ) :
    tail ((a : ℚ) / c) n k = (upper a (c - a) n k : ℚ) / (c : ℚ) ^ n := by
  have hc : (c : ℚ) ≠ 0 := by
    have hpos : 0 < c := by omega
    exact_mod_cast Nat.pos_iff_ne_zero.mp hpos
  rw [tail, upper, Nat.cast_sum, Finset.sum_div, Finset.Ico_add_one_right_eq_Icc]
  refine Finset.sum_congr rfl fun i hi => ?_
  have hin : i ≤ n := (Finset.mem_Icc.mp hi).2
  have hrest : 1 - (a : ℚ) / c = ((c - a : ℕ) : ℚ) / c := by
    rw [Nat.cast_sub hac.le, sub_div, div_self hc]
  have hpow : (c : ℚ) ^ n = c ^ i * c ^ (n - i) := by rw [← pow_add, Nat.add_sub_cancel' hin]
  rw [hrest, weight, div_pow, div_pow, hpow]
  push_cast
  field_simp

theorem tail_half (n k : ℕ) : tail (1 / 2) n k = (upper 1 1 n k : ℚ) / 2 ^ n := by
  have h := tail_eq (show 1 < 2 by decide) n k
  rw [Nat.cast_one] at h
  exact h

theorem tail_rat (hq : 0 < q ∧ q < 1) (n k : ℕ) :
    tail q n k = (upper q.num.toNat (q.den - q.num.toNat) n k : ℚ) / (q.den : ℚ) ^ n := by
  obtain ⟨-, hlt⟩ := num_lt_den hq
  have hnum : ((q.num.toNat : ℕ) : ℚ) = q.num := by
    have hpos : 0 ≤ q.num := Rat.num_nonneg.mpr hq.1.le
    exact_mod_cast Int.toNat_of_nonneg hpos
  have h := tail_eq hlt n k
  rwa [hnum, Rat.num_div_den] at h

theorem tail_anti (hq : 0 < q ∧ q < 1) {l : ℕ} (h : k ≤ l) : tail q n l ≤ tail q n k := by
  rw [tail_rat hq, tail_rat hq]
  have hle : (upper q.num.toNat (q.den - q.num.toNat) n l : ℚ) ≤
    upper q.num.toNat (q.den - q.num.toNat) n k := by
    exact_mod_cast upper_anti _ _ n h
  exact div_le_div_of_nonneg_right hle (by positivity)

theorem overLevel_iff (n : ℕ) (alpha : ℚ) (k : ℕ) :
    overLevel n alpha (upper 1 1 n k) = true ↔ alpha < tail (1 / 2) n k := by
  have hden : (0 : ℚ) < alpha.den := by exact_mod_cast alpha.den_pos
  have hpow : (0 : ℚ) < 2 ^ n := by positivity
  rw [tail_half, lt_div_iff₀ hpow, overLevel, decide_eq_true_eq]
  conv_rhs => rw [← Rat.num_div_den alpha, div_mul_eq_mul_div, div_lt_iff₀ hden]
  norm_cast

theorem overLevel_false_iff (n : ℕ) (alpha : ℚ) (k : ℕ) :
    overLevel n alpha (upper 1 1 n k) = false ↔ tail (1 / 2) n k ≤ alpha := by
  rw [← not_lt, ← overLevel_iff, Bool.not_eq_true]

/-- The critical count is the least whose chance under no effect is within the level, or one more
than all. -/
theorem criticalCount_least (n : ℕ) (alpha : ℚ) :
    IsLeast {k | k ≤ n ∧ tail (1 / 2) n k ≤ alpha ∨ k = n + 1} (criticalCount n alpha) := by
  obtain ⟨hle, hwithin, hbelow⟩ := criticalCountFrom_spec (n := n) alpha (le_refl (n + 1))
  rw [upper_end] at hle hwithin hbelow
  change criticalCount n alpha ≤ n + 1 at hle
  refine ⟨?_, fun j hj => ?_⟩
  · rcases Nat.lt_or_ge (criticalCount n alpha) (n + 1) with hlt | hge
    · left
      exact ⟨by omega, (overLevel_false_iff n alpha _).mp (hwithin _ hlt (le_refl _))⟩
    · exact Or.inr (by omega)
  · rcases hj with ⟨hjn, hj⟩ | rfl
    · by_contra hlt
      obtain ⟨k, hk⟩ : ∃ k, criticalCount n alpha = k + 1 := ⟨criticalCount n alpha - 1, by omega⟩
      have hover : alpha < tail (1 / 2) n k := (overLevel_iff n alpha k).mp (hbelow k hk (by omega))
      have hhalf : (0 : ℚ) < 1 / 2 ∧ (1 / 2 : ℚ) < 1 := by norm_num
      have hanti : tail (1 / 2) n k ≤ tail (1 / 2) n j := tail_anti hhalf (by omega)
      exact absurd (lt_of_lt_of_le hover hanti) (not_lt.mpr hj)
    · exact hle

theorem power_eq_tail (hq : 0 < q ∧ q < 1) (n : ℕ) (alpha : ℚ) :
    power n q alpha = tail q n (criticalCount n alpha) := by
  rw [power_eq_upper hq, tail_rat hq]

end Tail

section Search

/-- The last number of runs whose power misses the target, and none after it does. -/
theorem lastBelow_spec (hq : 0 < q ∧ q < 1) (target alpha : ℚ) (horizon : ℕ) :
    lastBelow q target alpha horizon ≤ horizon ∧
    (0 < lastBelow q target alpha horizon →
      power (lastBelow q target alpha horizon) q alpha < target) ∧
    ∀ m, lastBelow q target alpha horizon < m → m ≤ horizon → target ≤ power m q alpha := by
  induction horizon with
  | zero =>
    refine ⟨le_refl 0, fun hpos => absurd hpos (lt_irrefl 0), fun m hm hle => ?_⟩
    exact absurd (lt_of_lt_of_le hm hle) (lt_irrefl 0)
  | succ horizon ih =>
    obtain ⟨hle, hmissed, hreached⟩ := ih
    have hstep : lastBelow q target alpha (horizon + 1) =
        if power (horizon + 1) q alpha < target then horizon + 1
          else lastBelow q target alpha horizon := by
      rw [lastBelow, List.range_succ, List.foldl_append, List.foldl_cons, List.foldl_nil,
        binomialPowerForN_eq_power hq]
      rfl
    rw [hstep]
    by_cases hmiss : power (horizon + 1) q alpha < target
    · rw [if_pos hmiss]
      exact ⟨le_refl _, fun _ => hmiss,
        fun m hm hle => absurd (lt_of_lt_of_le hm hle) (lt_irrefl _)⟩
    · rw [if_neg hmiss]
      refine ⟨Nat.le_succ_of_le hle, hmissed, fun m hm hmle => ?_⟩
      rcases Nat.le_succ_iff.mp hmle with hmle | rfl
      · exact hreached m hm hmle
      · exact not_lt.mp hmiss

theorem power_zero (hq : 0 < q ∧ q < 1) (halpha : alpha < 1) : power 0 q alpha = 0 := by
  obtain ⟨hmem, -⟩ := criticalCount_least 0 alpha
  have hone : tail (1 / 2) 0 0 = 1 := by
    have hwhole : upper 1 1 0 0 = 1 := rfl
    rw [tail_half, hwhole, Nat.cast_one, pow_zero, div_one]
  have hcount : criticalCount 0 alpha = 0 + 1 := by
    rcases hmem with ⟨hzero, hwithin⟩ | hcount
    · rw [Nat.le_zero.mp hzero, hone] at hwithin
      exact absurd halpha (not_lt.mpr hwithin)
    · exact hcount
  rw [power_eq_upper hq, hcount, upper_end, Nat.cast_zero, zero_div]

theorem power_le_one (hq : 0 < q ∧ q < 1) (n : ℕ) (alpha : ℚ) : power n q alpha ≤ 1 := by
  obtain ⟨-, hlt⟩ := num_lt_den hq
  have hpos : (0 : ℚ) < (q.den : ℚ) ^ n := pow_pos (by exact_mod_cast q.den_pos) n
  have hwhole := lower_add_upper q.num.toNat (q.den - q.num.toNat) (criticalCount_le n alpha)
  rw [Nat.add_sub_cancel' hlt.le] at hwhole
  have hupper : upper q.num.toNat (q.den - q.num.toNat) n (criticalCount n alpha) ≤ q.den ^ n :=
    hwhole ▸ Nat.le_add_left _ _
  rw [power_eq_upper hq, div_le_one hpos]
  exact_mod_cast hupper

theorem signTestPower_nat (hq : 0 < q ∧ q < 1) (n : ℕ) (alpha : ℚ) :
    signTestPower n q alpha = .ok (power n q alpha) := by
  rw [signTestPower, if_neg (by omega), if_neg (not_not.mpr hq), Int.toNat_natCast]

theorem horizon_toNat (hhorizon : 1 ≤ horizon) : (horizon.toNat : ℤ) = horizon :=
  Int.toNat_of_nonneg (by omega)

/-- What the search returns is the least number from which on the power reaches the target. -/
theorem stableRunCount_least (hq : 0 < q ∧ q < 1) (halpha : alpha < 1) {n : ℕ}
    (hcount : stableRunCount q target alpha horizon = .ok n) :
    IsLeast {n : ℕ | ∀ m : ℕ, n ≤ m → (m : ℤ) ≤ horizon →
      ∃ p, signTestPower m q alpha = .ok p ∧ target ≤ p} n := by
  obtain ⟨hle, hmissed, hreached⟩ := lastBelow_spec hq target alpha horizon.toNat
  have hrefused (text : String) : fail text ≠ (.ok n : Calibrated ℕ) := fun h => by cases h
  have htarget : 0 < target ∧ target ≤ 1 := by
    by_contra hout
    rw [stableRunCount, if_neg (not_not.mpr hq), if_pos hout] at hcount
    exact hrefused _ hcount
  have hhorizon : ¬ horizon < 1 := by
    intro hout
    rw [stableRunCount, if_neg (not_not.mpr hq), if_neg (not_not.mpr htarget), if_pos hout]
      at hcount
    exact hrefused _ hcount
  rw [stableRunCount, if_neg (not_not.mpr hq), if_neg (not_not.mpr htarget), if_neg hhorizon]
    at hcount
  have hlast : ¬ (lastBelow q target alpha horizon.toNat : ℤ) = horizon := by
    intro hlast
    rw [if_pos hlast] at hcount
    cases hcount
  rw [if_neg hlast] at hcount
  have hn : n = lastBelow q target alpha horizon.toNat + 1 := (Except.ok.inj hcount).symm
  subst hn
  generalize lastBelow q target alpha horizon.toNat = last at hle hmissed hreached hlast
  refine ⟨fun m hm hmle => ⟨_, signTestPower_nat hq m alpha, hreached m hm (by omega)⟩,
    fun k hk => ?_⟩
  by_contra hlt
  obtain ⟨p, hp, hle⟩ := hk last (by omega) (by omega)
  rw [signTestPower_nat hq] at hp
  rw [← Except.ok.inj hp] at hle
  rcases Nat.eq_zero_or_pos last with rfl | hpos
  · rw [power_zero hq halpha] at hle
    exact absurd htarget.1 (not_lt.mpr hle)
  · exact absurd (hmissed hpos) (not_lt.mpr hle)

theorem stableRunCount_error_iff (hq : 0 < q ∧ q < 1) (target alpha : ℚ) (horizon : ℤ) :
    (∃ e, stableRunCount q target alpha horizon = .error e) ↔
      target ≤ 0 ∨ horizon < 1 ∨ ∃ p, signTestPower horizon q alpha = .ok p ∧ p < target := by
  rw [stableRunCount, if_neg (not_not.mpr hq)]
  by_cases hhorizon : horizon < 1
  · refine ⟨fun _ => Or.inr (Or.inl hhorizon), fun _ => ?_⟩
    split_ifs
    · exact ⟨_, rfl⟩
    · exact ⟨_, rfl⟩
  obtain ⟨hle, hmissed, hreached⟩ := lastBelow_spec hq target alpha horizon.toNat
  have hcast := horizon_toNat (not_lt.mp hhorizon)
  have hpower : signTestPower horizon q alpha = .ok (power horizon.toNat q alpha) := by
    have h := signTestPower_nat hq horizon.toNat alpha
    rwa [hcast] at h
  rw [hpower, if_neg hhorizon]
  by_cases htarget : 0 < target ∧ target ≤ 1
  · rw [if_neg (not_not.mpr htarget)]
    dsimp only
    by_cases hlast : (lastBelow q target alpha horizon.toNat : ℤ) = horizon
    · rw [if_pos hlast]
      have hsame : lastBelow q target alpha horizon.toNat = horizon.toNat := by omega
      rw [hsame] at hmissed
      exact ⟨fun _ => Or.inr (Or.inr ⟨_, rfl, hmissed (by omega)⟩), fun _ => ⟨_, rfl⟩⟩
    · rw [if_neg hlast]
      refine ⟨fun ⟨e, he⟩ => (by cases he), fun h => ?_⟩
      rcases h with h | h | ⟨p, hp, hlt⟩
      · exact absurd htarget.1 (not_lt.mpr h)
      · exact absurd h hhorizon
      · rw [← Except.ok.inj hp] at hlt
        exact absurd hlt (not_lt.mpr (hreached _ (by omega) (le_refl _)))
  · rw [if_pos htarget]
    refine ⟨fun _ => ?_, fun _ => ⟨_, rfl⟩⟩
    rcases le_or_gt target 0 with hlow | hlow
    · exact Or.inl hlow
    · have hhigh : 1 < target := not_le.mp fun h => htarget ⟨hlow, h⟩
      exact Or.inr (Or.inr ⟨_, rfl, lt_of_le_of_lt (power_le_one hq _ _) hhigh⟩)

/-- The counts, the powers and the stable number of runs for a share and a level. -/
theorem stable_run_count_defined (hq : 0 < q ∧ q < 1) (halpha : 0 < alpha ∧ alpha < 1) :
    (∀ n : ℕ, ∃ k, IsLeast {k | k ≤ n ∧ tail (1 / 2) n k ≤ alpha ∨ k = n + 1} k ∧
      signTestCriticalCount n alpha = .ok k ∧ signTestPower n q alpha = .ok (tail q n k) ∧
      binomialPowerForN n alpha q.num.toNat q.den = tail q n k ∧ DivisionsExact n q alpha) ∧
    (∀ n < 0, (∃ e, signTestCriticalCount n alpha = .error e) ∧
      ∃ e, signTestPower n q alpha = .error e) ∧
    ∀ (target : ℚ) (horizon : ℤ),
      (∀ n, stableRunCount q target alpha horizon = .ok n →
        IsLeast {n : ℕ | ∀ m : ℕ, n ≤ m → (m : ℤ) ≤ horizon →
          ∃ p, signTestPower m q alpha = .ok p ∧ target ≤ p} n) ∧
      ((∃ e, stableRunCount q target alpha horizon = .error e) ↔
        target ≤ 0 ∨ horizon < 1 ∨ ∃ p, signTestPower horizon q alpha = .ok p ∧ p < target) := by
  refine ⟨fun n => ⟨criticalCount n alpha, criticalCount_least n alpha, ?_, ?_, ?_,
    divisionsExact hq n alpha⟩, fun n hn => ⟨⟨_, if_pos hn⟩, ⟨_, if_pos hn⟩⟩, fun target horizon =>
      ⟨fun n => ?_, ?_⟩⟩
  · rw [signTestCriticalCount, if_neg (by omega), Int.toNat_natCast]
  · rw [signTestPower_nat hq, power_eq_tail hq]
  · rw [binomialPowerForN_eq_power hq, power_eq_tail hq]
  · exact stableRunCount_least hq halpha.2
  · exact stableRunCount_error_iff hq target alpha horizon

theorem stable_run_count_defined_test :
    ∃ k, signTestPower 5 qPow alphaTest = .ok (tail qPow 5 k) := by
  have halpha : 0 < alphaTest ∧ alphaTest < 1 := by decide +kernel
  obtain ⟨k, -, -, hpower, -⟩ := (stable_run_count_defined qPow_mem halpha).1 5
  exact ⟨k, hpower⟩

/-- A target of zero is refused, though no power is below it. -/
theorem zero_target_refused : (∃ e, stableRunCount qPow 0 alphaTest 5 = .error e) ∧
    ∃ p, signTestPower 5 qPow alphaTest = .ok p ∧ 0 ≤ p :=
  ⟨(stableRunCount_error_iff qPow_mem 0 alphaTest 5).mpr (Or.inl (le_refl 0)), _,
    signTestPower_eq 5, by decide +kernel⟩

end Search

end Kaine.Calibration
