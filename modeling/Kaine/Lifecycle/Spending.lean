import Kaine.Lib.LogTable
import Mathlib.Data.Rat.Cast.OfScientific

/-! Alpha spending over repeated looks (`kaine/lifecycle/individuation_stats.py`). How many looks
the spending rule stays within its total for. -/
namespace Kaine.Spending

structure ValueError where
  message : String
  deriving DecidableEq

variable {R : Type} [Field R]

/-- Quoted as an upper bound on the sum over n >= 2 of `1 / (n ln² n)`. -/
def spendingS : R := 2.1097

/-- The default of the `alpha_total` argument. -/
def defaultAlphaTotal : R := 0.05

/-- Per-look alpha for the k-th look, over the arithmetic and the `log` it is run with. -/
def spendingAlpha [LinearOrder R] (log : R → R) (k : ℤ) (alphaTotal : R) :
    Except ValueError R :=
  if k < 1 then .error ⟨"k must be at least 1"⟩
  else if ¬ (0 < alphaTotal ∧ alphaTotal < 1) then .error ⟨"alpha_total must lie in (0, 1)"⟩
  else .ok (alphaTotal / (spendingS * (k + 1) * log (k + 1) ^ 2))

/-- What the looks up to the given one spend together. -/
def spentAlpha [LinearOrder R] (log : R → R) (alphaTotal : R) : ℕ → Except ValueError R
  | 0 => .ok 0
  | k + 1 => do
    let spent ← spentAlpha log alphaTotal k
    let alpha ← spendingAlpha log (k + 1) alphaTotal
    return spent + alpha

open Real LogSeries LogTable

/-- The looks up to the given one spend no more than the total. -/
def WithinTotal (alphaTotal : ℝ) (looks : ℕ) : Prop :=
  ∃ spent, spentAlpha log alphaTotal looks = .ok spent ∧ spent ≤ alphaTotal

section
variable {alphaTotal : ℝ}

theorem spendingAlpha_ok (h0 : 0 < alphaTotal) (h1 : alphaTotal < 1) (k : ℕ) :
    spendingAlpha log (k + 1) alphaTotal = .ok (alphaTotal / spendingS * term (k + 2)) := by
  have hk : ¬ (k : ℤ) + 1 < 1 := by omega
  have hcast : (((k : ℤ) + 1 : ℤ) : ℝ) + 1 = k + 2 := by push_cast; ring
  rw [spendingAlpha, if_neg hk, if_neg (by simp [h0, h1]), hcast, term, div_mul_div_comm, mul_one,
    mul_assoc]

theorem spentAlpha_ok (h0 : 0 < alphaTotal) (h1 : alphaTotal < 1) (looks : ℕ) :
    spentAlpha log alphaTotal looks = .ok (alphaTotal / spendingS * partialSum looks) := by
  induction looks with
  | zero => simp [spentAlpha, partialSum]
  | succ k ih =>
    rw [spentAlpha, ih, spendingAlpha_ok h0 h1, partialSum_succ, mul_add]
    rfl

theorem spendingS_pos : (0 : ℝ) < spendingS := by norm_num [spendingS]

/-- The total drops out: whether it is kept depends on the number of looks alone. -/
theorem withinTotal_iff (h0 : 0 < alphaTotal) (h1 : alphaTotal < 1) (looks : ℕ) :
    WithinTotal alphaTotal looks ↔ partialSum looks ≤ spendingS := by
  have hS := spendingS_pos
  rw [WithinTotal, spentAlpha_ok h0 h1]
  constructor
  · rintro ⟨spent, hspent, hle⟩
    rw [← Except.ok.inj hspent, div_mul_eq_mul_div, div_le_iff₀ hS] at hle
    exact le_of_mul_le_mul_left hle h0
  · intro hle
    refine ⟨_, rfl, ?_⟩
    rw [div_mul_eq_mul_div, div_le_iff₀ hS]
    exact mul_le_mul_of_nonneg_left hle h0.le

end

/-- The first thousand terms, from twelve terms of `artanh` each and in eighteen digits. -/
theorem thousand_terms : ∃ r : Row, r.Encloses (10 ^ 18) 1000 ∧
    6908754779315 * 10 ^ 6 ≤ r.logLo ∧ r.logHi ≤ 6908754779318 * 10 ^ 6 ∧
    1965009379962 * 10 ^ 6 ≤ r.sumLo ∧ r.sumHi ≤ 1965009379974 * 10 ^ 6 :=
  ⟨row (10 ^ 18) 12 1000, row_encloses (by decide +kernel) 1000, by decide +kernel⟩

theorem partialSum_le (m : ℕ) :
    partialSum (1000 + m) ≤ spendingS + 1 / 23363.1 - 1 / log (1000 + 3 / 2 + m) := by
  obtain ⟨r, hr, hlo, -, -, hhi⟩ := thousand_terms
  have hlo' : (6.908754779315 : ℝ) ≤ r.logLo / 10 ^ 18 := by
    have : (6908754779315 * 10 ^ 6 : ℝ) ≤ r.logLo := by exact_mod_cast hlo
    rw [le_div_iff₀ (by norm_num)]
    linarith
  have hhi' : (r.sumHi : ℝ) / 10 ^ 18 ≤ 1.965009379974 := by
    have : (r.sumHi : ℝ) ≤ 1965009379974 * 10 ^ 6 := by exact_mod_cast hhi
    rw [div_le_iff₀ (by norm_num)]
    linarith
  have h := hr.partialSum_le (by norm_num) (by omega) m
  push_cast at h
  have hhead : 1 / ((r.logLo : ℝ) / 10 ^ 18 + 2 / (4 * 1000 + 5)) ≤
      1 / (6.908754779315 + 2 / (4 * 1000 + 5)) := by gcongr
  have hnum : (1.965009379974 : ℝ) + 1 / (6.908754779315 + 2 / (4 * 1000 + 5)) ≤
      spendingS + 1 / 23363.1 := by norm_num [spendingS]
  linarith

theorem lt_partialSum (m : ℕ) :
    spendingS + 1 / 23365.9 - 1 / log (1000 + 1 + m) < partialSum (1000 + m) := by
  obtain ⟨r, hr, hlo, hhi, hsum, -⟩ := thousand_terms
  have hlo' : (6908754779315 * 10 ^ 6 : ℝ) ≤ r.logLo := by exact_mod_cast hlo
  have hhi' : (r.logHi : ℝ) ≤ 6908754779318 * 10 ^ 6 := by exact_mod_cast hhi
  have hpos : (0 : ℝ) < r.logHi := by
    have := hr.logLo_le.trans hr.le_logHi
    linarith
  have hsum' : (1.965009379962 : ℝ) ≤ r.sumLo / 10 ^ 18 := by
    have : (1965009379962 * 10 ^ 6 : ℝ) ≤ r.sumLo := by exact_mod_cast hsum
    rw [le_div_iff₀ (by norm_num)]
    linarith
  have h := hr.le_partialSum (by norm_num) (by omega) (by norm_num) m
  push_cast at h
  have hhead : (10 : ℝ) ^ 18 / (6908754779318 * 10 ^ 6) ≤ 10 ^ 18 / r.logHi := by gcongr
  have hlast : ((10 : ℝ) ^ 18) ^ 2 / ((1000 + 1) * (r.logLo : ℝ) ^ 2) / 2 ≤
      (10 ^ 18) ^ 2 / ((1000 + 1) * (6908754779315 * 10 ^ 6) ^ 2) / 2 := by gcongr
  have hnum : spendingS + 1 / 23365.9 < (1.965009379962 : ℝ) + 10 ^ 18 / (6908754779318 * 10 ^ 6) -
      (10 ^ 18) ^ 2 / ((1000 + 1) * (6908754779315 * 10 ^ 6) ^ 2) / 2 := by norm_num [spendingS]
  linarith

theorem partialSum_le_spendingS {k : ℕ} (h : (k : ℝ) ≤ exp 23363) : partialSum k ≤ spendingS := by
  have hexp : (23364 : ℝ) ≤ exp 23363 := by
    have := add_one_le_exp (23363 : ℝ)
    linarith
  have hm : (1000 : ℝ) + (k - 1000 : ℕ) ≤ exp 23363 := by
    rcases le_total k 1000 with hk | hk
    · rw [Nat.sub_eq_zero_of_le hk]
      push_cast
      linarith
    · rw [Nat.cast_sub hk]
      push_cast
      linarith
  have hroom : exp 23363 + 3 / 2 ≤ exp 23363.1 := by
    have hstep := add_one_le_exp (0.1 : ℝ)
    rw [show (23363.1 : ℝ) = 23363 + 0.1 by norm_num, exp_add]
    nlinarith
  have hlog : log (1000 + 3 / 2 + (k - 1000 : ℕ)) ≤ 23363.1 := by
    rw [log_le_iff_le_exp (by positivity)]
    linarith
  have hinv : 1 / (23363.1 : ℝ) ≤ 1 / log (1000 + 3 / 2 + (k - 1000 : ℕ)) := by
    refine one_div_le_one_div_of_le (log_pos ?_) hlog
    have := (k - 1000).cast_nonneg (α := ℝ)
    linarith
  have hle := partialSum_le (k - 1000)
  have hmono := strictMono_partialSum.monotone (show k ≤ 1000 + (k - 1000) by omega)
  linarith

theorem spendingS_lt_partialSum {k : ℕ} (h : 23366 ≤ log (k + 1)) : spendingS < partialSum k := by
  have hk : 1000 ≤ k := by
    have hexp := add_one_le_exp (23366 : ℝ)
    have hle := (le_log_iff_exp_le (by positivity)).mp h
    have : (1000 : ℝ) ≤ k := by linarith
    exact_mod_cast this
  obtain ⟨m, rfl⟩ := Nat.exists_eq_add_of_le hk
  have hlt := lt_partialSum m
  have hcast : ((1000 + m : ℕ) : ℝ) + 1 = 1000 + 1 + m := by push_cast; ring
  rw [hcast] at h
  have hinv : 1 / log (1000 + 1 + (m : ℝ)) ≤ 1 / 23365.9 :=
    one_div_le_one_div_of_le (by norm_num) ((by norm_num : (23365.9 : ℝ) ≤ 23366).trans h)
  linarith

/-- One number of looks, the same for all totals, is the first that the rule cannot be trusted
with. -/
theorem spending_within_total (totals : Set ℝ) (htotals : totals ⊆ Set.Ioo 0 1) :
    ∃ limit : ℕ, exp 23363 < limit ∧ (limit : ℝ) ≤ exp 23366 ∧
      ∀ alphaTotal ∈ totals, ∀ looks, WithinTotal alphaTotal looks ↔ looks < limit := by
  have hexceeds : ∃ k, spendingS < partialSum k := by
    refine ⟨⌈exp 23366⌉₊, spendingS_lt_partialSum ?_⟩
    rw [le_log_iff_exp_le (by positivity)]
    have := Nat.le_ceil (exp 23366)
    linarith
  obtain ⟨limit, hlimit⟩ := exists_crossing hexceeds
  refine ⟨limit, ?_, ?_, ?_⟩
  · by_contra hle
    have hself := (hlimit limit).mp (partialSum_le_spendingS (not_lt.mp hle))
    omega
  · by_contra hgt
    have hpos : 0 < limit := by
      rcases Nat.eq_zero_or_pos limit with rfl | hpos
      · have := exp_pos 23366
        simp only [Nat.cast_zero] at hgt
        linarith
      · exact hpos
    have hle := (hlimit (limit - 1)).mpr (by omega)
    refine absurd hle (not_le.mpr (spendingS_lt_partialSum ?_))
    rw [Nat.cast_pred hpos, sub_add_cancel, le_log_iff_exp_le (by positivity)]
    exact (not_le.mp hgt).le
  · intro alphaTotal hmem looks
    obtain ⟨h0, h1⟩ := htotals hmem
    rw [withinTotal_iff h0 h1, hlimit]

theorem spending_within_every_total : ∃ limit : ℕ, exp 23363 < limit ∧ (limit : ℝ) ≤ exp 23366 ∧
    ∀ alphaTotal ∈ Set.Ioo (0 : ℝ) 1, ∀ looks, WithinTotal alphaTotal looks ↔ looks < limit :=
  spending_within_total (Set.Ioo 0 1) subset_rfl

theorem log_pow_ten (n : ℕ) : n * 2.3025 ≤ log ((10 ^ n : ℕ) + 1) := by
  have hrow : (row (10 ^ 18) 12 9).Encloses (10 ^ 18) 9 := row_encloses (by decide) 9
  have hten : (2.3025 : ℝ) ≤ log 10 := by
    have hlo : 23025 * 10 ^ 14 ≤ (row (10 ^ 18) 12 9).logLo := by decide
    have hlo' : (23025 * 10 ^ 14 : ℝ) ≤ (row (10 ^ 18) 12 9).logLo := by exact_mod_cast hlo
    have hle := hlo'.trans hrow.logLo_le
    push_cast at hle
    rw [show (9 : ℝ) + 1 = 10 by norm_num] at hle
    linarith
  calc n * 2.3025 ≤ n * log 10 := by gcongr
    _ = log (10 ^ n) := (log_pow 10 n).symm
    _ ≤ log ((10 ^ n : ℕ) + 1) := by
      refine log_le_log (by positivity) ?_
      rw [Nat.cast_pow, Nat.cast_ofNat]
      exact le_add_of_nonneg_right zero_le_one

theorem spending_exceeds_total : ∃ spent : ℝ,
    spentAlpha log defaultAlphaTotal (10 ^ 10150) = .ok spent ∧ defaultAlphaTotal < spent := by
  have hlog : 23366 ≤ log ((10 ^ 10150 : ℕ) + 1) :=
    (by norm_num : (23366 : ℝ) ≤ (10150 : ℕ) * 2.3025).trans (log_pow_ten 10150)
  have h0 : (0 : ℝ) < defaultAlphaTotal := by norm_num [defaultAlphaTotal]
  refine ⟨_, spentAlpha_ok h0 (by norm_num [defaultAlphaTotal]) _, ?_⟩
  rw [div_mul_eq_mul_div, lt_div_iff₀ spendingS_pos]
  exact mul_lt_mul_of_pos_left (spendingS_lt_partialSum hlog) h0

end Kaine.Spending
