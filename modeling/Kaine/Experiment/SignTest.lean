import Kaine.Lib.BinomialTail
import Mathlib.Algebra.Order.Field.Basic

/-! The exact power and the verdict of the sign test, and the number of runs that is planned by it
(`kaine/experiment/calibration_rules.py`): the least from which on the power reaches its target. -/
namespace Kaine.Calibration

def qPow : ℚ := 13 / 20
def targetPower : ℚ := 9 / 10
def alphaTest : ℚ := 1 / 20
def powerHorizon : ℤ := 1000
def nExact : ℕ := 102

/-- What a calibration rule raises: a message, or that of a power which misses its target. -/
inductive CalibrationError where
  | message (text : String)
  | belowTarget (horizon : ℤ) (target : ℚ)

abbrev Calibrated (α : Type) := Except CalibrationError α

def fail {α : Type} (text : String) : Calibrated α := .error (.message text)

/-- Whether a tail of so much of `2 ^ n` is over the level. -/
def overLevel (n : ℕ) (alpha : ℚ) (tail : ℕ) : Bool := alpha.num * 2 ^ n < tail * alpha.den

/-- The walk down from one above `k`, with the tail that starts there. -/
def criticalCountFrom (n : ℕ) (alpha : ℚ) : ℕ → ℕ → ℕ
  | 0, _ => 0
  | k + 1, tail =>
    if overLevel n alpha (tail + n.choose k) then k + 1
      else criticalCountFrom n alpha k (tail + n.choose k)

/-- `sign_test_critical_count` of a number that is not negative. -/
def criticalCount (n : ℕ) (alpha : ℚ) : ℕ := criticalCountFrom n alpha (n + 1) 0

def signTestCriticalCount (n : ℤ) (alpha : ℚ) : Calibrated ℕ :=
  if n < 0 then fail "sign test critical count: n must be non-negative"
    else .ok (criticalCount n.toNat alpha)

/-- So many steps of the loop that adds the terms after the given one; `c` is `b - a`. -/
def addTerms (n a c : ℕ) : ℕ → ℕ → ℕ → ℕ → ℕ
  | 0, _, _, total => total
  | steps + 1, i, term, total =>
    let next := term * (n - i) * a / ((i + 1) * c)
    addTerms n a c steps (i + 1) next (total + next)

/-- The numerator of the power, from the term of the critical count on. -/
def powerTotal (n a c k term : ℕ) : ℕ := addTerms n a c (n - k) k term term

def power (n : ℕ) (q alpha : ℚ) : ℚ :=
  let k := criticalCount n alpha
  let a := q.num.toNat
  let c := q.den - a
  if n < k then 0 else powerTotal n a c k (n.choose k * a ^ k * c ^ (n - k)) / (q.den : ℚ) ^ n

def signTestPower (n : ℤ) (q alpha : ℚ) : Calibrated ℚ :=
  if n < 0 then fail "sign test power: n must be non-negative"
  else if ¬ (0 < q ∧ q < 1)
    then fail "sign test power: q must be a Fraction strictly between 0 and 1"
  else .ok (power n.toNat q alpha)

/-- The walk of `_binomial_power_for_n`: the critical count, and the binomial that was reached. -/
def criticalWalk (n : ℕ) (alpha : ℚ) : ℕ → ℕ → ℕ → ℕ × ℕ
  | 0, binom, _ => (0, binom)
  | candidate + 1, binom, tail =>
    let binom := if candidate < n then binom * (candidate + 1) / (n - candidate) else binom
    if overLevel n alpha (tail + binom) then (candidate + 1, binom)
    else criticalWalk n alpha candidate binom (tail + binom)

/-- The term at the critical count, from the binomial below it. -/
def firstTerm (n a c : ℕ) (found : ℕ × ℕ) : ℕ :=
  let binom := if found.1 = 0 then found.2 else found.2 * (n - found.1 + 1) / found.1
  binom * a ^ found.1 * c ^ (n - found.1)

/-- `_binomial_power_for_n`; the tables that it is handed hold the powers of `a`, `b - a` and
`b`. -/
def binomialPowerForN (n : ℕ) (alpha : ℚ) (a b : ℕ) : ℚ :=
  let found := criticalWalk n alpha (n + 1) 1 0
  if n < found.1 then 0 else powerTotal n a (b - a) found.1
    (firstTerm n a (b - a) found) / (b : ℚ) ^ n

/-- `last_below` after the numbers of runs from 1 up to the horizon. -/
def lastBelow (q target alpha : ℚ) (horizon : ℕ) : ℕ :=
  (List.range horizon).foldl
    (fun last i => if binomialPowerForN (i + 1) alpha q.num.toNat q.den < target then i + 1
      else last) 0

def stableRunCount (q target alpha : ℚ) (horizon : ℤ) : Calibrated ℕ :=
  if ¬ (0 < q ∧ q < 1) then fail "stable run count: q must be a Fraction strictly between 0 and 1"
  else if ¬ (0 < target ∧ target ≤ 1) then
    fail "stable run count: target power must be a Fraction between 0 and 1"
  else if horizon < 1 then fail "stable run count: horizon must be a positive integer"
  else
    let last := lastBelow q target alpha horizon.toNat
    if last = horizon then .error (.belowTarget horizon target) else .ok (last + 1)

inductive Outcome where
  | win
  | null
  | negative
  | notExercised
  deriving DecidableEq, Repr

structure SignTestResult where
  outcome : Outcome
  nRuns : ℕ
  nEntered : ℕ
  pWin : ℚ
  pNegative : ℚ

/-- `sign_test_pvalue` of finite values. -/
def signTestPvalue (values : List ℚ) : ℚ :=
  let filtered := values.filter (fun v => v ≠ 0)
  let n := filtered.length
  if n = 0 then 1
  else
    let nPos := filtered.countP (fun v => 0 < v)
    let total := ((List.range' nPos (n + 1 - nPos)).map n.choose).sum
    (total : ℚ) / 2 ^ n

def signTestVerdict (statistics : List (Option ℚ)) (minEffect alpha : ℚ) :
    Calibrated SignTestResult :=
  if minEffect ≤ 0 then fail "sign test verdict: min_effect must be a finite number above 0"
  else
    let entered := statistics.filterMap id
    if entered = [] then .ok ⟨.notExercised, statistics.length, 0, 1, 1⟩
    else
      let pWin := signTestPvalue (entered.map (fun d => d - minEffect))
      let pNegative := signTestPvalue (entered.map (fun d => -minEffect - d))
      let outcome := if pWin ≤ alpha then .win else if pNegative ≤ alpha then .negative else .null
      .ok ⟨outcome, statistics.length, entered.length, pWin, pNegative⟩

open Binomial

variable {n k a c i steps : ℕ} {alpha : ℚ}

section Loops

/-- The loop adds the weights after the given count. -/
theorem addTerms_eq (hc : 0 < c) (hi : i + steps ≤ n) (total : ℕ) :
    addTerms n a c steps i (weight a c n i) total = total + ∑ j ∈
      Finset.Ico (i + 1) (i + steps + 1), weight a c n j := by
  induction steps generalizing i total with
  | zero => simp [addTerms]
  | succ steps ih =>
    have hsplit : ∑ j ∈ Finset.Ico (i + 1) (i + (steps + 1) + 1), weight a c n j =
        weight a c n (i + 1) + ∑ j ∈ Finset.Ico (i + 1 + 1) (i + (steps + 1) + 1), weight a c n j :=
      Finset.sum_eq_sum_Ico_succ_bot (by omega) _
    have hend : i + 1 + steps + 1 = i + (steps + 1) + 1 := by omega
    rw [addTerms, weight_succ (by omega) hc, ih (by omega), hsplit, hend, add_assoc]

theorem powerTotal_eq (hc : 0 < c) (hk : k ≤ n) :
    powerTotal n a c k (weight a c n k) = upper a c n k := by
  have hend : k + (n - k) = n := Nat.add_sub_cancel' hk
  rw [powerTotal, addTerms_eq hc (le_of_eq hend), hend, upper_succ a c hk, upper]

/-- The critical count is the least whose tail is within the level. -/
theorem criticalCountFrom_spec (alpha : ℚ) (hk : k ≤ n + 1) :
    criticalCountFrom n alpha k (upper 1 1 n k) ≤ k ∧
      (∀ j < k, criticalCountFrom n alpha k (upper 1 1 n k) ≤ j →
        overLevel n alpha (upper 1 1 n j) = false) ∧
      ∀ j, criticalCountFrom n alpha k (upper 1 1 n k) = j + 1 → j < k →
        overLevel n alpha (upper 1 1 n j) = true := by
  induction k with
  | zero => exact ⟨le_refl 0, fun j hj => absurd hj (Nat.not_lt_zero j), fun j h => by cases h⟩
  | succ k ih =>
    have htail : upper 1 1 n (k + 1) + n.choose k = upper 1 1 n k := by
      rw [upper_succ 1 1 (Nat.le_of_succ_le_succ hk), weight_one, add_comm]
    rw [criticalCountFrom, htail]
    cases hover : overLevel n alpha (upper 1 1 n k) with
    | true =>
      rw [if_pos rfl]
      refine ⟨le_refl _, fun j hj hle => absurd hj (Nat.not_lt.mpr hle), fun j hj _ => ?_⟩
      rw [← Nat.succ.inj hj]
      exact hover
    | false =>
      rw [if_neg Bool.false_ne_true]
      obtain ⟨hle, hwithin, hbelow⟩ := ih (by omega)
      refine ⟨by omega, fun j hj hcount => ?_, fun j hj _ => hbelow j hj (by omega)⟩
      rcases Nat.lt_succ_iff_lt_or_eq.mp hj with hj | rfl
      · exact hwithin j hj hcount
      · exact hover

theorem criticalCount_le (n : ℕ) (alpha : ℚ) : criticalCount n alpha ≤ n + 1 := by
  have h := (criticalCountFrom_spec alpha (le_refl (n + 1))).1
  rwa [upper_end] at h

/-- A fraction in lowest terms has its parts. -/
theorem parts_of_coprime {a b : ℕ} (hb : 0 < b) (h : a.Coprime b) :
    ((a : ℚ) / b).num = a ∧ ((a : ℚ) / b).den = b := by
  have hpos : (0 : ℤ) < b := by exact_mod_cast hb
  have hcoprime : Nat.Coprime (a : ℤ).natAbs (b : ℤ).natAbs := h
  have hnum := Rat.num_div_eq_of_coprime hpos hcoprime
  have hden := Rat.den_div_eq_of_coprime hpos hcoprime
  simp only [Int.cast_natCast] at hnum hden
  exact ⟨hnum, Int.natCast_inj.mp hden⟩

theorem alphaTest_parts : alphaTest.num = 1 ∧ alphaTest.den = 20 := by
  have h := parts_of_coprime (show 0 < 20 by decide) (show Nat.Coprime 1 20 by decide)
  rw [alphaTest]
  exact h

theorem overLevel_alphaTest (n tail : ℕ) :
    overLevel n alphaTest tail = decide (2 ^ n < tail * 20) := by
  rw [overLevel, alphaTest_parts.1, alphaTest_parts.2, one_mul, decide_eq_decide]
  norm_cast

/-- A count whose tail is within the level is not below the critical one. -/
theorem criticalCount_le_of (hwithin : upper 1 1 n k * 20 ≤ 2 ^ n) :
    criticalCount n alphaTest ≤ k := by
  obtain ⟨hle, -, hbelow⟩ := criticalCountFrom_spec (n := n) alphaTest (le_refl (n + 1))
  rw [upper_end] at hle hbelow
  change criticalCount n alphaTest ≤ n + 1 at hle
  cases hcount : criticalCount n alphaTest with
  | zero => exact Nat.zero_le k
  | succ j =>
    by_contra hlt
    have hover := hbelow j hcount (by omega)
    rw [overLevel_alphaTest, decide_eq_true_eq] at hover
    have hanti : upper 1 1 n j ≤ upper 1 1 n k := upper_anti 1 1 n (by omega)
    have hscaled := Nat.mul_le_mul_right 20 hanti
    omega

/-- The walk of the search finds the same count, and the binomial below it. -/
theorem criticalWalk_eq (alpha : ℚ) (hk : k ≤ n) (tail : ℕ) :
    criticalWalk n alpha k (n.choose k) tail =
      (criticalCountFrom n alpha k tail, n.choose (criticalCountFrom n alpha k tail - 1)) := by
  induction k generalizing tail with
  | zero => rfl
  | succ k ih =>
    have hbinom : n.choose (k + 1) * (k + 1) / (n - k) = n.choose k := by
      rw [Nat.choose_succ_right_eq, Nat.mul_div_cancel _ (by omega)]
    have hnext : (if k < n then n.choose (k + 1) * (k + 1) / (n - k) else n.choose (k + 1)) =
      n.choose k := by
      rw [if_pos (by omega), hbinom]
    rw [criticalWalk, criticalCountFrom]
    rw [hnext]
    cases overLevel n alpha (tail + n.choose k) with
    | true => rfl
    | false => exact ih (by omega) _

theorem criticalWalk_top (n : ℕ) (alpha : ℚ) :
    criticalWalk n alpha (n + 1) 1 0 = (criticalCount n alpha,
      n.choose (criticalCount n alpha - 1)) := by
  rw [criticalWalk, criticalCount, criticalCountFrom, Nat.choose_self]
  rw [if_neg (lt_irrefl n)]
  cases overLevel n alpha (0 + 1) with
  | true => rw [if_pos rfl, if_pos rfl, Nat.add_sub_cancel, Nat.choose_self]
  | false =>
    have h := criticalWalk_eq alpha (le_refl n) (0 + 1)
    rwa [Nat.choose_self] at h

theorem firstTerm_eq (hk : k ≤ n) : firstTerm n a c (k, n.choose (k - 1)) = weight a c n k := by
  unfold firstTerm weight
  cases k with
  | zero => rfl
  | succ k =>
    have hbinom : n.choose k * (n - (k + 1) + 1) / (k + 1) = n.choose (k + 1) := by
      have hstep : n - (k + 1) + 1 = n - k := by omega
      rw [hstep, ← Nat.choose_succ_right_eq, Nat.mul_div_cancel _ (Nat.succ_pos k)]
    rw [if_neg (Nat.succ_ne_zero k), Nat.add_sub_cancel, hbinom]

/-- The numerator and the rest of the denominator of a share. -/
theorem num_lt_den {q : ℚ} (hq : 0 < q ∧ q < 1) : 0 < q.num.toNat ∧ q.num.toNat < q.den := by
  have hpos : 0 < q.num := Rat.num_pos.mpr hq.1
  have hlt : q.num < q.den := Rat.num_lt_denom_iff.mpr hq.2
  omega

/-- The power at a number of runs, by the weights from the critical count on. -/
theorem power_eq_upper {q : ℚ} (hq : 0 < q ∧ q < 1) (n : ℕ) (alpha : ℚ) : power n q alpha =
    (upper q.num.toNat (q.den - q.num.toNat) n (criticalCount n alpha) : ℚ) / (q.den : ℚ) ^ n := by
  obtain ⟨-, hlt⟩ := num_lt_den hq
  have hle := criticalCount_le n alpha
  unfold power
  generalize criticalCount n alpha = k at hle
  generalize q.num.toNat = a at hlt
  dsimp only
  by_cases hk : n < k
  · have hend : k = n + 1 := by omega
    rw [if_pos hk, hend, upper_end, Nat.cast_zero, zero_div]
  · have hweight : n.choose k * a ^ k * (q.den - a) ^ (n - k) = weight a (q.den - a) n k := rfl
    rw [if_neg hk, hweight, powerTotal_eq (Nat.sub_pos_of_lt hlt) (Nat.le_of_not_lt hk)]

/-- The search computes the same power. -/
theorem binomialPowerForN_eq_power {q : ℚ} (hq : 0 < q ∧ q < 1) (n : ℕ) (alpha : ℚ) :
    binomialPowerForN n alpha q.num.toNat q.den = power n q alpha := by
  obtain ⟨-, hlt⟩ := num_lt_den hq
  have hle := criticalCount_le n alpha
  rw [power_eq_upper hq]
  unfold binomialPowerForN
  rw [criticalWalk_top]
  generalize criticalCount n alpha = k at hle
  generalize q.num.toNat = a at hlt
  dsimp only
  by_cases hk : n < k
  · have hend : k = n + 1 := by omega
    rw [if_pos hk, hend, upper_end, Nat.cast_zero, zero_div]
  · have hkn : k ≤ n := Nat.le_of_not_lt hk
    rw [if_neg hk, firstTerm_eq hkn, powerTotal_eq (Nat.sub_pos_of_lt hlt) hkn]

theorem qPow_mem : 0 < qPow ∧ qPow < 1 := by norm_num [qPow]

theorem qPow_parts : qPow.num = 13 ∧ qPow.den = 20 := by
  have h := parts_of_coprime (show 0 < 20 by decide) (show Nat.Coprime 13 20 by decide)
  rw [qPow]
  exact h

theorem qPow_num : qPow.num.toNat = 13 := by rw [qPow_parts.1]; rfl

theorem qPow_den : qPow.den = 20 := qPow_parts.2

theorem power_eq (n : ℕ) :
    power n qPow alphaTest = (upper 13 7 n (criticalCount n alphaTest) : ℚ) / 20 ^ n := by
  have h := power_eq_upper qPow_mem n alphaTest
  rw [qPow_num, qPow_den] at h
  exact_mod_cast h

end Loops

section Power

/-- The power reaches its target where the weight below the critical count is a tenth at most. -/
theorem target_le_power_iff (n : ℕ) :
    targetPower ≤ power n qPow alphaTest ↔
      9 * 20 ^ n ≤ 10 * upper 13 7 n (criticalCount n alphaTest) := by
  have hpos : (0 : ℚ) < 20 ^ n := pow_pos (by norm_num) n
  rw [power_eq, targetPower, le_div_iff₀ hpos, div_mul_eq_mul_div,
    div_le_iff₀ (by norm_num : (0 : ℚ) < 10)]
  rw [mul_comm _ (10 : ℚ)]
  norm_cast

/-- From 230 runs on the exponential bounds on the two tails are enough. -/
theorem target_le_power_large (hn : 230 ≤ n) : targetPower ≤ power n qPow alphaTest := by
  -- The least count that is at least 18/31 of all.
  obtain ⟨m, hm, hmn, hbelow⟩ : ∃ m, 18 * n ≤ 31 * (m + 1) ∧ m + 1 ≤ n ∧ 31 * m ≤ 18 * n :=
    ⟨(18 * n + 30) / 31 - 1, by omega, by omega, by omega⟩
  have hcritical : criticalCount n alphaTest ≤ m + 1 := by
    refine criticalCount_le_of ?_
    have hshare := share_up (u := 18) (w := 13) (p := 18) (q := 13) (by decide) hmn hm
    have hrate : 20 * 31 ^ n ≤ 2 ^ n * (18 ^ (m + 1) * 13 ^ (n - (m + 1))) :=
      rate (by decide) (by decide) hn (by decide) hshare
    have htilt := upper_tilt (show 13 ≤ 18 by decide) 1 1 n (m + 1)
    have hpos : 0 < 18 ^ (m + 1) * 13 ^ (n - (m + 1)) :=
        Nat.mul_pos (Nat.pow_pos (by decide)) (Nat.pow_pos (by decide))
    refine Nat.le_of_mul_le_mul_right ?_ hpos
    calc upper 1 1 n (m + 1) * 20 * (18 ^ (m + 1) * 13 ^ (n - (m + 1)))
        = 20 * (upper 1 1 n (m + 1) * (18 ^ (m + 1) * 13 ^ (n - (m + 1)))) := by ring
      _ ≤ 20 * 31 ^ n := Nat.mul_le_mul_left 20 htilt
      _ ≤ 2 ^ n * (18 ^ (m + 1) * 13 ^ (n - (m + 1))) := hrate
  have hlower : 10 * lower 13 7 n (m + 1) ≤ 20 ^ n := by
    have hshare := share_down (u := 126) (w := 169) (p := 18) (q := 13) (by decide)
      (show m ≤ n by omega) hbelow
    have hrate : 10 * 2821 ^ n ≤ 20 ^ n * (126 ^ m * 169 ^ (n - m)) :=
      rate (by decide) (by decide) hn (by decide) hshare
    have htilt := lower_tilt (show 126 ≤ 169 by decide) 13 7 (show m ≤ n by omega)
    have hpos : 0 < 126 ^ m * 169 ^ (n - m) :=
      Nat.mul_pos (Nat.pow_pos (by decide)) (Nat.pow_pos (by decide))
    refine Nat.le_of_mul_le_mul_right ?_ hpos
    calc 10 * lower 13 7 n (m + 1) * (126 ^ m * 169 ^ (n - m))
        = 10 * (lower 13 7 n (m + 1) * (126 ^ m * 169 ^ (n - m))) := by ring
      _ ≤ 10 * 2821 ^ n := Nat.mul_le_mul_left 10 htilt
      _ ≤ 20 ^ n * (126 ^ m * 169 ^ (n - m)) := hrate
  rw [target_le_power_iff]
  have hwhole := lower_add_upper 13 7 (show m + 1 ≤ n + 1 by omega)
  have hanti := upper_anti 13 7 n hcritical
  change lower 13 7 n (m + 1) + upper 13 7 n (m + 1) = 20 ^ n at hwhole
  omega

/-- Whether the power at a number of runs is at least nine tenths, in integers. -/
def reaches (n : ℕ) : Bool :=
  let found := criticalWalk n alphaTest (n + 1) 1 0
  found.1 ≤ n && 9 * 20 ^ n ≤ 10 * powerTotal n 13 7 found.1 (firstTerm n 13 7 found)

theorem reaches_iff (n : ℕ) : reaches n = true ↔ targetPower ≤ power n qPow alphaTest := by
  have hle := criticalCount_le n alphaTest
  rw [target_le_power_iff, reaches, criticalWalk_top]
  generalize criticalCount n alphaTest = k at hle
  dsimp only
  by_cases hk : k ≤ n
  · rw [firstTerm_eq hk, powerTotal_eq (by decide) hk]
    simp [hk]
  · have hend : k = n + 1 := by omega
    have hpos : 0 < 20 ^ n := Nat.pow_pos (by decide)
    rw [hend, upper_end]
    simp only [Nat.not_succ_le_self, decide_false, Bool.false_and, Bool.false_eq_true, false_iff]
    omega

theorem reaches_small : reaches 101 = false ∧ ((List.range' 102 128).all reaches) = true := by
    decide +kernel

theorem target_le_power {n : ℕ} (hn : nExact ≤ n) : targetPower ≤ power n qPow alphaTest := by
  have hn : 102 ≤ n := hn
  rcases Nat.lt_or_ge n 230 with hsmall | hlarge
  · have hmem : n ∈ List.range' 102 128 := List.mem_range'_1.mpr ⟨hn, by omega⟩
    exact (reaches_iff n).mp (List.all_eq_true.mp reaches_small.2 n hmem)
  · exact target_le_power_large hlarge

theorem power_lt_target : power 101 qPow alphaTest < targetPower := by
  rw [← not_le, ← reaches_iff, reaches_small.1]
  exact Bool.false_ne_true

theorem signTestPower_eq (n : ℕ) :
    signTestPower n qPow alphaTest = .ok (power n qPow alphaTest) := by
  unfold signTestPower
  rw [if_neg (by omega), if_neg (not_not.mpr qPow_mem), Int.toNat_natCast]

/-- The planned number of runs has the power, as has every larger number, and it is the least
such. -/
theorem planned_least :
    (∀ n : ℤ, nExact ≤ n → ∃ p, signTestPower n qPow alphaTest = .ok p ∧ targetPower ≤ p) ∧
    (∃ p, signTestPower 101 qPow alphaTest = .ok p ∧ p < targetPower) ∧
    IsLeast {N : ℕ | ∀ n ≥ N, ∃ p, signTestPower n qPow alphaTest = .ok p ∧
      targetPower ≤ p} nExact := by
  refine ⟨fun n hn => ?_, ⟨_, signTestPower_eq 101, power_lt_target⟩, fun n hn => ?_,
    fun N hN => ?_⟩
  · obtain ⟨m, rfl⟩ := Int.eq_ofNat_of_zero_le (show 0 ≤ n by omega)
    exact ⟨_, signTestPower_eq m, target_le_power (by exact_mod_cast hn)⟩
  · exact ⟨_, signTestPower_eq n, target_le_power hn⟩
  · by_contra hlt
    have hless : N ≤ 101 := Nat.le_of_lt_succ (Nat.lt_of_not_le hlt)
    obtain ⟨p, hp, htarget⟩ := hN 101 hless
    rw [signTestPower_eq] at hp
    cases hp
    exact absurd htarget (not_le.mpr power_lt_target)

theorem planned_least_at : ∃ p, signTestPower 102 qPow alphaTest = .ok p ∧ targetPower ≤ p :=
  planned_least.1 102 (le_refl _)

end Power
end Kaine.Calibration
