import Mathlib.Analysis.SpecialFunctions.Log.Deriv

/-! The series of `1 / (n log² n)`, compared term by term with differences of `1 / log`. Fixed-point
enclosures of logarithms and of the partial sums of `1 / (n log² n)`. -/
namespace LogSeries
open Real Finset

/-- The general term, at a real argument. -/
noncomputable def term (x : ℝ) : ℝ := 1 / (x * log x ^ 2)

/-- The sum over `2, …, k + 1`. -/
noncomputable def partialSum (k : ℕ) : ℝ := ∑ i ∈ range k, term (i + 2 : ℕ)

theorem term_pos {x : ℝ} (hx : 1 < x) : 0 < term x := by
  have hlog := log_pos hx
  rw [term]
  positivity

theorem partialSum_succ (k : ℕ) : partialSum (k + 1) = partialSum k + term (k + 2) := by
  rw [partialSum, sum_range_succ, partialSum, Nat.cast_add, Nat.cast_ofNat]

theorem strictMono_partialSum : StrictMono partialSum := by
  refine strictMono_nat_of_lt_succ fun k => ?_
  have hpos : 0 < term ((k : ℝ) + 2) := term_pos (by have := k.cast_nonneg (α := ℝ); linarith)
  rw [partialSum_succ]
  linarith

theorem partialSum_add (k m : ℕ) :
    partialSum (k + m) = partialSum k + ∑ i ∈ range m, term ((k + 2 : ℕ) + i) := by
  rw [partialSum, sum_range_add, partialSum]
  congr 1
  refine sum_congr rfl fun i _ => ?_
  congr 1
  push_cast
  ring

/-- The argument at which the series of `artanh` gives a ratio of neighbours. -/
theorem log_ratio (x : ℝ) (hx : 0 < x) :
    log ((1 + 1 / (2 * x + 1)) / (1 - 1 / (2 * x + 1))) = log (x + 1) - log x := by
  rw [← log_div (by positivity) hx.ne']
  congr 1
  have hne : 2 * x + 1 ≠ 0 := by positivity
  field_simp
  ring

theorem ratio_lt_one {x : ℝ} (hx : 0 < x) : 1 / (2 * x + 1) < 1 := by
  rw [div_lt_one (by positivity)]
  linarith

theorem inv_midpoint_le_log {x : ℝ} (hx : 0 < x) :
    2 / (2 * x + 1) ≤ log (x + 1) - log x := by
  have h := sum_range_le_log_div (by positivity) (ratio_lt_one hx) 1
  rw [log_ratio x hx] at h
  simp only [range_one, sum_singleton, Nat.cast_zero, mul_zero, zero_add, pow_one, div_one] at h
  rw [show 2 / (2 * x + 1) = 2 * (1 / (2 * x + 1)) by ring]
  linarith

theorem half_step_le_log {x : ℝ} (hx : 0 < x) :
    log x + 2 / (4 * x + 1) ≤ log (x + 1 / 2) := by
  have h := inv_midpoint_le_log (x := 2 * x) (by linarith)
  have hdouble : log (2 * x + 1) - log (2 * x) = log (x + 1 / 2) - log x := by
    rw [show 2 * x + 1 = 2 * (x + 1 / 2) by ring, log_mul (by norm_num) (by linarith),
      log_mul (by norm_num) hx.ne']
    ring
  rw [hdouble, ← mul_assoc, show (2 : ℝ) * 2 = 4 by norm_num] at h
  linarith

theorem log_le_trapezoid {x : ℝ} (hx : 0 < x) :
    log (x + 1) - log x ≤ (1 / x + 1 / (x + 1)) / 2 := by
  have h := log_div_le_sum_range_add (by positivity) (ratio_lt_one hx) 0
  rw [log_ratio x hx] at h
  simp only [range_zero, sum_empty, mul_zero, zero_add, pow_one] at h
  have heq : 2 * (1 / (2 * x + 1) / (1 - (1 / (2 * x + 1)) ^ 2)) =
      (1 / x + 1 / (x + 1)) / 2 := by
    have hsq : (2 * x + 1) ^ 2 - 1 ≠ 0 := by nlinarith
    field_simp
    ring
  linarith

/-- A term is below the difference of `1 / log` over the unit interval around it. -/
theorem term_le_midpoint {x : ℝ} (hx : 1 < x) :
    term (x + 1 / 2) ≤ 1 / log x - 1 / log (x + 1) := by
  have ha : 0 < log x := log_pos hx
  have hab : log x < log (x + 1) := log_lt_log (by linarith) (by linarith)
  have hb : 0 < log (x + 1) := ha.trans hab
  have hgap := inv_midpoint_le_log (x := x) (by linarith)
  have hmean : log x + log (x + 1) ≤ 2 * log (x + 1 / 2) := by
    rw [← log_mul (by linarith) (by linarith), ← Nat.cast_ofNat (R := ℝ) (n := 2), ← log_pow]
    exact log_le_log (by nlinarith) (by nlinarith)
  have hprod : log x * log (x + 1) ≤ log (x + 1 / 2) ^ 2 := by
    nlinarith [sq_nonneg (log x - log (x + 1))]
  have hx' : 0 < x + 1 / 2 := by linarith
  calc term (x + 1 / 2) ≤ 1 / ((x + 1 / 2) * (log x * log (x + 1))) := by
        rw [term]
        gcongr
    _ = 2 / (2 * x + 1) / (log x * log (x + 1)) := by field_simp
    _ ≤ (log (x + 1) - log x) / (log x * log (x + 1)) := by gcongr
    _ = 1 / log x - 1 / log (x + 1) := by field_simp

/-- The difference of `1 / log` over a unit interval is below the mean of the two terms. -/
theorem trapezoid_le_terms {x : ℝ} (hx : 1 < x) :
    1 / log x - 1 / log (x + 1) ≤ (term x + term (x + 1)) / 2 := by
  have ha : 0 < log x := log_pos hx
  have hab : log x < log (x + 1) := log_lt_log (by linarith) (by linarith)
  have hb : 0 < log (x + 1) := ha.trans hab
  have hgap := log_le_trapezoid (x := x) (by linarith)
  have hx0 : 0 < x := by linarith
  have hcross : 1 / (x + 1) * ((log (x + 1) - log x) / (log x * log (x + 1) ^ 2)) ≤
      1 / x * ((log (x + 1) - log x) / (log x ^ 2 * log (x + 1))) := by
    have hgap0 : 0 ≤ log (x + 1) - log x := by linarith
    refine mul_le_mul (by gcongr; linarith) ?_ (by positivity) (by positivity)
    refine div_le_div_of_nonneg_left hgap0 (by positivity) ?_
    nlinarith [mul_pos ha hb]
  have hmean : (1 / x + 1 / (x + 1)) / 2 / (log x * log (x + 1)) ≤
      (term x + term (x + 1)) / 2 := by
    have heq : (term x + term (x + 1)) / 2 - (1 / x + 1 / (x + 1)) / 2 / (log x * log (x + 1)) =
        (1 / x * ((log (x + 1) - log x) / (log x ^ 2 * log (x + 1))) -
          1 / (x + 1) * ((log (x + 1) - log x) / (log x * log (x + 1) ^ 2))) / 2 := by
      rw [term, term]
      field_simp
      ring
    linarith
  calc 1 / log x - 1 / log (x + 1) = (log (x + 1) - log x) / (log x * log (x + 1)) := by field_simp
    _ ≤ (1 / x + 1 / (x + 1)) / 2 / (log x * log (x + 1)) := by gcongr
    _ ≤ (term x + term (x + 1)) / 2 := hmean

theorem sum_le_midpoint {x : ℝ} (hx : 1 < x) (m : ℕ) :
    ∑ i ∈ range m, term (x + 1 / 2 + i) ≤ 1 / log x - 1 / log (x + m) := by
  calc ∑ i ∈ range m, term (x + 1 / 2 + i)
      ≤ ∑ i ∈ range m, (1 / log (x + i) - 1 / log (x + (i + 1 : ℕ))) := by
        refine sum_le_sum fun i _ => ?_
        have h := term_le_midpoint (x := x + i) (by have := i.cast_nonneg (α := ℝ); linarith)
        rw [add_right_comm] at h
        rwa [Nat.cast_add_one, ← add_assoc]
    _ = 1 / log x - 1 / log (x + m) := by
        rw [sum_range_sub' (fun i : ℕ => 1 / log (x + i))]
        simp

theorem trapezoid_le_sum {x : ℝ} (hx : 1 < x) (m : ℕ) :
    1 / log x - 1 / log (x + m) ≤
      ∑ i ∈ range m, term (x + 1 + i) + (term x - term (x + m)) / 2 := by
  induction m with
  | zero => simp
  | succ m ih =>
    have h := trapezoid_le_terms (x := x + m) (by have := m.cast_nonneg (α := ℝ); linarith)
    rw [sum_range_succ, Nat.cast_add_one, ← add_assoc, add_right_comm x 1]
    linarith

/-- What follows the first terms, compared with `1 / log` half a step before the next one. -/
theorem partialSum_add_le (k m : ℕ) : partialSum (k + m) ≤
    partialSum k + 1 / log (k + 3 / 2) - 1 / log (k + 3 / 2 + m) := by
  have hk := k.cast_nonneg (α := ℝ)
  have h := sum_le_midpoint (x := k + 3 / 2) (by linarith) m
  have hstart : (k : ℝ) + 3 / 2 + 1 / 2 = ((k + 2 : ℕ) : ℝ) := by push_cast; ring
  rw [hstart] at h
  rw [partialSum_add]
  linarith

/-- The same from below, up to half of the last of the first terms. -/
theorem le_partialSum_add {k : ℕ} (hk : 0 < k) (m : ℕ) :
    partialSum k + 1 / log (k + 1) - term (k + 1) / 2 - 1 / log (k + 1 + m) ≤
      partialSum (k + m) := by
  have hk' : (1 : ℝ) ≤ k := by exact_mod_cast hk
  have h := trapezoid_le_sum (x := k + 1) (by linarith) m
  have hpos : 0 < term (k + 1 + m) := term_pos (by have := m.cast_nonneg (α := ℝ); linarith)
  have hstart : (k : ℝ) + 1 + 1 = ((k + 2 : ℕ) : ℝ) := by push_cast; ring
  rw [hstart] at h
  rw [partialSum_add]
  linarith

/-- Whatever the partial sums exceed, they exceed from one index on and at none before. -/
theorem exists_crossing {c : ℝ} (h : ∃ k, c < partialSum k) :
    ∃ m, ∀ k, partialSum k ≤ c ↔ k < m := by
  classical
  refine ⟨Nat.find h, fun k => ⟨fun hk => ?_, fun hk => ?_⟩⟩
  · by_contra hle
    have hmono := strictMono_partialSum.monotone (not_lt.mp hle)
    exact absurd (Nat.find_spec h) (not_lt.mpr (hmono.trans hk))
  · exact not_lt.mp (Nat.find_min h hk)

end LogSeries

namespace LogTable
open Real Finset LogSeries

/-- The first terms of the series for `s` times `artanh (1 / d)`, each rounded down. -/
def artanhLo (s d : ℕ) : ℕ → ℕ
  | 0 => 0
  | i + 1 => artanhLo s d i + s / ((2 * i + 1) * d ^ (2 * i + 1))

/-- The same terms rounded up, and the remainder of the series. -/
def artanhHi (s d t : ℕ) : ℕ :=
  artanhLo s d t + t + (s * (d * d) / (d ^ (2 * t + 1) * (d * d - 1)) + 1)

/-- Enclosures, scaled by `s`, of `log (k + 1)` and of the sum of the first `k` terms. -/
structure Row where
  logLo : ℕ
  logHi : ℕ
  sumLo : ℕ
  sumHi : ℕ

def Row.next (s t k : ℕ) (r : Row) : Row :=
  let lo := r.logLo + 2 * artanhLo s (2 * k + 3) t
  let hi := r.logHi + 2 * artanhHi s (2 * k + 3) t
  { logLo := lo
    logHi := hi
    sumLo := r.sumLo + s ^ 3 / ((k + 2) * hi ^ 2)
    sumHi := r.sumHi + s ^ 3 / ((k + 2) * lo ^ 2) + 1 }

def row (s t : ℕ) : ℕ → Row
  | 0 => ⟨0, 0, 0, 0⟩
  | k + 1 => (row s t k).next s t k

structure Row.Encloses (r : Row) (s k : ℕ) : Prop where
  logLo_le : (r.logLo : ℝ) ≤ s * log (k + 1)
  le_logHi : s * log (k + 1) ≤ r.logHi
  sumLo_le : (r.sumLo : ℝ) ≤ s * partialSum k
  le_sumHi : s * partialSum k ≤ r.sumHi

theorem div_le_cast_div_add_one (a : ℕ) {b : ℕ} (hb : 0 < b) :
    (a : ℝ) / b ≤ ((a / b : ℕ) : ℝ) + 1 := by
  have h : a < b * (a / b + 1) := Nat.lt_mul_div_succ a hb
  rw [div_le_iff₀ (by exact_mod_cast hb), mul_comm]
  exact_mod_cast h.le

theorem scaled_power (s d t : ℕ) :
    (s : ℝ) / (((2 * t + 1) * d ^ (2 * t + 1) : ℕ) : ℝ) =
      s * ((1 / (d : ℝ)) ^ (2 * t + 1) / (2 * t + 1)) := by
  push_cast
  rw [one_div_pow, div_div, mul_one_div, mul_comm (2 * (t : ℝ) + 1)]

theorem artanhLo_le (s d t : ℕ) :
    (artanhLo s d t : ℝ) ≤ s * ∑ i ∈ range t, (1 / (d : ℝ)) ^ (2 * i + 1) / (2 * i + 1) := by
  induction t with
  | zero => simp [artanhLo]
  | succ t ih =>
    have hterm : ((s / ((2 * t + 1) * d ^ (2 * t + 1)) : ℕ) : ℝ) ≤
        s * ((1 / (d : ℝ)) ^ (2 * t + 1) / (2 * t + 1)) := by
      rw [← scaled_power]
      exact Nat.cast_div_le
    rw [sum_range_succ, mul_add, artanhLo, Nat.cast_add]
    exact add_le_add ih hterm

theorem le_artanhLo_add (s t : ℕ) {d : ℕ} (hd : 0 < d) :
    s * ∑ i ∈ range t, (1 / (d : ℝ)) ^ (2 * i + 1) / (2 * i + 1) ≤ artanhLo s d t + t := by
  induction t with
  | zero => simp [artanhLo]
  | succ t ih =>
    have hterm : (s : ℝ) * ((1 / (d : ℝ)) ^ (2 * t + 1) / (2 * t + 1)) ≤
        ((s / ((2 * t + 1) * d ^ (2 * t + 1)) : ℕ) : ℝ) + 1 := by
      rw [← scaled_power]
      exact div_le_cast_div_add_one s (by positivity)
    rw [sum_range_succ, mul_add, artanhLo]
    push_cast
    linarith

theorem artanhLo_le_log (s k t : ℕ) :
    2 * (artanhLo s (2 * k + 3) t : ℝ) ≤ s * (log (k + 2) - log (k + 1)) := by
  have hk : (0 : ℝ) < k + 1 := by positivity
  have hlo := artanhLo_le s (2 * k + 3) t
  have hd : ((2 * k + 3 : ℕ) : ℝ) = 2 * (k + 1 : ℝ) + 1 := by push_cast; ring
  have hser := sum_range_le_log_div (by positivity) (ratio_lt_one hk) t
  rw [log_ratio _ hk, show (k : ℝ) + 1 + 1 = k + 2 by ring] at hser
  rw [hd] at hlo
  have hs : (0 : ℝ) ≤ s := by positivity
  nlinarith [mul_le_mul_of_nonneg_left hser hs]

theorem log_le_artanhHi (s k t : ℕ) :
    s * (log (k + 2) - log (k + 1)) ≤ 2 * (artanhHi s (2 * k + 3) t : ℝ) := by
  have hk : (0 : ℝ) < k + 1 := by positivity
  have hhi := le_artanhLo_add s t (d := 2 * k + 3) (by omega)
  have hd : ((2 * k + 3 : ℕ) : ℝ) = 2 * (k + 1 : ℝ) + 1 := by push_cast; ring
  have hser := log_div_le_sum_range_add (by positivity) (ratio_lt_one hk) t
  rw [log_ratio _ hk, show (k : ℝ) + 1 + 1 = k + 2 by ring] at hser
  set d := 2 * k + 3 with hd'
  have hsq : 1 < d * d := by nlinarith
  have hrem : (s : ℝ) * ((1 / (d : ℝ)) ^ (2 * t + 1) / (1 - (1 / (d : ℝ)) ^ 2)) ≤
      ((s * (d * d) / (d ^ (2 * t + 1) * (d * d - 1)) : ℕ) : ℝ) + 1 := by
    have hpos : 0 < d * d - 1 := by omega
    refine Eq.trans_le ?_ (div_le_cast_div_add_one _ (by positivity))
    have hd0 : (d : ℝ) ≠ 0 := by positivity
    have hne : (d : ℝ) * d - 1 ≠ 0 := by
      have : (1 : ℝ) < d * d := by exact_mod_cast hsq
      linarith
    push_cast [Nat.cast_sub hsq.le]
    rw [one_div, inv_pow, inv_pow]
    field_simp
  rw [← hd] at hser
  have hs : (0 : ℝ) ≤ s := by positivity
  have hmul := mul_le_mul_of_nonneg_left hser hs
  rw [mul_add] at hmul
  simp only [artanhHi]
  push_cast at hrem ⊢
  linarith

theorem cast_div_le_term {s n hi : ℕ} (hs : 0 < s) (hn : 1 < n) (h : s * log n ≤ hi) :
    ((s ^ 3 / (n * hi ^ 2) : ℕ) : ℝ) ≤ s * term n := by
  have hn' : (0 : ℝ) < n := by positivity
  have hlog : 0 < log n := log_pos (by exact_mod_cast hn)
  have hs' : (0 : ℝ) < s := by exact_mod_cast hs
  have hhi : (0 : ℝ) < hi := lt_of_lt_of_le (by positivity) h
  calc ((s ^ 3 / (n * hi ^ 2) : ℕ) : ℝ) ≤ (s : ℝ) ^ 3 / (n * hi ^ 2) := by
        exact_mod_cast Nat.cast_div_le (α := ℝ) (m := s ^ 3) (n := n * hi ^ 2)
    _ ≤ (s : ℝ) ^ 3 / (n * (s * log n) ^ 2) := by gcongr
    _ = s * term n := by rw [term]; field_simp

theorem term_le_cast_div {s n lo : ℕ} (hn : 1 < n) (hlo : 0 < lo) (h : lo ≤ s * log n) :
    s * term n ≤ ((s ^ 3 / (n * lo ^ 2) : ℕ) : ℝ) + 1 := by
  have hn' : (0 : ℝ) < n := by positivity
  have hlo' : (0 : ℝ) < lo := by exact_mod_cast hlo
  have hlog : 0 < log n := log_pos (by exact_mod_cast hn)
  have hs : (s : ℝ) ≠ 0 := by
    rintro h0
    rw [h0, zero_mul] at h
    linarith
  calc s * term n = (s : ℝ) ^ 3 / (n * (s * log n) ^ 2) := by rw [term]; field_simp
    _ ≤ (s : ℝ) ^ 3 / (n * (lo : ℝ) ^ 2) := by gcongr
    _ ≤ ((s ^ 3 / (n * lo ^ 2) : ℕ) : ℝ) + 1 := by
        exact_mod_cast div_le_cast_div_add_one (s ^ 3) (b := n * lo ^ 2) (by positivity)

theorem Row.Encloses.next {r : Row} {s t k : ℕ} (h : r.Encloses s k)
    (hlo : 0 < (r.next s t k).logLo) : (r.next s t k).Encloses s (k + 1) := by
  have hcast : ((k + 1 : ℕ) : ℝ) + 1 = ((k + 2 : ℕ) : ℝ) := by push_cast; ring
  have hlower : ((r.next s t k).logLo : ℝ) ≤ s * log ((k + 2 : ℕ) : ℝ) := by
    have hstep := artanhLo_le_log s k t
    have hprev := h.logLo_le
    simp only [Row.next]
    push_cast
    linarith
  have hupper : s * log ((k + 2 : ℕ) : ℝ) ≤ (r.next s t k).logHi := by
    have hstep := log_le_artanhHi s k t
    have hprev := h.le_logHi
    simp only [Row.next]
    push_cast
    linarith
  have hs : 0 < s := by
    rcases Nat.eq_zero_or_pos s with rfl | hs
    · have hlo' : (0 : ℝ) < (r.next 0 t k).logLo := by exact_mod_cast hlo
      simp only [Nat.cast_zero, zero_mul] at hlower
      linarith
    · exact hs
  have hsum : partialSum (k + 1) = partialSum k + term ((k + 2 : ℕ) : ℝ) := by
    rw [partialSum_succ]
    push_cast
    rfl
  constructor
  · rwa [hcast]
  · rwa [hcast]
  · have hterm := cast_div_le_term hs (by omega) hupper
    have hprev := h.sumLo_le
    rw [hsum, mul_add]
    simp only [Row.next] at hterm ⊢
    push_cast at hterm ⊢
    linarith
  · have hterm := term_le_cast_div (by omega) hlo hlower
    have hprev := h.le_sumHi
    rw [hsum, mul_add]
    simp only [Row.next] at hterm ⊢
    push_cast at hterm ⊢
    linarith

/-- Every row encloses, once its first logarithm is not rounded down to zero. -/
theorem row_encloses {s t : ℕ} (h : 0 < artanhLo s 3 t) : ∀ k, (row s t k).Encloses s k
  | 0 => ⟨by simp [row], by simp [row], by simp [row, partialSum], by simp [row, partialSum]⟩
  | k + 1 => by
    refine (row_encloses h k).next ?_
    induction k with
    | zero => simpa [Row.next, row] using h
    | succ k ih => simp only [Row.next, row] at ih ⊢; omega

/-- From a row on, every partial sum stays below what the row and the tail allow. -/
theorem Row.Encloses.partialSum_le {r : Row} {s k : ℕ} (h : r.Encloses s k) (hs : 0 < s)
    (hlo : 0 < r.logLo) (m : ℕ) : partialSum (k + m) ≤
      r.sumHi / s + 1 / (r.logLo / s + 2 / (4 * k + 5)) - 1 / log (k + 3 / 2 + m) := by
  have hs' : (0 : ℝ) < s := by exact_mod_cast hs
  have hlo' : (0 : ℝ) < r.logLo := by exact_mod_cast hlo
  have hsum : partialSum k ≤ r.sumHi / s := by
    rw [le_div_iff₀ hs', mul_comm]
    exact h.le_sumHi
  have hlog : (r.logLo : ℝ) / s ≤ log (k + 1) := by
    rw [div_le_iff₀ hs', mul_comm]
    exact h.logLo_le
  have hhalf := half_step_le_log (x := (k : ℝ) + 1) (by positivity)
  rw [show 4 * ((k : ℝ) + 1) + 1 = 4 * k + 5 by ring,
    show (k : ℝ) + 1 + 1 / 2 = k + 3 / 2 by ring] at hhalf
  have htail : 1 / log (k + 3 / 2) ≤ 1 / ((r.logLo : ℝ) / s + 2 / (4 * k + 5)) :=
    one_div_le_one_div_of_le (by positivity) (by linarith)
  have hadd := partialSum_add_le k m
  linarith

/-- From a row on, every partial sum exceeds what the row and the tail leave. -/
theorem Row.Encloses.le_partialSum {r : Row} {s k : ℕ} (h : r.Encloses s k) (hs : 0 < s)
    (hlo : 0 < r.logLo) (hk : 0 < k) (m : ℕ) :
    (r.sumLo : ℝ) / s + s / r.logHi - s ^ 2 / ((k + 1) * r.logLo ^ 2) / 2 - 1 / log (k + 1 + m) ≤
      partialSum (k + m) := by
  have hs' : (0 : ℝ) < s := by exact_mod_cast hs
  have hlo' : (0 : ℝ) < r.logLo := by exact_mod_cast hlo
  have hlog : 0 < log ((k : ℝ) + 1) := by
    refine log_pos ?_
    have : (0 : ℝ) < k := by exact_mod_cast hk
    linarith
  have hsum : (r.sumLo : ℝ) / s ≤ partialSum k := by
    rw [div_le_iff₀ hs', mul_comm]
    exact h.sumLo_le
  have hhead : (s : ℝ) / r.logHi ≤ 1 / log (k + 1) := by
    rw [div_le_div_iff₀ (lt_of_lt_of_le (by positivity) h.le_logHi) hlog, one_mul]
    exact h.le_logHi
  have hterm : term ((k : ℝ) + 1) ≤ s ^ 2 / ((k + 1) * (r.logLo : ℝ) ^ 2) := by
    rw [term, div_le_div_iff₀ (by positivity) (by positivity), one_mul]
    have hsq := pow_le_pow_left₀ hlo'.le h.logLo_le 2
    nlinarith
  have hadd := le_partialSum_add hk m
  linarith

end LogTable
