import Mathlib.Algebra.Order.Field.Power
import Mathlib.Data.Int.Log
import Mathlib.Data.Rat.Floor
import Mathlib.Tactic.Positivity

/-! Rounding to the nearest member of a set of numbers, and IEEE 754 binary64 as an instance. -/
namespace Rounding

variable {K : Type*} [Field K] [LinearOrder K] [IsStrictOrderedRing K] {F : Set K} {fl : K → K}
  {x y t : K}

/-- A function that sends every number to a member of the set that no other member is nearer to. -/
structure Nearest (F : Set K) (fl : K → K) : Prop where
  mem : ∀ x, fl x ∈ F
  nearest : ∀ x, ∀ y ∈ F, |fl x - x| ≤ |y - x|

namespace Nearest

theorem eq_self (h : Nearest F fl) (hx : x ∈ F) : fl x = x := by
  have hle := h.nearest x x hx
  rw [sub_self, abs_zero] at hle
  exact sub_eq_zero.mp (abs_nonpos_iff.mp hle)

theorem idem (h : Nearest F fl) (x : K) : fl (fl x) = fl x := h.eq_self (h.mem x)

/-- Two numbers whose roundings are swapped would both lie halfway between them. -/
theorem mono (h : Nearest F fl) (hxy : x ≤ y) : fl x ≤ fl y := by
  by_contra hlt
  have hlt : fl y < fl x := lt_of_not_ge hlt
  have hx := h.nearest x (fl y) (h.mem y)
  have hy := h.nearest y (fl x) (h.mem x)
  have hhigh : fl x + fl y ≤ 2 * x := by
    rcases abs_cases (fl x - x) with ⟨h₁, _⟩ | ⟨h₁, _⟩ <;>
      rcases abs_cases (fl y - x) with ⟨h₂, _⟩ | ⟨h₂, _⟩ <;> linarith
  have hlow : 2 * y ≤ fl x + fl y := by
    rcases abs_cases (fl x - y) with ⟨h₁, _⟩ | ⟨h₁, _⟩ <;>
      rcases abs_cases (fl y - y) with ⟨h₂, _⟩ | ⟨h₂, _⟩ <;> linarith
  have heq : x = y := by linarith
  subst heq
  exact lt_irrefl _ hlt

/-- A rounded difference is off by no more than what was taken away. -/
theorem sub_two_mul_le (h : Nearest F fl) (hx : x ∈ F) (ht : 0 ≤ t) : x - 2 * t ≤ fl (x - t) := by
  have hle := h.nearest (x - t) x hx
  rw [sub_sub_cancel, abs_of_nonneg ht] at hle
  have hlow := (abs_le.mp hle).1
  linarith

end Nearest

/-- The nearest integer, and the even one of two that are equally near. -/
def halfEven (q : ℚ) : ℤ :=
  if q - ⌊q⌋ < 1 / 2 then ⌊q⌋
  else if 1 / 2 < q - ⌊q⌋ then ⌊q⌋ + 1
  else if ⌊q⌋ % 2 = 0 then ⌊q⌋ else ⌊q⌋ + 1

theorem halfEven_cases (q : ℚ) :
    (halfEven q = ⌊q⌋ ∧ q - ⌊q⌋ ≤ 1 / 2) ∨ (halfEven q = ⌊q⌋ + 1 ∧ 1 / 2 ≤ q - ⌊q⌋) := by
  unfold halfEven
  split_ifs with hlow hhigh heven
  · exact .inl ⟨rfl, hlow.le⟩
  · exact .inr ⟨rfl, hhigh.le⟩
  · exact .inl ⟨rfl, not_lt.mp hhigh⟩
  · exact .inr ⟨rfl, not_lt.mp hlow⟩

/-- An integer is what a number rounds to where it is nearer than half a unit, or even and just half
a unit away. -/
theorem halfEven_eq_iff (q : ℚ) (n : ℤ) :
    halfEven q = n ↔ |(n : ℚ) - q| < 1 / 2 ∨ (|(n : ℚ) - q| = 1 / 2 ∧ Even n) := by
  have hfloor := Int.floor_le q
  have hceil := Int.lt_floor_add_one q
  have hdown : |(⌊q⌋ : ℚ) - q| = q - ⌊q⌋ := by
    rw [abs_of_nonpos (by linarith)]
    ring
  have hup : |((⌊q⌋ + 1 : ℤ) : ℚ) - q| = 1 - (q - ⌊q⌋) := by
    rw [Int.cast_add, Int.cast_one, abs_of_nonneg (by linarith)]
    ring
  rw [Int.even_iff]
  constructor
  · rintro rfl
    unfold halfEven
    split_ifs with hlow hhigh heven
    · rw [hdown]
      exact .inl hlow
    · rw [hup]
      exact .inl (by linarith)
    · rw [hdown]
      exact .inr ⟨le_antisymm (not_lt.mp hhigh) (not_lt.mp hlow), heven⟩
    · rw [hup]
      exact .inr ⟨by linarith [not_lt.mp hhigh, not_lt.mp hlow], by omega⟩
  · intro h
    have hle : |(n : ℚ) - q| ≤ 1 / 2 := by
      rcases h with h | ⟨h, -⟩
      · exact h.le
      · exact h.le
    obtain ⟨hleft, hright⟩ := abs_le.mp hle
    have hn : n = ⌊q⌋ ∨ n = ⌊q⌋ + 1 := by
      have hlow : ((⌊q⌋ - 1 : ℤ) : ℚ) < n := by push_cast; linarith
      have hhigh : (n : ℚ) < ((⌊q⌋ + 2 : ℤ) : ℚ) := by push_cast; linarith
      have hlow' := Int.cast_lt.mp hlow
      have hhigh' := Int.cast_lt.mp hhigh
      omega
    unfold halfEven
    rcases hn with rfl | rfl
    · rw [hdown] at h
      split_ifs with hlow hhigh heven
      · rfl
      · rcases h with h | ⟨h, -⟩ <;> linarith
      · rfl
      · rcases h with h | ⟨-, h⟩
        · exact absurd h hlow
        · exact absurd h heven
    · rw [hup] at h
      split_ifs with hlow hhigh heven
      · rcases h with h | ⟨h, -⟩ <;> linarith
      · rfl
      · rcases h with h | ⟨-, h⟩
        · linarith [not_lt.mp hhigh, not_lt.mp hlow]
        · omega
      · rfl

theorem halfEven_nearest (q : ℚ) (n : ℤ) : |(halfEven q : ℚ) - q| ≤ |(n : ℚ) - q| := by
  have hfloor := Int.floor_le q
  have hceil := Int.lt_floor_add_one q
  have hn : (n : ℚ) ≤ ⌊q⌋ ∨ (⌊q⌋ : ℚ) + 1 ≤ n := by
    rcases le_or_gt n ⌊q⌋ with h | h
    · exact .inl (by exact_mod_cast h)
    · exact .inr (by exact_mod_cast h)
  rcases halfEven_cases q with ⟨h, hq⟩ | ⟨h, hq⟩
  · rw [h, abs_of_nonpos (by linarith)]
    rcases hn with hn | hn
    · rw [abs_of_nonpos (by linarith)]
      linarith
    · rw [abs_of_nonneg (by linarith)]
      linarith
  · rw [h, Int.cast_add, Int.cast_one, abs_of_nonneg (by linarith)]
    rcases hn with hn | hn
    · rw [abs_of_nonpos (by linarith)]
      linarith
    · rw [abs_of_nonneg (by linarith)]
      linarith

theorem halfEven_abs_le {q : ℚ} {n : ℕ} (h : |q| < n) : |halfEven q| ≤ n := by
  have hbounds := abs_lt.mp h
  have hlow : -(n : ℤ) ≤ ⌊q⌋ := Int.le_floor.mpr (by push_cast; exact hbounds.1.le)
  have hhigh : ⌊q⌋ < (n : ℤ) := Int.floor_lt.mpr (by push_cast; exact hbounds.2)
  rcases halfEven_cases q with ⟨he, _⟩ | ⟨he, _⟩
  · rw [he]
    exact abs_le.mpr ⟨hlow, hhigh.le⟩
  · rw [he]
    exact abs_le.mpr ⟨by omega, hhigh⟩

/-- The numbers of 53 significant bits above the least exponent, with no bound from above. -/
def IsBinary64 (y : ℚ) : Prop := ∃ m e : ℤ, |m| ≤ 2 ^ 53 ∧ -1074 ≤ e ∧ y = m * 2 ^ e

/-- The exponent of a number's last significant bit. -/
def lastBit (q : ℚ) : ℤ := max (Int.log 2 |q| - 52) (-1074)

/-- Round to nearest, ties to even, before the check for overflow. -/
def binary64 (q : ℚ) : ℚ := halfEven (q / 2 ^ lastBit q) * 2 ^ lastBit q

theorem isBinary64_binary64 (q : ℚ) : IsBinary64 (binary64 q) := by
  refine ⟨halfEven (q / 2 ^ lastBit q), lastBit q, ?_, le_max_right _ _, rfl⟩
  have hpos : (0 : ℚ) < 2 ^ lastBit q := by positivity
  have hlog : |q| < 2 ^ (Int.log 2 |q| + 1) := by
    simpa using Int.lt_zpow_succ_log_self (by decide : 1 < 2) |q|
  have hle : Int.log 2 |q| + 1 ≤ 53 + lastBit q := by
    have := le_max_left (Int.log 2 |q| - 52) (-1074)
    unfold lastBit
    omega
  have hmono : (2 : ℚ) ^ (Int.log 2 |q| + 1) ≤ 2 ^ (53 + lastBit q) :=
    zpow_le_zpow_right₀ (by norm_num) hle
  have hsmall : |q / 2 ^ lastBit q| < ((2 ^ 53 : ℕ) : ℚ) := by
    rw [abs_div, abs_of_pos hpos, div_lt_iff₀ hpos]
    calc |q| < 2 ^ (53 + lastBit q) := hlog.trans_le hmono
      _ = ((2 ^ 53 : ℕ) : ℚ) * 2 ^ lastBit q := by
        rw [zpow_add₀ (by norm_num)]
        norm_num
  exact_mod_cast halfEven_abs_le hsmall

/-- A multiple of the last bit is no nearer. -/
theorem binary64_nearest_multiple (q : ℚ) (n : ℤ) :
    |binary64 q - q| ≤ |(n : ℚ) * 2 ^ lastBit q - q| := by
  have hpos : (0 : ℚ) < 2 ^ lastBit q := by positivity
  have hq : q = q / 2 ^ lastBit q * 2 ^ lastBit q := by field_simp
  have hle := halfEven_nearest (q / 2 ^ lastBit q) n
  calc |binary64 q - q| = |(halfEven (q / 2 ^ lastBit q) : ℚ) - q / 2 ^ lastBit q| *
        2 ^ lastBit q := by
        rw [← abs_of_pos hpos, ← abs_mul, abs_of_pos hpos, sub_mul, ← hq]
        rfl
    _ ≤ |(n : ℚ) - q / 2 ^ lastBit q| * 2 ^ lastBit q := by gcongr
    _ = |(n : ℚ) * 2 ^ lastBit q - q| := by
        conv_lhs => rw [← abs_of_pos hpos, ← abs_mul, abs_of_pos hpos, sub_mul, ← hq]

/-- A number of the format that is finer than the last bit lies below the leading power of two. -/
theorem abs_lt_of_finer {q : ℚ} {m e : ℤ} (hm : |m| ≤ 2 ^ 53) (he : -1074 ≤ e)
    (hfine : e < lastBit q) :
    lastBit q = Int.log 2 |q| - 52 ∧ |(m : ℚ) * 2 ^ e| ≤ 2 ^ Int.log 2 |q| := by
  have hlast : lastBit q = Int.log 2 |q| - 52 := by
    unfold lastBit at *
    omega
  refine ⟨hlast, ?_⟩
  have hmq : |(m : ℚ)| ≤ 2 ^ (53 : ℤ) := by exact_mod_cast hm
  calc |(m : ℚ) * 2 ^ e| = |(m : ℚ)| * 2 ^ e := by
        rw [abs_mul, abs_of_pos (by positivity : (0 : ℚ) < 2 ^ e)]
    _ ≤ 2 ^ (53 : ℤ) * 2 ^ e := by gcongr
    _ = 2 ^ (53 + e) := (zpow_add₀ (by norm_num) _ _).symm
    _ ≤ 2 ^ Int.log 2 |q| := zpow_le_zpow_right₀ (by norm_num) (by omega)

theorem binary64_nearest (q y : ℚ) (hy : IsBinary64 y) : |binary64 q - q| ≤ |y - q| := by
  obtain ⟨m, e, hm, he, rfl⟩ := hy
  rcases le_or_gt (lastBit q) e with hle | hlt
  · -- the number is a multiple of the last bit
    have hmul : (m : ℚ) * 2 ^ e = ((m * 2 ^ (e - lastBit q).toNat : ℤ) : ℚ) * 2 ^ lastBit q := by
      have hnat : ((e - lastBit q).toNat : ℤ) = e - lastBit q := Int.toNat_of_nonneg (by omega)
      push_cast
      rw [mul_assoc, ← zpow_natCast, hnat, ← zpow_add₀ (by norm_num), sub_add_cancel]
    rw [hmul]
    exact binary64_nearest_multiple q _
  · -- it is too small: the leading power of two stands between it and the rounded number
    obtain ⟨hlast, habs⟩ := abs_lt_of_finer hm he hlt
    have hlead : (2 : ℚ) ^ Int.log 2 |q| = ((2 ^ 52 : ℤ) : ℚ) * 2 ^ lastBit q := by
      rw [hlast, zpow_sub₀ (by norm_num)]
      push_cast
      field_simp
    rcases eq_or_ne q 0 with rfl | hq
    · have hzero := binary64_nearest_multiple 0 0
      rw [Int.cast_zero, zero_mul, sub_self, abs_zero] at hzero
      exact hzero.trans (abs_nonneg _)
    have hlog : (2 : ℚ) ^ Int.log 2 |q| ≤ |q| := by
      simpa using Int.zpow_log_le_self (by decide : 1 < 2) (abs_pos.mpr hq)
    obtain ⟨hlow, hhigh⟩ := abs_le.mp habs
    have hpos := binary64_nearest_multiple q (2 ^ 52)
    have hneg := binary64_nearest_multiple q (-2 ^ 52)
    rw [Int.cast_neg, neg_mul] at hneg
    rw [← hlead] at hpos hneg
    generalize (2 : ℚ) ^ Int.log 2 |q| = top at *
    rcases abs_cases q with ⟨hqa, _⟩ | ⟨hqa, _⟩
    · refine hpos.trans ?_
      rw [abs_of_nonpos (by linarith), abs_of_nonpos (by linarith)]
      linarith
    · refine hneg.trans ?_
      rw [abs_of_nonneg (by linarith), abs_of_nonneg (by linarith)]
      linarith

theorem nearest_binary64 : Nearest {y | IsBinary64 y} binary64 where
  mem := isBinary64_binary64
  nearest := binary64_nearest

/-- An integer of at most 53 bits is a double. -/
theorem isBinary64_intCast {n : ℤ} (h : |n| ≤ 2 ^ 53) : IsBinary64 n :=
  ⟨n, 0, h, by norm_num, by simp⟩

/-- Rounding keeps the sign. -/
theorem binary64_nonneg {q : ℚ} (h : 0 ≤ q) : 0 ≤ binary64 q := by
  have hzero : IsBinary64 ((0 : ℤ) : ℚ) := isBinary64_intCast (by simp)
  have hmono := nearest_binary64.mono h
  have heq := nearest_binary64.eq_self hzero
  rw [Int.cast_zero] at heq
  rwa [heq] at hmono

example : binary64 (1 / 10) = 3602879701896397 / 36028797018963968 := by decide +kernel

end Rounding
