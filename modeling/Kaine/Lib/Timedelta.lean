import Kaine.Lib.Double

/-! The `timedelta` of a number of seconds and the `datetime` that it is added to. -/
namespace Py
open Rounding

/-- The microseconds of a number of seconds before they are rounded: those of the whole seconds are
exact, those of the rest are a product of floats. -/
def microseconds (seconds : ℚ) : ℚ :=
  let whole : ℤ := if 0 ≤ seconds then ⌊seconds⌋ else ⌈seconds⌉
  1000000 * whole + binary64 (1000000 * (seconds - whole))

/-- `timedelta(seconds=...)` in whole microseconds, `none` where it raises. -/
def timedelta (seconds : Double) : Option ℤ :=
  match seconds.val with
  | .fin q =>
    let us := halfEven (microseconds q)
    if -86399999913600000000 ≤ us ∧ us ≤ 86399999999999999999 then some us else none
  | _ => none

/-- A UTC `datetime`, by its microseconds after 1970, with a `timedelta` added: `none` outside of
the years 1 to 9999. -/
def datetimeAdd (moment delta : ℤ) : Option ℤ :=
  if -62135596800000000 ≤ moment + delta ∧ moment + delta ≤ 253402300799999999
    then some (moment + delta)
  else none

variable {x : Double} {q : ℚ} {us moment delta : ℤ}

theorem timedelta_eq_some :
    timedelta x = some us ↔
      ∃ q, x.val = .fin q ∧ halfEven (microseconds q) = us ∧ -86399999913600000000 ≤ us ∧
        us ≤ 86399999999999999999 := by
  unfold timedelta
  cases hx : x.val with
  | fin q =>
    dsimp only
    split_ifs with hrange
    · constructor
      · intro h
        obtain rfl := Option.some.inj h
        exact ⟨q, rfl, rfl, hrange⟩
      · rintro ⟨q', hq, rfl, -⟩
        obtain rfl := PyFloat.fin.inj hq
        rfl
    · refine ⟨fun h => (by cases h), ?_⟩
      rintro ⟨q', hq, rfl, hrange'⟩
      obtain rfl := PyFloat.fin.inj hq
      exact absurd hrange' hrange
  | _ =>
    refine ⟨fun h => (by cases h), ?_⟩
    rintro ⟨q', hq, -⟩
    cases hq

theorem datetimeAdd_eq_some {sum : ℤ} :
    datetimeAdd moment delta = some sum ↔
      moment + delta = sum ∧ -62135596800000000 ≤ sum ∧ sum ≤ 253402300799999999 := by
  unfold datetimeAdd
  split_ifs with hrange
  · constructor
    · intro h
      obtain rfl := Option.some.inj h
      exact ⟨rfl, hrange⟩
    · rintro ⟨rfl, -⟩
      rfl
  · refine ⟨fun h => (by cases h), ?_⟩
    rintro ⟨rfl, hrange'⟩
    exact absurd hrange' hrange

theorem microseconds_of_nonneg (h : 0 ≤ q) :
    microseconds q = 1000000 * ⌊q⌋ + binary64 (1000000 * (q - ⌊q⌋)) := by
  rw [microseconds, if_pos h]

theorem microseconds_zero : microseconds 0 = 0 := by
  have hzero : binary64 0 = 0 := nearest_binary64.eq_self ⟨0, 0, by simp, by norm_num, by simp⟩
  rw [microseconds_of_nonneg le_rfl]
  simp [hzero]

/-- A step of a millionth of a second is at least a microsecond, whatever is rounded. -/
theorem one_le_of_millionth (h : 1 / 2 ^ 20 ≤ q) : 1 ≤ halfEven (microseconds q) := by
  have hpos : 0 ≤ q := le_trans (by norm_num) h
  have hlong : 3 / 4 ≤ microseconds q := by
    rw [microseconds_of_nonneg hpos]
    have hfloor := Int.floor_nonneg.mpr hpos
    have hrest : 0 ≤ binary64 (1000000 * (q - ⌊q⌋)) :=
      binary64_nonneg (mul_nonneg (by norm_num) (sub_nonneg.mpr (Int.floor_le q)))
    rcases hfloor.lt_or_eq with hwhole | hzero
    · have hone : (1 : ℚ) ≤ ⌊q⌋ := by exact_mod_cast hwhole
      linarith
    · have hthree : binary64 (3 / 4) = 3 / 4 :=
        nearest_binary64.eq_self ⟨3, -2, by norm_num, by norm_num, by norm_num⟩
      rw [← hzero, Int.cast_zero, mul_zero, zero_add, sub_zero, ← hthree]
      exact nearest_binary64.mono (by linarith)
  by_contra hlt
  have hle : (halfEven (microseconds q) : ℚ) ≤ 0 := by exact_mod_cast not_lt.mp hlt
  have hnear := halfEven_nearest (microseconds q) 1
  rw [abs_of_nonpos (by linarith)] at hnear
  rcases le_total (microseconds q) 1 with hq | hq
  · rw [Int.cast_one, abs_of_nonneg (by linarith)] at hnear
    linarith
  · rw [Int.cast_one, abs_of_nonpos (by linarith)] at hnear
    linarith

/-- Whole multiples of a 64th of a second have whole microseconds, and none is lost. -/
theorem microseconds_of_sixtyFourths {n : ℕ} (h : q = n / 64) : microseconds q = 1000000 * q := by
  have hpos : 0 ≤ q := by rw [h]; positivity
  have hrest : 1000000 * (q - ⌊q⌋) = ((15625 * ((n : ℤ) - 64 * ⌊q⌋) : ℤ) : ℚ) := by
    rw [h]
    push_cast
    ring
  have hfloor := Int.floor_le q
  have hceil := Int.lt_floor_add_one q
  have hbound : |15625 * ((n : ℤ) - 64 * ⌊q⌋)| ≤ 2 ^ 53 := by
    have hn : (n : ℚ) = 64 * q := by rw [h]; ring
    have hlow : (64 * ⌊q⌋ : ℚ) ≤ n := by linarith
    have hhigh : (n : ℚ) < 64 * ⌊q⌋ + 64 := by linarith
    have hlow' : 64 * ⌊q⌋ ≤ (n : ℤ) := by exact_mod_cast hlow
    have hhigh' : (n : ℤ) < 64 * ⌊q⌋ + 64 := by exact_mod_cast hhigh
    rw [abs_of_nonneg (by omega)]
    omega
  rw [microseconds_of_nonneg hpos, hrest, nearest_binary64.eq_self (isBinary64_intCast hbound),
    ← hrest]
  ring

end Py
