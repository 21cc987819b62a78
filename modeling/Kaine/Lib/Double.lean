import Kaine.Lib.PyFloat
import Kaine.Lib.Rounding

/-! Doubles, whose every operation rounds its exact result once. -/
namespace Py
open Rounding

/-- The least power of two beyond the finite doubles. -/
@[irreducible] def doubleBound : ℚ := ((2 ^ 1024 : ℕ) : ℚ)

/-- A float with the proof that binary64 holds it. The two zeros are one. -/
structure Double where
  val : PyFloat
  rep : ∀ q, val = .fin q → IsBinary64 q ∧ |q| < doubleBound

namespace Double

@[ext] theorem ext {x y : Double} (h : x.val = y.val) : x = y := by
  cases x
  cases y
  cases h
  rfl

instance instDecidableEq : DecidableEq Double := fun x y =>
  decidable_of_iff (x.val = y.val) ⟨ext, congrArg val⟩

instance instLT : LT Double := ⟨fun x y => x.val.lt y.val = true⟩

instance instLE : LE Double := ⟨fun x y => x.val.le y.val = true⟩

instance instDecidableLT : DecidableLT Double := fun x y =>
  inferInstanceAs (Decidable (x.val.lt y.val = true))

instance instDecidableLE : DecidableLE Double := fun x y =>
  inferInstanceAs (Decidable (x.val.le y.val = true))

def nan : Double := ⟨.nan, fun _ h => by cases h⟩

/-- `math.inf`. -/
def inf : Double := ⟨.posInf, fun _ h => by cases h⟩

def negInf : Double := ⟨.negInf, fun _ h => by cases h⟩

/-- The nearest double, which is infinite where the rounded number is out of range. -/
def round (q : ℚ) : Double :=
  if h : |binary64 q| < doubleBound then ⟨.fin (binary64 q), fun _ he => by
    cases he
    exact ⟨isBinary64_binary64 q, h⟩⟩
  else if 0 < binary64 q then inf
  else negInf

def isFinite (x : Double) : Bool := x.val.isFinite

/-- The number whose sign a float has: none for a NaN. -/
def signed : PyFloat → ℚ
  | .nan => 0
  | .negInf => -1
  | .posInf => 1
  | .fin q => q

/-- The infinity of a sign, and a NaN where there is none. -/
def infinity (s : ℚ) : Double := if 0 < s then inf else if s < 0 then negInf else nan

protected def neg (x : Double) : Double :=
  match x.val with
  | .fin q => round (-q)
  | v => infinity (-signed v)

protected def add (x y : Double) : Double :=
  match x.val, y.val with
  | .fin p, .fin q => round (p + q)
  | .nan, _ | _, .nan | .posInf, .negInf | .negInf, .posInf => nan
  | .posInf, _ | _, .posInf => inf
  | .negInf, _ | _, .negInf => negInf

protected def mul (x y : Double) : Double :=
  match x.val, y.val with
  | .fin p, .fin q => round (p * q)
  | v, w => infinity (signed v * signed w)

/-- The quotient by a divisor other than zero. -/
protected def div (x y : Double) : Double :=
  match x.val, y.val with
  | .fin p, .fin q => round (p / q)
  | .fin _, .posInf | .fin _, .negInf => round 0
  | v, .fin q => infinity (signed v * q)
  | _, _ => nan

instance instNeg : Neg Double := ⟨Double.neg⟩
instance instAdd : Add Double := ⟨Double.add⟩
instance instSub : Sub Double := ⟨fun x y => x + -y⟩
instance instMul : Mul Double := ⟨Double.mul⟩
instance instDiv : Div Double := ⟨Double.div⟩

/-- `min(x, y)`: the second only where it is smaller. -/
def pyMin (x y : Double) : Double := if y < x then y else x

variable {x y z : Double} {p q : ℚ}

theorem lt_iff : x < y ↔ x.val.lt y.val = true := Iff.rfl

theorem le_iff : x ≤ y ↔ x.val.le y.val = true := Iff.rfl

theorem isFinite_iff : x.isFinite = true ↔ ∃ q, x.val = .fin q := PyFloat.isFinite_iff

theorem le_refl (h : x.val ≠ .nan) : x ≤ x := by
  rw [le_iff]
  cases hx : x.val <;> simp_all [PyFloat.le]

theorem le_of_lt (h : x < y) : x ≤ y := by
  rw [lt_iff] at h
  rw [le_iff]
  cases hx : x.val <;> cases hy : y.val <;> simp_all [PyFloat.lt, PyFloat.le]
  exact h.le

theorem le_trans (hxy : x ≤ y) (hyz : y ≤ z) : x ≤ z := by
  rw [le_iff] at *
  cases hx : x.val <;> cases hy : y.val <;> cases hz : z.val <;> simp_all [PyFloat.le]
  exact hxy.trans hyz

theorem lt_of_lt_of_le (hxy : x < y) (hyz : y ≤ z) : x < z := by
  rw [lt_iff] at *
  rw [le_iff] at hyz
  cases hx : x.val <;> cases hy : y.val <;> cases hz : z.val <;> simp_all [PyFloat.le, PyFloat.lt]
  exact hxy.trans_le hyz

theorem lt_of_le_of_lt (hxy : x ≤ y) (hyz : y < z) : x < z := by
  rw [lt_iff, le_iff] at *
  cases hx : x.val <;> cases hy : y.val <;> cases hz : z.val <;> simp_all [PyFloat.le, PyFloat.lt]
  exact hxy.trans_lt hyz

theorem le_of_not_lt (hx : x.val ≠ .nan) (hy : y.val ≠ .nan) (h : ¬x < y) : y ≤ x :=
  (PyFloat.lt_false_iff_le hx hy).mp (by simpa [lt_iff] using h)

theorem not_lt_of_le (h : x ≤ y) : ¬y < x := by
  rw [le_iff] at h
  rw [lt_iff]
  cases hx : x.val <;> cases hy : y.val <;> simp_all [PyFloat.le, PyFloat.lt]

theorem ne_nan_of_le (h : x ≤ y) : x.val ≠ .nan ∧ y.val ≠ .nan := by
  constructor
  · intro hx
    simp [le_iff, hx] at h
  · intro hy
    simp [le_iff, hy] at h

/-- What compares below or above something is no NaN. -/
theorem ne_nan_of_lt (h : x < y) : x.val ≠ .nan ∧ y.val ≠ .nan := by
  constructor
  · intro hx
    simp [lt_iff, hx] at h
  · intro hy
    simp [lt_iff, hy] at h

theorem binary64_mono (h : p ≤ q) : binary64 p ≤ binary64 q := nearest_binary64.mono h

theorem round_val (h : |binary64 q| < doubleBound) : (round q).val = .fin (binary64 q) := by
  simp [round, h]

theorem round_ne_nan (q : ℚ) : (round q).val ≠ .nan := by
  unfold round
  split_ifs <;> simp [inf, negInf]

theorem le_inf (h : x.val ≠ .nan) : x ≤ inf := by
  rw [le_iff]
  cases hx : x.val <;> simp_all [PyFloat.le, inf]

theorem negInf_le (h : x.val ≠ .nan) : negInf ≤ x := by
  rw [le_iff]
  cases hx : x.val <;> simp_all [PyFloat.le, negInf]

theorem round_eq (hx : x.val = .fin q) : round q = x := by
  obtain ⟨hmem, hbound⟩ := x.rep q hx
  have hself : binary64 q = q := nearest_binary64.eq_self hmem
  refine ext ?_
  rw [round_val (by rwa [hself]), hself, hx]

theorem round_mono (h : p ≤ q) : round p ≤ round q := by
  have hmono := binary64_mono h
  rw [le_iff]
  unfold round
  split_ifs with hp hq hqpos hppos hq' hqpos' hq'' hqpos''
  · simpa using hmono
  · rfl
  · -- a negative number that is out of range lies below every number in range
    have hlow := (abs_lt.mp hp).1
    rw [abs_of_nonpos (not_lt.mp hqpos)] at hq
    exact absurd (by linarith : -binary64 q < doubleBound) hq
  · have hhigh := (abs_lt.mp hq').2
    rw [abs_of_pos hppos] at hp
    exact absurd (hmono.trans_lt hhigh) hp
  · rfl
  · exact absurd (hppos.trans_le hmono) hqpos'
  · rfl
  · rfl
  · rfl

theorem neg_fin (hx : x.val = .fin q) : -x = round (-q) := by
  change Double.neg x = _
  rw [Double.neg, hx]

theorem isBinary64_neg (h : IsBinary64 q) : IsBinary64 (-q) := by
  obtain ⟨m, e, hm, he, rfl⟩ := h
  exact ⟨-m, e, by rwa [abs_neg], he, by push_cast; ring⟩

theorem val_neg (hx : x.val = .fin q) : (-x).val = .fin (-q) := by
  obtain ⟨hmem, hbound⟩ := x.rep q hx
  have hself : binary64 (-q) = -q := nearest_binary64.eq_self (isBinary64_neg hmem)
  rw [neg_fin hx, round_val (by rwa [hself, abs_neg]), hself]

protected theorem sub_eq_add_neg (x y : Double) : x - y = x + -y := rfl

theorem add_fin (hx : x.val = .fin p) (hy : y.val = .fin q) : x + y = round (p + q) := by
  change Double.add x y = _
  rw [Double.add, hx, hy]

theorem sub_fin (hx : x.val = .fin p) (hy : y.val = .fin q) : x - y = round (p - q) := by
  rw [Double.sub_eq_add_neg, sub_eq_add_neg p q]
  exact add_fin hx (val_neg hy)

theorem sub_negInf (hx : x.val = .fin p) (hy : y.val = .negInf) : x - y = inf := by
  have hneg : -y = inf := by
    change Double.neg y = _
    rw [Double.neg, hy]
    simp [signed, infinity]
  rw [Double.sub_eq_add_neg, hneg]
  change Double.add x inf = _
  rw [Double.add, hx]
  rfl

theorem sub_posInf (hx : x.val = .fin p) (hy : y.val = .posInf) : x - y = negInf := by
  have hneg : -y = negInf := by
    change Double.neg y = _
    rw [Double.neg, hy]
    simp [signed, infinity]
  rw [Double.sub_eq_add_neg, hneg]
  change Double.add x negInf = _
  rw [Double.add, hx]
  rfl

theorem add_posInf (hx : x.val = .fin p) (hy : y.val = .posInf) : x + y = inf := by
  change Double.add x y = _
  rw [Double.add, hx, hy]

theorem mul_fin (hx : x.val = .fin p) (hy : y.val = .fin q) : x * y = round (p * q) := by
  change Double.mul x y = _
  rw [Double.mul, hx, hy]

theorem mul_posInf (hx : 0 < signed x.val) (hy : y.val = .posInf) : x * y = inf := by
  have hsign : infinity (signed x.val * signed y.val) = inf :=
    if_pos (mul_pos hx (by rw [hy]; exact zero_lt_one))
  change Double.mul x y = _
  rw [← hsign, Double.mul, hy]
  cases x.val <;> rfl

theorem posInf_mul (hx : x.val = .posInf) (hy : 0 < signed y.val) : x * y = inf := by
  have hsign : infinity (signed x.val * signed y.val) = inf :=
    if_pos (mul_pos (by rw [hx]; exact zero_lt_one) hy)
  change Double.mul x y = _
  rw [← hsign, Double.mul, hx]

theorem div_fin (hx : x.val = .fin p) (hy : y.val = .fin q) : x / y = round (p / q) := by
  change Double.div x y = _
  rw [Double.div, hx, hy]

theorem doubleBound_pos : 0 < doubleBound := by
  unfold doubleBound
  positivity

theorem round_zero : (round 0).val = .fin 0 := by
  have hzero : binary64 0 = 0 := nearest_binary64.eq_self ⟨0, 0, by simp, by norm_num, by simp⟩
  rw [round_val (by rw [hzero, abs_zero]; exact doubleBound_pos), hzero]

/-- What is taken away leaves no more, rounding included. -/
theorem sub_le_self (hx : x.val = .fin p) (hy : round 0 ≤ y) : x - y ≤ x := by
  rw [le_iff, round_zero] at hy
  cases hval : y.val with
  | nan => simp [hval] at hy
  | negInf => simp [hval, PyFloat.le] at hy
  | posInf =>
    rw [sub_posInf hx hval, le_iff, hx]
    rfl
  | fin q =>
    rw [hval, PyFloat.le_fin] at hy
    rw [sub_fin hx hval]
    have hmono : round (p - q) ≤ round p := round_mono (by linarith)
    rwa [round_eq hx] at hmono

theorem le_add_self (hx : x.val = .fin p) (hy : round 0 ≤ y) : x ≤ x + y := by
  rw [le_iff, round_zero] at hy
  cases hval : y.val with
  | nan => simp [hval] at hy
  | negInf => simp [hval, PyFloat.le] at hy
  | posInf =>
    rw [add_posInf hx hval]
    exact le_inf (by simp [hx])
  | fin q =>
    rw [hval, PyFloat.le_fin] at hy
    rw [add_fin hx hval]
    have hmono : round p ≤ round (p + q) := round_mono (by linarith)
    rwa [round_eq hx] at hmono

/-- The later of two readings is the nearer to what follows both. -/
theorem sub_le_sub_left (hx : x.isFinite = true) (hz : z.isFinite = true) (h : y ≤ z) :
    x - z ≤ x - y := by
  obtain ⟨p, hp⟩ := isFinite_iff.mp hx
  obtain ⟨r, hr⟩ := isFinite_iff.mp hz
  rw [le_iff, hr] at h
  rw [sub_fin hp hr]
  cases hy : y.val with
  | nan => simp [hy] at h
  | posInf => simp [hy, PyFloat.le] at h
  | negInf =>
    rw [sub_negInf hp hy]
    exact le_inf (round_ne_nan _)
  | fin q =>
    rw [hy, PyFloat.le_fin] at h
    rw [sub_fin hp hy]
    exact round_mono (by linarith)

theorem sub_ne_nan (hx : x.isFinite = true) (h : y ≤ x) : (x - y).val ≠ .nan := by
  obtain ⟨p, hp⟩ := isFinite_iff.mp hx
  rw [le_iff, hp] at h
  cases hy : y.val with
  | nan => simp [hy] at h
  | posInf => simp [hy, PyFloat.le] at h
  | negInf =>
    rw [sub_negInf hp hy]
    exact fun hne => by cases hne
  | fin q =>
    rw [sub_fin hp hy]
    exact round_ne_nan _

theorem pyMin_le_left (h : (pyMin x y).val ≠ .nan) : pyMin x y ≤ x := by
  unfold pyMin at *
  split_ifs at * with hlt
  · exact le_of_lt hlt
  · exact le_refl h

theorem pyMin_le_right (h : (pyMin x y).val ≠ .nan) (hy : y.val ≠ .nan) : pyMin x y ≤ y := by
  unfold pyMin at *
  split_ifs at * with hlt
  · exact le_refl h
  · exact le_of_not_lt hy h hlt

end Double
end Py
