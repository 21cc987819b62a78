import Kaine.Lib.Json
import Kaine.Lib.Rounding

/-! Python's `int`, of which `bool` is a part, and its union with `float`, as JSON carries them. -/
namespace Py

inductive PyInt where
  | bool (b : Bool)
  | int (n : ℤ)
  deriving DecidableEq, Repr

namespace PyInt

def value : PyInt → ℤ
  | .bool b => if b then 1 else 0
  | .int n => n

def toJson : PyInt → Json
  | .bool b => .bool b
  | .int n => .int n

end PyInt

inductive PyNumber where
  | int (n : PyInt)
  | float (x : PyFloat)
  deriving DecidableEq, Repr

namespace Json

/-- The value where `isinstance(v, int)`. -/
def asInt : Json → Option PyInt
  | .bool b => some (.bool b)
  | .int n => some (.int n)
  | _ => none

/-- The value where `isinstance(v, (int, float))`. -/
def asPyNumber : Json → Option PyNumber
  | .float x => some (.float x)
  | v => v.asInt.map .int

end Json

@[simp] theorem asInt_toJson (n : PyInt) : n.toJson.asInt = some n := by cases n <;> rfl

namespace PyNumber

def toJson : PyNumber → Json
  | .int n => n.toJson
  | .float x => .float x

@[simp] theorem asPyNumber_toJson (x : PyNumber) : x.toJson.asPyNumber = some x := by
  rcases x with (_ | _) | _ <;> rfl

/-- The exact value, by which Python compares. -/
def value : PyNumber → PyFloat
  | .int n => .fin n.value
  | .float x => x

/-- `float(x)`. A finite float is its own rounding. -/
def toFloat : PyNumber → Except PyError PyFloat
  | .int n =>
    if |n.value| < PyFloat.overflowBound then .ok (.fin (Rounding.binary64 n.value))
    else .error .overflowError
  | .float (.fin q) => .ok (.fin (Rounding.binary64 q))
  | .float x => .ok x

/-- `math.isfinite(x)`. -/
def isFinite (x : PyNumber) : Except PyError Bool := x.toFloat.map PyFloat.isFinite

/-- `x - t` for a float `t` that is small beside the largest one. -/
def subFloat (x : PyNumber) (t : ℚ) : Except PyError PyFloat :=
  x.toFloat.map fun
    | .fin q => .fin (Rounding.binary64 (q - t))
    | y => y

/-- The nearest double to a finite number. -/
def double (x : PyNumber) : ℚ :=
  match x.value with
  | .fin q => Rounding.binary64 q
  | _ => 0

/-- A number that is finite as a float has its nearest double as value. -/
theorem toFloat_of_isFinite {x : PyNumber} (h : x.isFinite = .ok true) :
    x.toFloat = .ok (.fin x.double) ∧ ∃ q, x.value = .fin q ∧ x.double = Rounding.binary64 q := by
  rcases x with n | y
  · by_cases hn : |n.value| < PyFloat.overflowBound
    · exact ⟨by simp [toFloat, hn, double, value], n.value, rfl, rfl⟩
    · simp [isFinite, toFloat, hn, Except.map] at h
  · cases y with
    | fin q => exact ⟨rfl, q, rfl, rfl⟩
    | nan | negInf | posInf => simp [isFinite, toFloat, Except.map, PyFloat.isFinite] at h

theorem subFloat_of_isFinite {x : PyNumber} (h : x.isFinite = .ok true) (t : ℚ) :
    x.subFloat t = .ok (.fin (Rounding.binary64 (x.double - t))) := by
  simp [subFloat, (toFloat_of_isFinite h).1, Except.map]

/-- A number that does not compare below a difference is a double at least near what it came
from. -/
theorem double_of_not_lt {x y : PyNumber} {t : ℚ} (hx : x.isFinite = .ok true)
    (hy : y.isFinite = .ok true) (ht : 0 ≤ t)
    (h : y.value.lt (.fin (Rounding.binary64 (x.double - t))) = false) :
    x.double - 2 * t ≤ y.double := by
  obtain ⟨-, p, -, hp⟩ := toFloat_of_isFinite hx
  obtain ⟨-, q, hq, hqd⟩ := toFloat_of_isFinite hy
  have hmem : Rounding.IsBinary64 x.double := hp ▸ Rounding.isBinary64_binary64 p
  have hnear := Rounding.nearest_binary64.sub_two_mul_le hmem ht
  have hle : Rounding.binary64 (x.double - t) ≤ q := by
    rw [hq] at h
    simpa [PyFloat.lt] using h
  have hmono := Rounding.nearest_binary64.mono hle
  rw [Rounding.nearest_binary64.idem, ← hqd] at hmono
  exact hnear.trans hmono

end PyNumber
/-- A time that has passed, as a float holds it. -/
abbrev Seconds := {q : ℚ // 0 ≤ q ∧ Rounding.IsBinary64 q}

def Seconds.zero : Seconds := ⟨0, le_rfl, 0, 0, by simp⟩

/-- The nearest double to a number that is not negative. -/
def Seconds.round (q : ℚ) (h : 0 ≤ q) : Seconds :=
  ⟨Rounding.binary64 q, Rounding.binary64_nonneg h, Rounding.isBinary64_binary64 q⟩

/-- The time that a float is, unless it is negative or not finite. -/
def Seconds.ofFloat : PyFloat → Option Seconds
  | .fin q => if h : 0 ≤ q then some (.round q h) else none
  | .nan | .negInf | .posInf => none

theorem Seconds.binary64_eq (t : Seconds) : Rounding.binary64 t = t :=
  Rounding.nearest_binary64.eq_self t.2.2

@[simp] theorem Seconds.ofFloat_coe (t : Seconds) : Seconds.ofFloat (.fin t) = some t := by
  have hround : Seconds.round t t.2.1 = t := Subtype.ext t.binary64_eq
  simp [Seconds.ofFloat, t.2.1, hround]

@[simp] theorem PyNumber.toFloat_seconds (t : Seconds) :
    PyNumber.toFloat (.float (.fin t)) = .ok (.fin t) := by
  simp [PyNumber.toFloat, t.binary64_eq]

/-- `float(v)`, where an integer is rounded, with `ofText` for the text that `float` reads. -/
def Json.toDouble (ofText : String → Option PyFloat) (v : Json) : Except PyError PyFloat :=
  match v with
  | .str s =>
    match ofText s with
    | some x => .ok x
    | none => .error .valueError
  | v =>
    match v.asPyNumber with
    | some x => x.toFloat
    | none => .error .typeError

end Py
