import Kaine.Lib.Json
import Mathlib.Data.List.DropRight
import Mathlib.Data.Rat.Floor

/-! Windowed learning progress of one source (`kaine/modules/affect/learning_progress.py`), over the
rationals. -/
namespace Kaine.LearningProgress
open Py

/-- The sum and the count of the errors of a bin. -/
structure Bin where
  sum : ℚ
  count : ℕ
  deriving DecidableEq

def Bin.empty : Bin := ⟨0, 0⟩

/-- The constructor's arguments, which pass its checks. -/
structure Settings where
  binS : ℚ
  maxBins : ℕ
  binS_pos : 0 < binS
  two_le : 2 ≤ maxBins
  even : maxBins % 2 = 0

structure WindowedProgress where
  origin : Option ℚ := none
  bins : List Bin := []
  currentIdx : ℤ := 0
  current : Bin := .empty
  deriving DecidableEq

def meanOf (bins : List Bin) : ℚ := (bins.map Bin.sum).sum / (bins.map Bin.count).sum

/-- The relative fall of the mean error from the older half of the bins to the newer. -/
def progress (all : List Bin) : Option ℚ :=
  let k := all.length / 2 * 2
  if k < 2 then none
  else
    let bins := all.rtake k
    let older := bins.take (k / 2)
    let newer := bins.drop (k / 2)
    if (older.map Bin.count).sum = 0 ∨ (newer.map Bin.count).sum = 0 then none
    else if meanOf older ≤ 1 / 10 ^ 9 then none
    else some (max (-1) (min 1 (1 - meanOf newer / meanOf older)))

/-- `validate_pair` and `from_dict` take the numbers that are no bools. -/
def asFloat : Json → Except PyError (Option PyFloat)
  | .int n => (PyFloat.ofInt n).map some
  | .float x => .ok (some x)
  | _ => .ok none

def countOf : Json → Option ℕ
  | .int n => if n < 0 then none else some n.toNat
  | .float (.fin q) => if q < 0 ∨ q.den ≠ 1 then none else some q.num.toNat
  | _ => none

/-- `_validate_pair`. -/
def validatePair (item : Json) : Except PyError (Option Bin) :=
  match item with
  | .arr [rawSum, rawCount] =>
    match asFloat rawSum with
    | .error e => .error e
    | .ok (some (.fin sum)) =>
      if sum < 0 then .ok none
      else
        match countOf rawCount with
        | some count => .ok (if count = 0 ∧ sum ≠ 0 then none else some ⟨sum, count⟩)
        | none => .ok none
    | .ok _ => .ok none
  | _ => .ok none

/-- All of the bins, or none where one of them is invalid; the first that raises raises. -/
def validateBins : List Json → Except PyError (Option (List Bin))
  | [] => .ok (some [])
  | item :: rest =>
    match validatePair item with
    | .error e => .error e
    | .ok none => .ok none
    | .ok (some bin) => (validateBins rest).map fun bins => bins.map fun bins => bin :: bins

namespace WindowedProgress

variable (cfg : Settings)

def started (s : WindowedProgress) : Bool := s.origin.isSome

/-- `extend` of a deque that keeps its last members. -/
def extend (bins more : List Bin) : List Bin := (bins ++ more).rtake cfg.maxBins

/-- The number of the bin that a time falls in. -/
def binOf (origin t : ℚ) : ℤ := ⌊(t - origin) / cfg.binS⌋

def advance (s : WindowedProgress) (t : ℚ) : WindowedProgress :=
  match s.origin with
  | none => s
  | some origin =>
    let idx := binOf cfg origin t
    if idx ≤ s.currentIdx then s
    else
      let gap := idx - s.currentIdx - 1
      { s with
        bins :=
          if cfg.maxBins < gap then .replicate cfg.maxBins .empty
          else extend cfg (extend cfg s.bins [s.current]) (.replicate gap.toNat .empty)
        currentIdx := idx
        current := .empty }

def add (s : WindowedProgress) (t error : ℚ) : WindowedProgress :=
  match s.origin with
  | none =>
    if error ≤ 0 then s else { s with origin := some t, currentIdx := 0, current := ⟨error, 1⟩ }
  | some _ =>
    let s := s.advance cfg t
    { s with current := ⟨s.current.sum + error, s.current.count + 1⟩ }

def value (s : WindowedProgress) (t : ℚ) : Option ℚ × WindowedProgress :=
  (progress (s.advance cfg t).bins, s.advance cfg t)

def elapsed (s : WindowedProgress) (origin t : ℚ) : ℚ :=
  let elapsed := t - (origin + s.currentIdx * cfg.binS)
  if elapsed < 0 then 0 else if cfg.binS < elapsed then cfg.binS else elapsed

def pairOf (bin : Bin) : Json := .arr [.float (.fin bin.sum), .int bin.count]

/-- What `to_dict` returns of an advanced estimator. -/
def saved (s : WindowedProgress) (origin t : ℚ) : Dict :=
  [("bin_s", .float (.fin cfg.binS)), ("bins", .arr (s.bins.map pairOf)),
    ("current", pairOf s.current), ("elapsed_s", .float (.fin (s.elapsed cfg origin t)))]

def toDict (s : WindowedProgress) (t : ℚ) : Except PyError Dict × WindowedProgress :=
  match s.origin with
  | none => (.error .valueError, s)
  | some origin =>
    let s := s.advance cfg t
    (.ok (s.saved cfg origin t), s)

/-- `from_dict` with the settings of the estimator that is restored. -/
def fromDict (data : Json) (t : ℚ) : Except PyError (Option WindowedProgress) := do
  let some data := data.asDict | return none
  let some (.fin savedBinS) ← asFloat (data.get "bin_s") | return none
  if 1 / 10 ^ 9 < |savedBinS - cfg.binS| then return none
  let .arr rawBins := data.get "bins" | return none
  let some bins ← validateBins rawBins | return none
  let some current ← validatePair (data.get "current") | return none
  let some (.fin elapsed) ← asFloat (data.get "elapsed_s") | return none
  if elapsed < 0 ∨ cfg.binS < elapsed then return none
  return some
    { origin := some (t - elapsed), bins := bins.rtake cfg.maxBins, currentIdx := 0, current }

end WindowedProgress

/-- The calls whose effect on the estimator is asked about. -/
inductive Op where
  | add (t error : ℚ)
  | advance (t : ℚ)
  | value (t : ℚ)

def Op.time : Op → ℚ
  | .add t _ | .advance t | .value t => t

/-- A call, with what a value call returns. -/
def perform (cfg : Settings) (s : WindowedProgress) : Op → Option (Option ℚ) × WindowedProgress
  | .add t error => (none, s.add cfg t error)
  | .advance t => (none, s.advance cfg t)
  | .value t => (some (s.value cfg t).1, (s.value cfg t).2)

def run (cfg : Settings) (s : WindowedProgress) (ops : List Op) : WindowedProgress :=
  ops.foldl (fun s op => (perform cfg s op).2) s

/-- What the value calls return, in order. -/
def outputs (cfg : Settings) (s : WindowedProgress) : List Op → List (Option ℚ)
  | [] => []
  | op :: ops => (perform cfg s op).1.toList ++ outputs cfg (perform cfg s op).2 ops

end Kaine.LearningProgress
