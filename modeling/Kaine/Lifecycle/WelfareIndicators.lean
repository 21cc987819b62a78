import Kaine.Lib.PyNumber
import Mathlib.Algebra.BigOperators.Intervals

/-! The welfare indicators over the latest span of awake time
(`kaine/lifecycle/welfare_indicators.py`), in exact arithmetic. -/
namespace Kaine.WelfareIndicators
open Py

inductive DeficitDrive where
  | boredom
  | socialDrive
  | restlessness
  deriving DecidableEq, Repr

/-- The deficits with an uncontrolled indicator. -/
inductive UncontrolledDrive where
  | boredom
  | restlessness
  deriving DecidableEq, Repr

inductive Indicator where
  | deprived (drive : DeficitDrive)
  | negativeValence
  | uncontrolled (drive : UncontrolledDrive)
  deriving DecidableEq, Repr

def DeficitDrive.key : DeficitDrive → String
  | .boredom => "boredom"
  | .socialDrive => "social_drive"
  | .restlessness => "restlessness"

def UncontrolledDrive.key : UncontrolledDrive → String
  | .boredom => "boredom"
  | .restlessness => "restlessness"

def Indicator.name : Indicator → String
  | .deprived drive => drive.key ++ "_deprived"
  | .negativeValence => "negative_valence"
  | .uncontrolled drive => drive.key ++ "_uncontrolled"

/-- The fixed order of records and reasons. -/
def indicatorNames : List Indicator :=
  [.deprived .boredom, .deprived .socialDrive, .deprived .restlessness, .negativeValence,
    .uncontrolled .boredom, .uncontrolled .restlessness]

def unavailableAfterPeriods : ℚ := 3

/-- `P(power < 1/2)` under a uniform prior. -/
def powerPosterior (own other : ℕ) : ℚ :=
  let n := own + other + 1
  (∑ i ∈ Finset.Icc (own + 1) n, (n.choose i : ℚ)) / 2 ^ n

/-- The parameters, checked as the source checks them. -/
structure IndicatorParams where
  spanS : ℚ
  minSpanS : ℚ
  valenceBar : ℚ
  publishIntervalS : ℚ
  shareBar : ℚ
  posteriorBar : ℚ
  maxGapS : ℚ
  minSpan_pos : 0 < minSpanS
  minSpan_le : minSpanS ≤ spanS
  valenceBar_nonneg : 0 ≤ valenceBar
  publishInterval_pos : 0 < publishIntervalS
  shareBar_mem : 0 < shareBar ∧ shareBar ≤ 1
  posteriorBar_mem : 0 < posteriorBar ∧ posteriorBar ≤ 1
  maxGap_pos : 0 < maxGapS

/-- The values that the source gives the fields where a configuration names none. -/
def defaultParams : IndicatorParams where
  spanS := 5400
  minSpanS := 600
  valenceBar := 1 / 2
  publishIntervalS := 1
  shareBar := 1 / 2
  posteriorBar := 19 / 20
  maxGapS := 5
  minSpan_pos := by norm_num
  minSpan_le := by norm_num
  valenceBar_nonneg := by norm_num
  publishInterval_pos := by norm_num
  shareBar_mem := by norm_num
  posteriorBar_mem := by norm_num
  maxGap_pos := by norm_num

def IndicatorParams.bar (params : IndicatorParams) : Indicator → ℚ
  | .uncontrolled _ => params.posteriorBar
  | _ => params.shareBar

def IndicatorParams.unavailableAfterS (params : IndicatorParams) : ℚ :=
  unavailableAfterPeriods * params.publishIntervalS

structure IndicatorReading where
  name : Indicator
  value : Option ℚ
  bar : ℚ
  overBar : Bool
  deriving DecidableEq

structure Evaluation where
  readings : List IndicatorReading
  spanAwakeS : ℚ
  evaluable : Bool
  crossed : List Indicator
  available : Bool
  deriving DecidableEq

/-- Awake time between two samples, with what the earlier one said. -/
structure Interval where
  start : ℚ
  stop : ℚ
  negative : Bool
  above : DeficitDrive → Option Bool

/-- Crossings of a drive that ended, at a position. -/
structure CrossingEnds where
  position : ℚ
  own : ℕ
  other : ℕ

inductive ExclusionKind where
  | sleep
  | freeze
  deriving DecidableEq

structure Excluded where
  kind : ExclusionKind
  start : ℚ
  stop : Option ℚ

def Excluded.isOpen (x : Excluded) : Bool := x.stop.isNone

/-- The latest sample. -/
structure Sample where
  t : ℚ
  valence : ℚ
  above : DeficitDrive → Option Bool

/-- The evaluator. Its positions count awake seconds, and its times are those of the caller. -/
structure IndicatorEvaluator where
  params : IndicatorParams
  pos : ℚ := 0
  restartPos : ℚ := 0
  intervals : List Interval := []
  ends : UncontrolledDrive → List CrossingEnds := fun _ => []
  lastEnds : UncontrolledDrive → Option (ℕ × ℕ) := fun _ => none
  current : Option Sample := none
  excluded : List Excluded := []
  overBar : Indicator → Bool := fun _ => false
  tLast : Option ℚ := none
  silentS : ℚ := 0

/-- The valence of a state that counts as a sample. -/
def readValence (payload : Dict) : Except PyError (Option ℚ) :=
  match Dict.get payload "state" with
  | .obj state =>
    match Dict.get state "valence" with
    | .bool _ => .ok none
    | v =>
      match v.asPyNumber with
      | none => .ok none
      | some x => x.toFloat.map fun
        | .fin q => some q
        | _ => none
  | _ => .ok none

def readAbove (payload : Dict) (drive : DeficitDrive) : Option Bool :=
  match Dict.get payload "drive_above" with
  | .obj above =>
    match Dict.get above drive.key with
    | .bool b => some b
    | _ => none
  | _ => none

/-- `_count`. -/
def countOf : Json → Option ℕ
  | .int n => if 0 ≤ n then some n.toNat else none
  | _ => none

def readEnds (payload : Dict) (drive : UncontrolledDrive) : Option (ℕ × ℕ) :=
  match Dict.get payload "drive_ends" with
  | .obj ends =>
    match Dict.get ends drive.key with
    | .obj entry =>
      match countOf (Dict.get entry "own"), countOf (Dict.get entry "other") with
      | some own, some other => some (own, other)
      | _, _ => none
    | _ => none
  | _ => none

/-- Close the newest open interval of a kind. -/
def closeNewest (kind : ExclusionKind) (t : ℚ) : List Excluded → List Excluded
  | [] => []
  | x :: older =>
    if x.kind = kind ∧ x.isOpen then { x with stop := some t } :: older
    else x :: closeNewest kind t older

namespace IndicatorEvaluator

def excludeStart (e : IndicatorEvaluator) (kind : ExclusionKind) (t : ℚ) : IndicatorEvaluator :=
  if e.excluded.any fun x => x.kind = kind ∧ x.isOpen then e
  else { e with excluded := e.excluded ++ [⟨kind, t, none⟩] }

/-- Exclusions that ended by the latest sample are of no more use. -/
def pruneExcluded (e : IndicatorEvaluator) : IndicatorEvaluator :=
  match e.current with
  | none => e
  | some sample => { e with excluded := e.excluded.filter fun x => x.stop.all (sample.t < ·) }

def excludeEnd (e : IndicatorEvaluator) (kind : ExclusionKind) (t : ℚ) : IndicatorEvaluator :=
  { e with excluded := (closeNewest kind t e.excluded.reverse).reverse }.pruneExcluded

def isExcluded (e : IndicatorEvaluator) (t : ℚ) : Bool :=
  e.excluded.any fun x => x.start ≤ t && x.stop.all (t < ·)

/-- Time passes without a sample, and counts as silence while awake. -/
def advance (e : IndicatorEvaluator) (t : ℚ) : IndicatorEvaluator :=
  match e.tLast with
  | none => { e with tLast := some t }
  | some last =>
    if last < t then
      { e with
        silentS := if e.isExcluded last then e.silentS else e.silentS + (t - last)
        tLast := some t }
    else e

def windowStart (e : IndicatorEvaluator) : ℚ := max e.restartPos (e.pos - e.params.spanS)

def pruneWindow (e : IndicatorEvaluator) : IndicatorEvaluator :=
  { e with
    intervals := e.intervals.dropWhile fun iv => iv.stop ≤ e.windowStart
    ends := fun drive => (e.ends drive).dropWhile fun x => x.position ≤ e.windowStart }

/-- The time since the latest sample, as far as it counts as awake. -/
def accrue (e : IndicatorEvaluator) (t : ℚ) : IndicatorEvaluator :=
  match e.current with
  | none => e
  | some sample =>
    if sample.t < t ∧ ¬ e.isExcluded sample.t then
      let pos := e.pos + min (t - sample.t) e.params.maxGapS
      { e with
        pos
        intervals := e.intervals ++
          [⟨e.pos, pos, sample.valence < -e.params.valenceBar, sample.above⟩] }
    else e

/-- What the counters of ended crossings gained. A fall is a new baseline. -/
def noteEnds (e : IndicatorEvaluator) (payload : Dict) : IndicatorEvaluator :=
  { e with
    lastEnds := fun drive => (readEnds payload drive).orElse fun _ => e.lastEnds drive
    ends := fun drive =>
      match readEnds payload drive, e.lastEnds drive with
      | some (own, other), some (lastOwn, lastOther) =>
        if lastOwn ≤ own ∧ lastOther ≤ other ∧ (lastOwn, lastOther) ≠ (own, other) then
          e.ends drive ++ [⟨e.pos, own - lastOwn, other - lastOther⟩]
        else e.ends drive
      | _, _ => e.ends drive }

/-- A sample behind the current one, from a clock that ran back, ends no silence. -/
def observeState (e : IndicatorEvaluator) (t : ℚ) (payload : Dict) :
    Except PyError IndicatorEvaluator :=
  (readValence payload).map fun
    | none => e
    | some valence =>
      let e := e.advance t
      if e.current.any fun sample => t < sample.t then e
      else
        let e := ({ e with silentS := 0 }.accrue t).noteEnds payload
        ({ e with current := some ⟨t, valence, readAbove payload⟩ }.pruneExcluded).pruneWindow

def spanAwakeS (e : IndicatorEvaluator) : ℚ := max 0 (e.pos - e.windowStart)

def available (e : IndicatorEvaluator) : Bool := e.silentS < e.params.unavailableAfterS

/-- Restart the span, and put every crossing state below its bar. -/
def restart (e : IndicatorEvaluator) : IndicatorEvaluator :=
  { e with
    restartPos := e.pos
    intervals := []
    ends := fun _ => []
    lastEnds := fun _ => none
    overBar := fun _ => false }

/-- The time of the span within the intervals that pass a test. -/
def awakeWhere (e : IndicatorEvaluator) (p : Interval → Bool) : ℚ :=
  ((e.intervals.filter p).map fun iv =>
    max 0 (min iv.stop e.pos - max iv.start e.windowStart)).sum

/-- One time as a share of another, none where that is empty. -/
def share (part whole : ℚ) : Option ℚ := if 0 < whole then some (part / whole) else none

def value (e : IndicatorEvaluator) : Indicator → Option ℚ
  | .deprived drive =>
    share (e.awakeWhere fun iv => iv.above drive = some true)
      (e.awakeWhere fun iv => (iv.above drive).isSome)
  | .negativeValence => share (e.awakeWhere Interval.negative) (e.awakeWhere fun _ => true)
  | .uncontrolled drive =>
    let ends := (e.ends drive).filter fun x => e.windowStart < x.position
    some (powerPosterior (ends.map CrossingEnds.own).sum (ends.map CrossingEnds.other).sum)

def isOver (e : IndicatorEvaluator) (name : Indicator) : Bool :=
  (e.value name).any fun value => e.params.bar name ≤ value

def evaluable (e : IndicatorEvaluator) : Bool := e.params.minSpanS ≤ e.spanAwakeS

/-- The indicators now, with crossings as edges. -/
def evaluate (e : IndicatorEvaluator) : Evaluation × IndicatorEvaluator :=
  let e := e.pruneWindow
  (⟨indicatorNames.map fun name =>
      ⟨name, e.value name, e.params.bar name, e.evaluable && e.isOver name⟩,
    e.spanAwakeS, e.evaluable,
    if e.evaluable then indicatorNames.filter fun name => e.isOver name && !e.overBar name else [],
    e.available⟩,
   if e.evaluable then { e with overBar := e.isOver } else e)

section
variable (e : IndicatorEvaluator) (kind : ExclusionKind) (t : ℚ) (payload : Dict)

@[simp] theorem restartPos_pruneExcluded : e.pruneExcluded.restartPos = e.restartPos := by
  unfold pruneExcluded
  split <;> rfl

@[simp] theorem restartPos_excludeStart :
    (e.excludeStart kind t).restartPos = e.restartPos := by
  unfold excludeStart
  split <;> rfl

@[simp] theorem restartPos_excludeEnd : (e.excludeEnd kind t).restartPos = e.restartPos := by
  simp [excludeEnd]

@[simp] theorem restartPos_advance : (e.advance t).restartPos = e.restartPos := by
  unfold advance
  split
  · rfl
  · split <;> rfl

@[simp] theorem restartPos_accrue : (e.accrue t).restartPos = e.restartPos := by
  unfold accrue
  split
  · rfl
  · split <;> rfl

@[simp] theorem restartPos_pruneWindow : e.pruneWindow.restartPos = e.restartPos := rfl

@[simp] theorem restartPos_noteEnds : (e.noteEnds payload).restartPos = e.restartPos := rfl

/-- Only a restart moves the start of the spans. -/
theorem restartPos_observeState {e' : IndicatorEvaluator} (h : e.observeState t payload = .ok e') :
    e'.restartPos = e.restartPos := by
  cases hv : readValence payload with
  | error err => simp [observeState, hv, Except.map] at h
  | ok valence =>
    simp only [observeState, hv, Except.map, Except.ok.injEq] at h
    subst h
    cases valence with
    | none => rfl
    | some valence =>
      dsimp only
      split <;> simp

@[simp] theorem restartPos_evaluate : e.evaluate.2.restartPos = e.restartPos := by
  simp only [evaluate]
  split <;> rfl

theorem restartPos_le_windowStart : e.restartPos ≤ e.windowStart := le_max_left _ _

end
end IndicatorEvaluator
end Kaine.WelfareIndicators
