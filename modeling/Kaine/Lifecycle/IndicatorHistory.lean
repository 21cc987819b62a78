import Kaine.Lifecycle.WelfareIndicators
import Kaine.Lib.Transition
import Kaine.Lib.Window

/-! The welfare indicators as a machine that is fed in order, and beside it a history of what it was
fed, from which every indicator is computed anew. -/
namespace Kaine.WelfareIndicators
open Py Window

/-- The indicators now, without changing any crossing state. -/
def IndicatorEvaluator.peek (e : IndicatorEvaluator) : Evaluation × IndicatorEvaluator :=
  ({ e.evaluate.1 with crossed := [] }, e.pruneWindow)

/-- What a caller does with an evaluator. -/
inductive Move where
  | observeState (t : PyFloat) (payload : Dict)
  | advance (t : PyFloat)
  | excludeStart (kind : ExclusionKind) (t : PyFloat)
  | excludeEnd (kind : ExclusionKind) (t : PyFloat)
  | restart
  | evaluate
  | peek

/-- The finite time that a move is at. Without one nothing but the last three is done. -/
def finite : PyFloat → Option ℚ
  | .fin t => some t
  | _ => none

namespace IndicatorEvaluator

/-- A state whose valence does not convert raises before anything is changed. -/
def observeOr (e : IndicatorEvaluator) (t : ℚ) (payload : Dict) : IndicatorEvaluator :=
  match e.observeState t payload with
  | .ok next => next
  | .error _ => e

def step (e : IndicatorEvaluator) : Move → Option Evaluation × IndicatorEvaluator
  | .observeState t payload => (none, (finite t).elim e fun t => e.observeOr t payload)
  | .advance t => (none, (finite t).elim e e.advance)
  | .excludeStart kind t => (none, (finite t).elim e (e.excludeStart kind))
  | .excludeEnd kind t => (none, (finite t).elim e (e.excludeEnd kind))
  | .restart => (none, e.restart)
  | .evaluate => (some e.evaluate.1, e.evaluate.2)
  | .peek => (some e.peek.1, e.peek.2)

end IndicatorEvaluator

/-- Whether one of the exclusions covers a time. -/
def covers (known : List Excluded) (t : ℚ) : Bool :=
  known.any fun x => x.start ≤ t && x.stop.all (t < ·)

/-- An accepted sample, with its counters of ended crossings and the exclusions known by then. -/
structure Heard where
  sample : Sample
  ends : UncontrolledDrive → Option (ℕ × ℕ)
  known : List Excluded

/-- A time that the evaluator was fed, with the exclusions known by then. -/
structure Feed where
  t : ℚ
  known : List Excluded

/-- The accepted samples, up to the last restart and after it. -/
structure Samples where
  before : List Heard := []
  since : List Heard := []

/-- The awake time between two samples: none if an exclusion covers the earlier one. -/
def gap (params : IndicatorParams) (a b : Heard) : ℚ :=
  if a.sample.t < b.sample.t ∧ ¬ covers b.known a.sample.t then
    min (b.sample.t - a.sample.t) params.maxGapS
  else 0

/-- The interval between two samples, where it is not empty. -/
def intervalOf (params : IndicatorParams) (p : (ℚ × Heard) × (ℚ × Heard)) : Option Interval :=
  if p.1.1 < p.2.1 then
    some ⟨p.1.1, p.2.1, p.1.2.sample.valence < -params.valenceBar, p.1.2.sample.above⟩
  else none

/-- What the counters of ended crossings gained from one reading to the next, if neither fell. -/
def gainOf (p : (ℚ × ℕ × ℕ) × (ℚ × ℕ × ℕ)) : Option CrossingEnds :=
  if p.1.2.1 ≤ p.2.2.1 ∧ p.1.2.2 ≤ p.2.2.2 ∧ p.1.2 ≠ p.2.2 then
    some ⟨p.2.1, p.2.2.1 - p.1.2.1, p.2.2.2 - p.1.2.2⟩
  else none

namespace Samples
variable (params : IndicatorParams) (s : Samples)

def all : List Heard := s.before ++ s.since

/-- Every awake second between the samples. -/
def awake : ℚ := total (gap params) s.all

def restartPos : ℚ := total (gap params) s.before

def windowStart : ℚ := max (s.restartPos params) (s.awake params - params.spanS)

def spanAwakeS : ℚ := max 0 (s.awake params - s.windowStart params)

def evaluable : Bool := params.minSpanS ≤ s.spanAwakeS params

/-- The intervals of the span. The first one starts at the last sample before the restart. -/
def intervals : List Interval :=
  (pairs ((placed (gap params) s.all).drop (s.before.length - 1))).filterMap (intervalOf params)

/-- The readings of a drive's counters since the restart, each at its position. -/
def counters (drive : UncontrolledDrive) : List (ℚ × ℕ × ℕ) :=
  ((placed (gap params) s.all).drop s.before.length).filterMap fun p =>
    (p.2.ends drive).map (p.1, ·)

def ends (drive : UncontrolledDrive) : List CrossingEnds :=
  (pairs (s.counters params drive)).filterMap gainOf

/-- The time of the window within the intervals that pass a test. -/
def awakeWhere (p : Interval → Bool) : ℚ :=
  (((s.intervals params).filter p).map fun iv =>
    max 0 (min iv.stop (s.awake params) - max iv.start (s.windowStart params))).sum

def value : Indicator → Option ℚ
  | .deprived drive =>
    IndicatorEvaluator.share (s.awakeWhere params fun iv => iv.above drive = some true)
      (s.awakeWhere params fun iv => (iv.above drive).isSome)
  | .negativeValence =>
    IndicatorEvaluator.share (s.awakeWhere params Interval.negative)
      (s.awakeWhere params fun _ => true)
  | .uncontrolled drive =>
    let ends := (s.ends params drive).filter fun x => s.windowStart params < x.position
    some (powerPosterior (ends.map CrossingEnds.own).sum (ends.map CrossingEnds.other).sum)

/-- The condition that is evaluated. -/
def isOver (name : Indicator) : Bool :=
  s.evaluable params && (s.value params name).any fun value => params.bar name ≤ value

end Samples

/-- The furthest of the times fed so far. -/
def furthestFrom (m : Option ℚ) (feeds : List Feed) : Option ℚ :=
  feeds.foldl (fun m feed => some (m.elim feed.t (max · feed.t))) m

/-- How far one time fed goes beyond the furthest before it, unless an exclusion covers that. -/
def silentStep (m : Option ℚ) (feed : Feed) : ℚ :=
  match m with
  | none => 0
  | some m => if m < feed.t ∧ ¬ covers feed.known m then feed.t - m else 0

/-- The steps of the times fed that begin outside the exclusions. -/
def silenceFrom : Option ℚ → List Feed → ℚ
  | _, [] => 0
  | m, feed :: feeds => silentStep m feed + silenceFrom (furthestFrom m [feed]) feeds

/-- What an evaluator was fed: the samples it accepted, and as they were at its last evaluation
since the restart; the exclusions; the furthest time by the latest sample, and the times after. -/
structure History where
  samples : Samples := {}
  evaluated : Option Samples := none
  excluded : List Excluded := []
  heardBy : Option ℚ := none
  feeds : List Feed := []

namespace History

def furthest (h : History) : Option ℚ := furthestFrom h.heardBy h.feeds

def silence (h : History) : ℚ := silenceFrom h.heardBy h.feeds

def feed (h : History) (t : ℚ) : History := { h with feeds := h.feeds ++ [⟨t, h.excluded⟩] }

def latest (h : History) : Option Sample := h.samples.all.getLast?.map Heard.sample

/-- A sample behind the latest one is only a time fed. -/
def hear (h : History) (t valence : ℚ) (payload : Dict) : History :=
  if h.latest.any fun sample => t < sample.t then h.feed t
  else
    { h with
      samples := { h.samples with
        since := h.samples.since ++
          [⟨⟨t, valence, readAbove payload⟩, readEnds payload, h.excluded⟩] }
      heardBy := (h.feed t).furthest
      feeds := [] }

def observeState (h : History) (t : ℚ) (payload : Dict) : History :=
  match readValence payload with
  | .ok (some valence) => h.hear t valence payload
  | _ => h

def excludeStart (h : History) (kind : ExclusionKind) (t : ℚ) : History :=
  if h.excluded.any fun x => x.kind = kind ∧ x.isOpen then h
  else { h with excluded := h.excluded ++ [⟨kind, t, none⟩] }

def excludeEnd (h : History) (kind : ExclusionKind) (t : ℚ) : History :=
  { h with excluded := (closeNewest kind t h.excluded.reverse).reverse }

def restart (h : History) : History :=
  { h with samples := ⟨h.samples.all, []⟩, evaluated := none }

/-- Whether an indicator was over its bar at the last evaluation since the restart. -/
def wasOver (params : IndicatorParams) (h : History) (name : Indicator) : Bool :=
  h.evaluated.any fun samples => samples.isOver params name

/-- The indicators of a history. A crossing is a rising edge of the evaluated condition. -/
def evaluation (params : IndicatorParams) (h : History) : Evaluation where
  readings := indicatorNames.map fun name =>
    ⟨name, h.samples.value params name, params.bar name, h.samples.isOver params name⟩
  spanAwakeS := h.samples.spanAwakeS params
  evaluable := h.samples.evaluable params
  crossed := indicatorNames.filter fun name =>
    h.samples.isOver params name && !h.wasOver params name
  available := h.silence < params.unavailableAfterS

/-- A peek leaves no trace. -/
def step (params : IndicatorParams) (h : History) : Move → Option Evaluation × History
  | .observeState t payload => (none, (finite t).elim h fun t => h.observeState t payload)
  | .advance t => (none, (finite t).elim h h.feed)
  | .excludeStart kind t => (none, (finite t).elim h (h.excludeStart kind))
  | .excludeEnd kind t => (none, (finite t).elim h (h.excludeEnd kind))
  | .restart => (none, h.restart)
  | .evaluate => (some (h.evaluation params), { h with evaluated := some h.samples })
  | .peek => (some { h.evaluation params with crossed := [] }, h)

end History
end Kaine.WelfareIndicators
