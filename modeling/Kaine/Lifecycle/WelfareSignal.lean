import Kaine.Lib.PyFloat

/-! The detectors of welfare signals (`kaine/lifecycle/welfare_signal.py`). -/
namespace Kaine.WelfareSignal
open Py

variable {T : Type} [Add T] [Sub T] [LT T] [DecidableLT T] [LE T] [DecidableLE T]

/-- An episode at or above the threshold: its onset and its last sample, each on the unfrozen and on
the wall clock. The four are set and cleared together. -/
structure Episode (T : Type) where
  since : T
  sinceWall : T
  lastSample : T
  lastSampleWall : T
  deriving DecidableEq

structure SustainedThresholdTracker (T : Type) where
  threshold : PyFloat
  durationS : T
  episode : Option (Episode T) := none
  deriving DecidableEq

namespace SustainedThresholdTracker

def reset (d : SustainedThresholdTracker T) : SustainedThresholdTracker T :=
  { d with episode := none }

/-- Wall time up to the last sample, and unfrozen time since. -/
def elapsed (e : Episode T) (now : T) : T :=
  (e.lastSampleWall - e.sinceWall) + (now - e.lastSample)

/-- One sample: true at a sustained crossing, which clears the episode. -/
def observe (d : SustainedThresholdTracker T) (magnitude : PyFloat) (now wallNow : T) :
    Bool × SustainedThresholdTracker T :=
  if d.threshold.le magnitude then
    let e : Episode T :=
      match d.episode with
      | none => ⟨now, wallNow, now, wallNow⟩
      | some e => { e with lastSample := now, lastSampleWall := wallNow }
    if d.durationS ≤ elapsed e now then (true, d.reset) else (false, { d with episode := some e })
  else (false, d.reset)

/-- The same crossing by the passage of time alone. -/
def checkTimeout (d : SustainedThresholdTracker T) (now : T) :
    Bool × SustainedThresholdTracker T :=
  match d.episode with
  | none => (false, d)
  | some e => if d.durationS ≤ elapsed e now then (true, d.reset) else (false, d)

end SustainedThresholdTracker

structure WindowedEventCounter (T : Type) where
  windowS : T
  threshold : ℤ
  timestamps : List T := []
  deriving DecidableEq

namespace WindowedEventCounter

def reset (c : WindowedEventCounter T) : WindowedEventCounter T := { c with timestamps := [] }

/-- One event: true where the window holds enough of them, which empties it. -/
def record (c : WindowedEventCounter T) (now : T) : Bool × WindowedEventCounter T :=
  let kept := (c.timestamps ++ [now]).dropWhile fun t => t < now - c.windowS
  if 0 < c.threshold ∧ c.threshold ≤ kept.length then (true, c.reset)
  else (false, { c with timestamps := kept })

end WindowedEventCounter
end Kaine.WelfareSignal
