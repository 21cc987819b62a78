import Mathlib.Algebra.Order.Group.Defs

/-! The accumulator of lived time (`kaine/lifecycle/lived_time.py`), and the runs in which its
sources are read, fail and are replaced. Its clocks are read in exact arithmetic. -/
namespace Kaine.LivedTime

variable {T : Type} [AddCommGroup T] [LinearOrder T]

/-- How a call of a source ends. A clock that says none fails. -/
inductive Reading (T : Type) where
  | fails
  | nonFinite
  | reads (value : T)
  deriving DecidableEq

/-- A number that is not finite is read from the clock as any other; it is none here. -/
def Reading.number : Reading T → Option (Option T)
  | .fails => none
  | .nonFinite => some none
  | .reads value => some (some value)

structure LivedTimeAccumulator (T : Type) where
  hasClock : Bool
  hasPausedSource : Bool
  clockBaseline : Option (Option T) := none
  pausedBaseline : Option T := none
  deriving DecidableEq

namespace LivedTimeAccumulator

def setPausedSource (a : LivedTimeAccumulator T) (wired : Bool) : LivedTimeAccumulator T :=
  { a with hasPausedSource := wired, pausedBaseline := none }

/-- The paused time where a source is wired; none where that source fails. -/
def readPaused (a : LivedTimeAccumulator T) : Reading T → Option (Option T)
  | .reads value => some (if a.hasPausedSource then some value else none)
  | _ => if a.hasPausedSource then none else some none

/-- The lived time since the baselines, none where it is no finite number. -/
def delta (a : LivedTimeAccumulator T) (now baseline paused : Option T) : Option T := do
  let now ← now
  let baseline ← baseline
  match paused with
  | none => return now - baseline
  | some paused => return now - baseline - (paused - a.pausedBaseline.getD paused)

def positive : Option T → T
  | none => 0
  | some d => if 0 < d then d else 0

def step (a : LivedTimeAccumulator T) (clock paused : Reading T) : T × LivedTimeAccumulator T :=
  if a.hasClock then
    match clock.number with
    | none => (0, a)
    | some now =>
      match a.readPaused paused with
      -- the pauses inside this span are unknown, so both anchors go
      | none => (0, { a with clockBaseline := none, pausedBaseline := none })
      | some paused =>
        match a.clockBaseline with
        | none =>
          (0, { a with clockBaseline := some now, pausedBaseline := some (paused.getD 0) })
        | some baseline =>
          (positive (a.delta now baseline paused),
            { a with clockBaseline := some now, pausedBaseline := paused.or a.pausedBaseline })
  else (0, a)

end LivedTimeAccumulator

/-- The time that has passed, and how much of it paused. -/
structure World (T : Type) where
  now : T
  paused : T
  deriving DecidableEq

def World.unpaused (w : World T) : T := w.now - w.paused

/-- Time goes on, paused or not. -/
structure World.Later (w v : World T) : Prop where
  now : w.now ≤ v.now
  paused : w.paused ≤ v.paused
  unpaused : w.unpaused ≤ v.unpaused

/-- How the call of a source ends at a step. -/
inductive Outcome where
  | fails
  | nonFinite
  | ok
  deriving DecidableEq

def Outcome.reading (o : Outcome) (value : T) : Reading T :=
  match o with
  | .fails => .fails
  | .nonFinite => .nonFinite
  | .ok => .reads value

/-- An accumulator in its world, with what a run of it amounts to: the sum of its steps, the world
at its first anchor, the world at the anchor it now has, and the paused time of the spans over
which no one source was read at both ends. -/
structure System (T : Type) where
  acc : LivedTimeAccumulator T
  /-- A paused source counts from its own start. -/
  source : Option T
  world : World T
  total : T
  first : Option (World T)
  base : Option (World T)
  replaced : Bool
  unmeasured : T
  failed : Bool
  deriving DecidableEq

inductive Move (T : Type) where
  | read (world : World T) (clock paused : Outcome)
  | setPausedSource (source : Option T)

namespace System

def initial (hasClock : Bool) (source : Option T) (world : World T) : System T where
  acc := ⟨hasClock, source.isSome, none, none⟩
  source := source
  world := world
  total := 0
  first := none
  base := none
  replaced := false
  unmeasured := 0
  failed := false

/-- Whether a step gets numbers from its sources, and whether the clock's is finite. -/
def anchors (s : System T) (clock paused : Outcome) : Bool :=
  s.acc.hasClock && clock ≠ .fails && (s.source.isNone || paused = .ok)

/-- The paused time of the span that a step ends, where it is not measured. -/
def unmeasuredSpan (s : System T) (world : World T) : T :=
  match s.base with
  | some b => if s.source.isNone || s.replaced then world.paused - b.paused else 0
  | none => 0

/-- A step of the accumulator. Where its clock fails, the span goes on. -/
def read (s : System T) (world : World T) (clock paused : Outcome) : System T :=
  let stepped := s.acc.step (clock.reading world.now)
    (paused.reading (world.paused + s.source.getD 0))
  let anchored := s.anchors clock paused
  let good := anchored && clock = .ok
  { s with
    acc := stepped.2
    world
    total := s.total + stepped.1
    first := if anchored then s.first.or (some world) else s.first
    base :=
      if good then some world
      else if s.acc.hasClock && clock ≠ .fails then none
      else s.base
    replaced := !good && s.replaced
    unmeasured := s.unmeasured + if good then s.unmeasuredSpan world else 0
    failed := s.failed || !good }

def setPausedSource (s : System T) (source : Option T) : System T :=
  { s with acc := s.acc.setPausedSource source.isSome, source, replaced := true }

def step (s : System T) : Move T → System T
  | .read world clock paused => s.read world clock paused
  | .setPausedSource source => s.setPausedSource source

end System

/-- A step reads the world as it is by then. -/
def Move.Allowed (s : System T) : Move T → Prop
  | .read world _ _ => s.world.Later world
  | .setPausedSource _ => True

def Move.isRead : Move T → Bool
  | .read _ _ _ => true
  | .setPausedSource _ => false

def Step (s : System T) (move : Move T) (t : System T) : Prop := move.Allowed s ∧ t = s.step move

end Kaine.LivedTime
