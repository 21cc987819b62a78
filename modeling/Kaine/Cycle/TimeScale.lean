import Kaine.Lib.Double

/-! The controller of automatic time dilation (`kaine/cycle/time_scale_controller.py`). -/
namespace Kaine.TimeScale
open Py

structure TimeScaleSettings where
  ceiling : Double
  floor : Double := .round (1 / 10)
  target : Double := .round (17 / 20)
  high : Double := .round (19 / 20)
  low : Double := .round (3 / 5)
  dwellS : Double := .round 10
  windowS : Double := .round 30
  maxUpFactor : Double := .round (5 / 4)

/-- A check whose failure raises `ValueError`. -/
def check (ok : Prop) [Decidable ok] : Except PyError Unit :=
  if ok then .ok () else .error .valueError

/-- The check that a setting is finite and above a bound. -/
def above (bound v : Double) : Except PyError Unit := check (v.isFinite = true ∧ ¬v ≤ bound)

def TimeScaleSettings.postInit (s : TimeScaleSettings) : Except PyError Unit := do
  above (.round 0) s.ceiling
  above (.round 0) s.floor
  check (¬s.ceiling < s.floor)
  above (.round 0) s.target
  above (.round 0) s.high
  above (.round 0) s.low
  check (s.low < s.target ∧ s.target < s.high)
  above (.round 0) s.dwellS
  above (.round 0) s.windowS
  above (.round 1) s.maxUpFactor

/-- Settings that the constructor accepts. -/
structure Settings extends TimeScaleSettings where
  accepted : toTimeScaleSettings.postInit = .ok ()

inductive Reason where
  | overload
  | headroom
  deriving DecidableEq

structure ScaleChange where
  old : Double
  new : Double
  reason : Reason
  utilization : Double
  deriving DecidableEq

/-- The smoothed utilization and the time of its last sample, which are set together. -/
structure Average where
  ema : Double
  lastSampleTime : Double

structure TimeScaleController where
  average : Option Average := none
  overloadSince : Option Double := none
  headroomSince : Option Double := none
  lastChangeTime : Double := .negInf

/-- The arguments of `observe`; `none` is Python's `None`. -/
structure Reading where
  busyMs : Option Double
  periodMs : Option Double
  nowWallS : Option Double
  currentScale : Option Double

structure Sample where
  busyMs : Double
  periodMs : Double
  nowWallS : Double
  currentScale : Double

/-- A number that passes `math.isfinite`, which raises on `None`. What refuses a reading is the
error that is raised, or none where `observe` returns. -/
def finite (v : Option Double) : Except (Option PyError) Double :=
  match v with
  | none => .error (some .typeError)
  | some x => if x.isFinite then .ok x else .error none

def accept (r : Reading) : Except (Option PyError) Sample := do
  let busyMs ← finite r.busyMs
  let periodMs ← finite r.periodMs
  let nowWallS ← finite r.nowWallS
  let currentScale ← finite r.currentScale
  if periodMs ≤ .round 0 ∨ busyMs < .round 0 ∨ currentScale ≤ .round 0 then throw none
  return ⟨busyMs, periodMs, nowWallS, currentScale⟩

namespace TimeScaleController

-- `exp` is `math.exp`; nothing is assumed of it.
variable (settings : TimeScaleSettings) (exp : Double → Double)

def smooth (c : TimeScaleController) (u now : Double) : Double :=
  match c.average with
  | none => u
  | some a =>
    let dt := if now - a.lastSampleTime < .round 0 then .round 0 else now - a.lastSampleTime
    let alpha := .round 1 - exp (-dt / settings.windowS)
    a.ema + alpha * (u - a.ema)

/-- Since when a condition has held without a break. -/
def holdsSince (holds : Prop) [Decidable holds] (since : Option Double) (now : Double) :
    Option Double :=
  if holds then some (since.getD now) else none

def sampled (c : TimeScaleController) (x : Sample) : TimeScaleController :=
  let ema := c.smooth settings exp (x.busyMs / x.periodMs) x.nowWallS
  { c with
    average := some ⟨ema, x.nowWallS⟩
    overloadSince := holdsSince (settings.high < ema) c.overloadSince x.nowWallS
    headroomSince := holdsSince (ema < settings.low) c.headroomSince x.nowWallS }

def clamp (scale : Double) : Double :=
  if scale < settings.floor then settings.floor
  else if settings.ceiling < scale then settings.ceiling
  else scale

/-- The scale that an overload asks for, where it is due and lower. -/
def overloadScale (c : TimeScaleController) (ema : Double) (x : Sample) : Option Double :=
  match c.overloadSince with
  | none => none
  | some since =>
    let sStar := clamp settings (x.currentScale * settings.target / ema)
    if settings.dwellS ≤ x.nowWallS - since ∧ sStar < x.currentScale - .round (1 / 10 ^ 9)
      then some sStar
    else none

/-- The scale that headroom allows, where it is due and higher. -/
def headroomScale (c : TimeScaleController) (ema : Double) (x : Sample) : Option Double :=
  match c.headroomSince with
  | none => none
  | some since =>
    let sStar := if ema = .round 0 then .inf else x.currentScale * settings.target / ema
    let new := ((x.currentScale * settings.maxUpFactor).pyMin sStar).pyMin settings.ceiling
    if .round 3 * settings.dwellS ≤ x.nowWallS - since ∧ x.currentScale + .round (1 / 10 ^ 9) < new
      then some new
    else none

def applyChange (newScale ema : Double) (reason : Reason) (x : Sample) :
    ScaleChange × TimeScaleController :=
  let new := clamp settings newScale
  (⟨x.currentScale, new, reason, ema⟩,
    { average := some ⟨ema * new / x.currentScale, x.nowWallS⟩
      overloadSince := none
      headroomSince := none
      lastChangeTime := x.nowWallS })

/-- The change that a sampled reading triggers, with what the state becomes. -/
def adapt (c : TimeScaleController) (ema : Double) (x : Sample) :
    Option (ScaleChange × TimeScaleController) :=
  if x.nowWallS - c.lastChangeTime < settings.dwellS then none
  else
    match c.overloadScale settings ema x with
    | some new => some (applyChange settings new ema .overload x)
    | none =>
      match c.headroomScale settings ema x with
      | some new => some (applyChange settings new ema .headroom x)
      | none => none

def observe (c : TimeScaleController) (r : Reading) :
    Except PyError (Option ScaleChange) × TimeScaleController :=
  match accept r with
  | .error none => (.ok none, c)
  | .error (some e) => (.error e, c)
  | .ok x =>
    let ema := c.smooth settings exp (x.busyMs / x.periodMs) x.nowWallS
    match (c.sampled settings exp x).adapt settings ema x with
    | some (change, c') => (.ok (some change), c')
    | none => (.ok none, c.sampled settings exp x)

/-- The state after a sequence of readings. -/
def observeAll (c : TimeScaleController) (rs : List Reading) : TimeScaleController :=
  rs.foldl (fun c r => (c.observe settings exp r).2) c

/-- The changes that a sequence of readings triggers, each with its reading. -/
def changes (c : TimeScaleController) : List Reading → List (Reading × ScaleChange)
  | [] => []
  | r :: rest =>
    match c.observe settings exp r with
    | (.ok (some change), c') => (r, change) :: changes c' rest
    | (_, c') => changes c' rest

end TimeScaleController
end Kaine.TimeScale
