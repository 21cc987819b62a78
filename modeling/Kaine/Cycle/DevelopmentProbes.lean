import Kaine.Lib.PyNumber
import Mathlib.Data.List.Sort
import Mathlib.Data.String.Basic

/-! The settings of the developmental readout (`DevelopmentReadoutConfig` of
`kaine/cycle/development.py`). The bounded probes of the developmental phase (`DevelopmentOwner` of
`kaine/cycle/development.py`). -/
namespace Kaine.Development
open Py

def withdrawalMaxSeconds : ℚ := 30
def perturbationMaxSeconds : ℚ := 10

/-- The value of a field. -/
inductive Setting
  | flag (b : Bool)
  | number (x : ℚ)
deriving DecidableEq

/-- The fields with their defaults. -/
def fields : List (String × Setting) :=
  [("readout_period_seconds", .number 60), ("sample_hz", .number 10),
   ("withdrawal_period_seconds", .number 1800), ("withdrawal_seconds", .number 20),
     ("perturbation_period_seconds", .number 3600),
   ("perturbation_seconds", .number 5), ("baseline_drive_fraction", .number (1 / 2)),
   ("perturbation_drive_fraction", .number (3 / 4)), ("probe_jitter_fraction", .number (1 / 4)),
   ("entrainment_window_seconds", .number 300), ("entrainment_band_low_hz", .number (3 / 10)),
   ("entrainment_band_high_hz", .number 2), ("edge_trim_seconds", .number 2),
   ("frequency_pull_floor", .number (1 / 2)), ("baseline_withdrawals", .number 3),
   ("hrv_window_seconds", .number 300), ("recovery_tolerance", .number (1 / 4)),
   ("recovery_cap_seconds", .number 300), ("entrainment_replications", .number 3),
   ("surrogate_count", .number 19), ("viability_watch", .flag true),
     ("viability_r0_hours", .number 6),
   ("viability_r1_hours", .number 24), ("viability_r1_pull", .number (3 / 25)),
   ("viability_r1_slope_per_hour", .number (1 / 500)), ("viability_r2_hours", .number 48),
   ("viability_r2_pull", .number (3 / 10)), ("viability_r3_hours", .number 60),
   ("viability_window_hours", .number 12), ("viability_min_points", .number 8)]

inductive ConfigError
  | notDict
  | unknownKeys (keys : List String)
  | valueError (text : String)
  | overflowError
deriving DecidableEq

/-- A check of one field's number. -/
def checkNumber (name : String) (fv : ℚ) : Except ConfigError Setting :=
  if name = "probe_jitter_fraction" then
    if fv < 0 ∨ fv > 1 / 2 then .error (.valueError s!"{name} must be in [0.0, 0.5]")
      else .ok (.number fv)
  else if name = "viability_r1_slope_per_hour" then
    if fv < 0 then .error (.valueError s!"{name} must be >= 0") else .ok (.number fv)
  else if name = "viability_min_points" then
    if fv.den ≠ 1 ∨ fv < 2 then .error (.valueError s!"{name} must be an integer >= 2")
      else .ok (.number fv)
  else if fv ≤ 0 then .error (.valueError s!"{name} must be finite and > 0")
  else if name = "entrainment_replications" ∨ name = "surrogate_count" then
    if fv.den ≠ 1 ∨ fv < 1 then .error (.valueError s!"{name} must be an integer >= 1")
      else .ok (.number fv)
  else if name = "perturbation_drive_fraction" ∧
    fv > 1 then .error (.valueError s!"{name} must be <= 1.0")
  else if name = "baseline_drive_fraction" ∧
    fv > 1 then .error (.valueError s!"{name} must be in (0, 1]")
  else if name = "frequency_pull_floor" ∧ fv > 1 then .error (.valueError s!"{name} must be <= 1.0")
  else if name = "withdrawal_seconds" ∧ fv > withdrawalMaxSeconds then
    .error (.valueError s!"{name} must be <= 30.0")
  else if name = "perturbation_seconds" ∧ fv > perturbationMaxSeconds then
    .error (.valueError s!"{name} must be <= 10.0")
  else .ok (.number fv)

/-- The setting of one field. -/
def readField (data : Dict) (name : String) (default : Setting) : Except ConfigError Setting :=
  match data.lookup name with
  | none => .ok default
  | some value =>
    if name = "viability_watch" then
      match value with
      | .bool b => .ok (.flag b)
      | _ => .error (.valueError s!"{name} must be a bool")
    else
      match value with
      | .bool _ => .error (.valueError s!"{name} must be numeric, not bool")
      | .int n =>
        match PyFloat.ofInt n with
        | .ok (.fin fv) => checkNumber name fv
        | _ => .error .overflowError
      | .float (.fin fv) => checkNumber name fv
      | .float _ => .error (.valueError s!"{name} must be finite and > 0")
      | _ => .error (.valueError s!"{name} must be a finite number")

/-- The settings by their names. -/
structure DevelopmentReadoutConfig where
  kwargs : List (String × Setting)
deriving DecidableEq

namespace DevelopmentReadoutConfig

def number (c : DevelopmentReadoutConfig) (name : String) : ℚ :=
  match c.kwargs.lookup name with
  | some (.number x) => x
  | _ => 0

def readoutPeriodSeconds (c : DevelopmentReadoutConfig) : ℚ := c.number "readout_period_seconds"
def withdrawalPeriodSeconds (c : DevelopmentReadoutConfig) : ℚ :=
  c.number "withdrawal_period_seconds"
def withdrawalSeconds (c : DevelopmentReadoutConfig) : ℚ := c.number "withdrawal_seconds"
def perturbationPeriodSeconds (c : DevelopmentReadoutConfig) : ℚ :=
  c.number "perturbation_period_seconds"
def perturbationSeconds (c : DevelopmentReadoutConfig) : ℚ := c.number "perturbation_seconds"
def baselineDriveFraction (c : DevelopmentReadoutConfig) : ℚ := c.number "baseline_drive_fraction"
def perturbationDriveFraction (c : DevelopmentReadoutConfig) : ℚ :=
  c.number "perturbation_drive_fraction"
def probeJitterFraction (c : DevelopmentReadoutConfig) : ℚ := c.number "probe_jitter_fraction"
def entrainmentWindowSeconds (c : DevelopmentReadoutConfig) : ℚ :=
  c.number "entrainment_window_seconds"

/-- The checks of settings against each other. -/
def checkTogether (c : DevelopmentReadoutConfig) : Except ConfigError DevelopmentReadoutConfig :=
  let baseline := c.baselineDriveFraction
  let perturbation := c.perturbationDriveFraction
  let low := c.number "entrainment_band_low_hz"
  let high := c.number "entrainment_band_high_hz"
  if ¬ (baseline < perturbation ∧ perturbation ≤ 1) then
    .error (.valueError
      "perturbation_drive_fraction must be greater than baseline_drive_fraction and at most 1.0")
  else if ¬ (low < high ∧ high < c.number "sample_hz" / 2) then
    .error (.valueError
      ("entrainment_band_low_hz must be less than entrainment_band_high_hz, " ++
        "which must be below sample_hz/2"))
  else if c.number "edge_trim_seconds" * 2 ≥ c.entrainmentWindowSeconds then
    .error (.valueError "entrainment_window_seconds must be greater than 2 * edge_trim_seconds")
  else if c.number "frequency_pull_floor" > 1
    then .error (.valueError "frequency_pull_floor must be <= 1.0")
  else if ¬ (c.number "viability_r0_hours" < c.number "viability_r1_hours" ∧
      c.number "viability_r1_hours" < c.number "viability_r2_hours" ∧
      c.number "viability_r2_hours" ≤ c.number "viability_r3_hours") then
    .error (.valueError
      "viability_r0_hours < viability_r1_hours < viability_r2_hours <= viability_r3_hours required")
  else .ok c

/-- `from_dict` of a table. -/
def fromTable (data : Dict) : Except ConfigError DevelopmentReadoutConfig :=
  let extra := (data.map Prod.fst).filter fun key => key ∉ fields.map Prod.fst
  if extra ≠ [] then .error (.unknownKeys (extra.insertionSort (· ≤ ·)))
  else do
    let kwargs ← fields.mapM fun field => (readField data field.1 field.2).map (Prod.mk field.1)
    checkTogether ⟨kwargs⟩

/-- `from_dict`; an absent table means the defaults. -/
def fromDict : Json → Except ConfigError DevelopmentReadoutConfig
  | .null => fromTable []
  | .obj data => fromTable data
  | _ => .error .notDict

end DevelopmentReadoutConfig

inductive Kind
  | withdrawal
  | perturbation
deriving DecidableEq

def Kind.other : Kind → Kind
  | .withdrawal => .perturbation
  | .perturbation => .withdrawal

/-- `unit_float(keyed_u64(seed, counter, salt))` of each kind's salt; a counter that is no signed
64-bit integer raises. -/
structure Jitter where
  unit : Kind → ℕ → ℚ
  nonneg : ∀ kind counter, 0 ≤ unit kind counter
  lt_one : ∀ kind counter, unit kind counter < 1

def counterLimit : ℕ := 2 ^ 63

/-- A probe under way, with its planned end. -/
structure Probe where
  kind : Kind
  start : ℚ
  end_ : ℚ
deriving DecidableEq

/-- `_probe_state`, `_probe_kind`, `_probe_start`, `_probe_end`; none is idle. The end of the last
probe is none before the first. -/
structure Owner where
  scale : ℚ
  settleUntil : ℚ
  pausedLastStep : Bool
  awakeSince : ℚ
  lastProbeEnd : Option ℚ
  probe : Option Probe
  nextAt : Kind → ℚ
  counter : Kind → ℕ

inductive ProbePhase
  | start
  | end_
deriving DecidableEq

/-- A probe event and whether the bus took it. -/
structure ProbeEvent where
  kind : Kind
  phase : ProbePhase
  seconds : ℚ
  aborted : Option Bool
  published : Bool
deriving DecidableEq

/-- What a step finds: the time, what `_is_paused` returns, none where it raises, and whether the
bus takes an event. -/
structure Step where
  now : ℚ
  isPaused : Option Bool
  publishes : Bool

/-- `_paused`. -/
def Step.paused (s : Step) : Bool := s.isPaused.getD true

variable (c : DevelopmentReadoutConfig) (jitter : Jitter)

/-- The longest that a probe may be. -/
def maxSeconds : Kind → ℚ
  | .withdrawal => withdrawalMaxSeconds
  | .perturbation => perturbationMaxSeconds

def configuredSeconds : Kind → ℚ
  | .withdrawal => c.withdrawalSeconds
  | .perturbation => c.perturbationSeconds

def period : Kind → ℚ
  | .withdrawal => c.withdrawalPeriodSeconds
  | .perturbation => c.perturbationPeriodSeconds

def probeSeconds (kind : Kind) : ℚ := min (configuredSeconds c kind) (maxSeconds kind)

/-- The drive under a probe. -/
def probeScale : Kind → ℚ
  | .withdrawal => 0
  | .perturbation => c.perturbationDriveFraction

/-- `_jitter_unit`: none where it raises, and the counter, which has advanced all the same. -/
def Owner.jitterUnit (o : Owner) (kind : Kind) : Option ℚ × Owner :=
  (if o.counter kind < counterLimit then some (jitter.unit kind (o.counter kind)) else none,
    { o with counter := Function.update o.counter kind (o.counter kind + 1) })

/-- The owner of a boot with the counters of the progress file, none where a draw raises. -/
def Owner.boot (startedAt : ℚ) (counters : Kind → ℕ) : Option Owner :=
  let settleEnd := startedAt + c.readoutPeriodSeconds
  let o : Owner :=
    { scale := c.baselineDriveFraction, settleUntil := settleEnd, pausedLastStep := false,
      awakeSince := startedAt, lastProbeEnd := none, probe := none,
      nextAt := fun _ => settleEnd, counter := counters }
  let withdrawal := o.jitterUnit jitter .withdrawal
  let perturbation := withdrawal.2.jitterUnit jitter .perturbation
  match withdrawal.1, perturbation.1 with
  | some u, some v =>
    some { perturbation.2 with
      nextAt := fun
        | .withdrawal => settleEnd + u * c.probeJitterFraction * c.withdrawalPeriodSeconds
        | .perturbation => startedAt + c.readoutPeriodSeconds + c.withdrawalSeconds + 60 +
            v * c.probeJitterFraction * c.perturbationPeriodSeconds }
  | _, _ => none

/-- `_start_probe`; a draw that raises leaves the drive as it was just set. -/
def Owner.startProbe (o : Owner) (s : Step) (kind : Kind) : Owner × Option ProbeEvent :=
  let seconds := probeSeconds c kind
  let o := { o with scale := probeScale c kind }
  let draw := o.jitterUnit jitter kind
  match draw.1 with
  | none => (draw.2, none)
  | some u =>
    ({ draw.2 with
        nextAt := Function.update o.nextAt kind
          (s.now + period c kind * (1 + c.probeJitterFraction * (2 * u - 1)))
        probe := some ⟨kind, s.now, s.now + seconds⟩ },
      some ⟨kind, .start, seconds, none, s.publishes⟩)

/-- `_end_probe`. -/
def Owner.endProbe (o : Owner) (s : Step) (probe : Probe) : Owner × Option ProbeEvent :=
  ({ o with scale := c.baselineDriveFraction, lastProbeEnd := some s.now, probe := none },
    some ⟨probe.kind, .end_, probe.end_ - probe.start, some false, s.publishes⟩)

/-- `_abort_probe`. -/
def Owner.abortProbe (o : Owner) (s : Step) (probe : Probe) : Owner × Option ProbeEvent :=
  ({ o with scale := c.baselineDriveFraction, lastProbeEnd := some s.now, probe := none },
    some ⟨probe.kind, .end_, s.now - probe.start, some true, s.publishes⟩)

/-- A withdrawal is due only behind a full entrainment window. -/
def Owner.due (o : Owner) (now : ℚ) : Kind → Bool
  | .withdrawal => o.nextAt .withdrawal ≤ now ∧ o.awakeSince + c.entrainmentWindowSeconds ≤ now
  | .perturbation => o.nextAt .perturbation ≤ now

/-- The kind that goes first, `min(due)[1]`; at one time the perturbation. -/
def Owner.choose (o : Owner) (now : ℚ) : Option Kind :=
  if o.due c now .withdrawal then
    if o.due c now .perturbation && o.nextAt .perturbation ≤ o.nextAt .withdrawal
      then some .perturbation
    else some .withdrawal
  else if o.due c now .perturbation then some .perturbation
  else none

/-- `_handle_probes`. -/
def Owner.handleProbes (o : Owner) (s : Step) : Owner × Option ProbeEvent :=
  match o.probe with
  | some probe =>
    -- An end at zero counts as none.
    if (if probe.end_ = 0 then s.now else probe.end_) ≤ s.now then o.endProbe c s probe
      else (o, none)
  | none =>
    if s.now < o.settleUntil then (o, none)
    else if (o.lastProbeEnd.any fun last => s.now < last + max 60 c.withdrawalSeconds)
      then (o, none)
    else
      match o.choose c s.now with
      | some kind => o.startProbe c jitter s kind
      | none => (o, none)

/-- The probes' part of `step`. -/
def Owner.step (o : Owner) (s : Step) : Owner × Option ProbeEvent :=
  if s.paused then
    let handled :=
      match o.probe with
      | some probe => o.abortProbe c s probe
      | none => (o, none)
    ({ handled.1 with pausedLastStep := true }, handled.2)
  else
    let o := if o.pausedLastStep then
        { o with settleUntil := s.now + c.readoutPeriodSeconds, awakeSince := s.now } else o
    let handled := o.handleProbes c jitter s
    ({ handled.1 with pausedLastStep := false }, handled.2)

/-- A step of a run: what it found, the owner before and after it, and its event. -/
structure Entry where
  step : Step
  before : Owner
  after : Owner
  event : Option ProbeEvent

/-- The kind of probe that a step starts. -/
def Entry.started (e : Entry) : Option Kind :=
  match e.event with
  | some ⟨kind, .start, _, _, _⟩ => some kind
  | _ => none

/-- The kind of probe that a step ends. -/
def Entry.ended (e : Entry) : Option Kind :=
  match e.event with
  | some ⟨kind, .end_, _, _, _⟩ => some kind
  | _ => none

/-- The steps of a run, one after another. -/
def trace (o : Owner) : List Step → List Entry
  | [] => []
  | s :: steps =>
    let next := o.step c jitter s
    ⟨s, o, next.1, next.2⟩ :: trace next.1 steps

/-- The times at which a run resumes from a pause, where it begins paused or not. -/
def resumes (paused : Bool) : List Entry → List ℚ
  | [] => []
  | e :: entries =>
    (if paused && !e.step.paused then [e.step.now] else []) ++ resumes e.step.paused entries

end Kaine.Development
