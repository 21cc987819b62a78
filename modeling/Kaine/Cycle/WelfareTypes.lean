import Kaine.Bus.Client
import Kaine.Cycle.ControlStateSafety
import Kaine.Lifecycle.WelfareIndicators
import Kaine.Lifecycle.WelfareSignal

/-! What the welfare monitor holds, what it does, and what it is told
(`kaine/cycle/preservation_monitor.py`). Its clocks are read in exact arithmetic. -/
namespace Kaine.Welfare
open Py Control WelfareIndicators WelfareSignal

/-- Why a protective response is made. -/
inductive CrossingReason where
  | sustainedDistress
  | repeatedDistress
  | repeatedGrayZone
  | indicator (name : Indicator)
  | restFailed
  | unavailable
  deriving DecidableEq

def CrossingReason.text : CrossingReason → String
  | .sustainedDistress => "sustained_distress"
  | .repeatedDistress => "repeated_distress"
  | .repeatedGrayZone => "repeated_gray_zone"
  | .indicator name => "indicator_" ++ name.name
  | .restFailed => "indicator_rest_failed"
  | .unavailable => "indicators_unavailable"

/-- The configured action; `end` is spelt out. -/
inductive Action where
  | pause
  | endRun
  | notify
  deriving DecidableEq

inductive ActionTaken where
  | pause
  | endRun
  | notify
  | pauseFallback
  deriving DecidableEq

/-- Why a pause stands in for an end. -/
inductive Fallback where
  | endFailed
  | endUnavailable
  deriving DecidableEq

/-- The reason of a freeze. -/
structure FreezeReason where
  crossing : CrossingReason
  fallback : Option Fallback
  deriving DecidableEq

def FreezeReason.text (reason : FreezeReason) : String :=
  "welfare: " ++ reason.crossing.text ++
    match reason.fallback with
    | none => ""
    | some .endFailed => " (end failed)"
    | some .endUnavailable => " (end unavailable)"

inductive RestFailure where
  | sleepModuleNotRunning
  | requestNotSent
  | refused
  | aborted
  | startTimeout
  | completeTimeout
  deriving DecidableEq

/-- The records of the incident log. -/
inductive Record where
  | warmingUp (eventsObserved : ℕ) (livedTimeS : ℚ)
  | protectiveAction (reason : CrossingReason) (action : ActionTaken)
      (saved endFailed freezeFailed unreadable : Bool)
  | freezePlaced (reason : CrossingReason) (action : ActionTaken) (attempts : ℕ)
      (unreadable foundInPlace : Bool)
  | rearmed
  | restRequested (requestId : String) (indicators : List Indicator)
  | restStarted (requestId : String) (indicators : List Indicator) (standing : Bool)
  | restFailed (failure : RestFailure) (indicators : List Indicator)
  | restCompleted (requestId : String) (indicators : List Indicator)
  | indicatorsUnavailable (silentAwakeS : ℚ)
  | indicatorRearmed
  deriving DecidableEq

def Record.transition : Record → String
  | .warmingUp _ _ => "warming_up"
  | .protectiveAction _ _ saved _ freezeFailed _ =>
    if freezeFailed then "protective_action_freeze_failed"
    else if saved then "protective_action"
    else "protective_action_preserve_failed"
  | .freezePlaced _ _ _ _ _ => "protective_action_freeze_placed"
  | .rearmed => "rearmed"
  | .restRequested _ _ => "indicator_rest_requested"
  | .restStarted _ _ _ => "indicator_rest_started"
  | .restFailed _ _ => "indicator_rest_failed"
  | .restCompleted _ _ => "indicator_rest_completed"
  | .indicatorsUnavailable _ => "indicators_unavailable"
  | .indicatorRearmed => "indicator_rearmed"

/-- What happens around the monitor, in order: what a detector reports, what is handed to the
response, the calls out of the monitor, and its records and notices. The spans of the indicators
are entered by the awake position that they count from. -/
inductive Effect where
  | crossing (reason : CrossingReason)
  | response (reason : CrossingReason)
  | preserveLive (saved : Bool)
  | onEnd (raised : Bool)
  | freeze (reason : FreezeReason)
  | spansRestarted (position : ℚ)
  | indicatorReset
  | crossed (indicators : List Indicator) (since : ℚ)
  | record (r : Record)
  | notice (kind : String)
  deriving DecidableEq

/-- `[preservation.welfare_response]`, and what the monitor is wired to. -/
structure Config where
  action : Action
  distressThreshold : PyFloat
  distressDurationS : ℚ
  repeatWindowS : ℚ
  repeatThreshold : ℤ
  warmupS : ℚ
  warmupCeilingS : ℚ
  minIntervalS : ℚ
  hasOnEnd : Bool
  indicatorsOn : Bool
  restStartTimeoutS : ℚ
  restCompleteDevelopmentalS : Option ℚ
  restCompleteMaturedS : ℚ
  unavailableEscalateS : ℚ
  params : IndicatorParams

/-- A protective response whose freeze could not be written yet. -/
structure PendingFreeze where
  freezeReason : FreezeReason
  crossingReason : CrossingReason
  action : ActionTaken
  attempts : ℕ
  deriving DecidableEq

/-- The latch that all responses share; a notice never given is none. -/
structure Latch where
  acted : Bool := false
  pausePlaced : Bool := false
  pendingFreeze : Option PendingFreeze := none
  lastNotifyAt : Option ℚ := none
  deriving DecidableEq

/-- One reading of the unfrozen clock, and of the monitor's own. -/
structure Clocks where
  unfrozen : ℚ
  wall : ℚ
  deriving DecidableEq

/-- The two detectors of distress, and how far the two streams are read. -/
structure DistressArm where
  cursor : Bus.EntryId := ⟨0, 0⟩
  welfareCursor : Bus.EntryId := ⟨0, 0⟩
  interoceptionWarmupActive : Bool := false
  tracker : SustainedThresholdTracker ℚ
  repeats : WindowedEventCounter ℚ
  distressOnsetTs : Option PyFloat := none
  countedEpisodes : List PyFloat := []
  readFailures : List (String × ℕ) := []
  deriving DecidableEq

inductive IndicatorStage where
  | armed
  | resting
  | fresh
  deriving DecidableEq

structure RestRequest where
  requestId : String
  indicators : List Indicator
  requestedU : ℚ
  started : Bool := false
  standing : Bool := false
  startedRestU : Option ℚ := none
  boundS : Option ℚ := none
  deriving DecidableEq

/-- The wall time and the awake time of a read. -/
structure IndicatorRead where
  wall : ℚ
  awake : ℚ

structure IndicatorArm where
  evaluator : IndicatorEvaluator
  stage : IndicatorStage := .armed
  request : Option RestRequest := none
  affectCursor : Option Bus.EntryId := none
  sleepCursor : Option Bus.EntryId := none
  prev : Option IndicatorRead := none
  unavailableNotified : Bool := false
  errorSinceU : Option ℚ := none
  restU : ℚ := 0
  restULast : Option ℚ := none
  awakeHigh : Option ℚ := none

/-- The monitor and the control file, with what was done so far, newest first, and the number of
responses made. -/
structure World where
  latch : Latch := {}
  distress : DistressArm
  arm : IndicatorArm
  startedAt : Option Clocks := none
  holdersChecked : Bool := false
  file : ControlFile
  log : List Effect := []
  responses : ℕ := 0

/-- The exceptions of a poll. -/
inductive Fault where
  | busTimeout
  | busReadFailing
  | raised (e : PyError)
  deriving DecidableEq

/-- A part of a poll: what it has changed stays changed when it raises. -/
abbrev Poll := EStateM Fault World

def emit (effect : Effect) : Poll Unit := modify fun w => { w with log := effect :: w.log }

def DistressArm.initial (cfg : Config) : DistressArm :=
  { tracker := ⟨cfg.distressThreshold, cfg.distressDurationS, none⟩
    repeats := ⟨cfg.repeatWindowS, cfg.repeatThreshold, []⟩ }

/-- A monitor as it is built, over a control file. -/
def World.initial (cfg : Config) (file : ControlFile) : World :=
  { distress := .initial cfg, arm := { evaluator := { params := cfg.params } }, file }

end Kaine.Welfare
