import Kaine.Cycle.WelfareTypes

/-! The protective response of the welfare monitor: preservation first, then the pause, the end or
the notice, and the latch that holds until the pause is lifted
(`kaine/cycle/preservation_monitor.py`). -/
namespace Kaine.Welfare
open Py Control WelfareIndicators WelfareSignal

/-- How `control_file_unreadable` ends: the check that the file exists can raise, and the read that
follows can fail. -/
inductive ReadBack where
  | raises
  | reads (ok : Bool)
  deriving DecidableEq

/-- How `control_state.freeze` ends: a write that landed can still raise, and a file that cannot be
read at that time is left alone. -/
inductive FreezeCall where
  | raises (landed : Bool)
  | returns (readable : Bool) (readBack : ReadBack)
  deriving DecidableEq

/-- What one response meets, with what others make of the control file while it preserves. -/
structure ResponseInput where
  monotonic : ℚ
  saved : Bool
  meanwhile : ControlFile → ControlFile
  onEndRaises : Bool
  freeze : FreezeCall
  frozenAt : String

structure FreezeOutcome where
  placed : Bool
  unreadable : Bool
  deriving DecidableEq

/-- What the records of the indicator response add. -/
structure IndicatorDetail where
  indicators : List Indicator
  stimulusSpent : Bool
  deriving DecidableEq

def World.freezeFile (w : World) (reason : FreezeReason) (now : String) : World :=
  { w with file := (pushFreeze "" (.str reason.text) "welfare" now w.file).2 }

def fileUnreadable (ok : Bool) (file : ControlFile) : Bool :=
  file ≠ .missing && (!ok || (control file).isNone)

def placeWelfareFreeze (call : FreezeCall) (now : String) (reason : FreezeReason) :
    Poll FreezeOutcome := do
  emit (.freeze reason)
  match call with
  | .raises landed =>
    if landed then modify fun w => w.freezeFile reason now
    return ⟨false, false⟩
  | .returns readable readBack =>
    if readable then modify fun w => w.freezeFile reason now
    match readBack with
    -- the source says that this never raises, and does not guard the check
    | .raises => throw (.raised .osError)
    | .reads ok => return ⟨true, fileUnreadable ok (← get).file⟩

/-- `_welfare_notify_allowed`. -/
def notifyAllowed (lastNotifyAt : Option ℚ) (now minIntervalS : ℚ) : Bool :=
  lastNotifyAt.all fun last => minIntervalS ≤ now - last

/-- The action taken, and the reason of the freeze where it is a pause. -/
def enact (cfg : Config) (onEndRaises : Bool) (reason : CrossingReason) :
    ActionTaken × Option FreezeReason :=
  match cfg.action with
  | .pause => (.pause, some ⟨reason, none⟩)
  | .notify => (.notify, none)
  | .endRun =>
    if !cfg.hasOnEnd then (.pauseFallback, some ⟨reason, some .endUnavailable⟩)
    else if onEndRaises then (.pauseFallback, some ⟨reason, some .endFailed⟩)
    else (.endRun, none)

/-- The latch after the action. A freeze that could not be written is pending. -/
def Latch.settle (latch : Latch) (cfg : Config) (reason : CrossingReason) (taken : ActionTaken)
    (freezeReason : Option FreezeReason) (outcome : FreezeOutcome) : Latch :=
  { latch with
    acted := cfg.action ≠ .notify
    pausePlaced := (taken = .pause ∨ taken = .pauseFallback) ∧ outcome.placed = true
    pendingFreeze :=
      if outcome.placed then latch.pendingFreeze
      else freezeReason.map fun r => ⟨r, reason, taken, 1⟩ }

def noticeKind (record : Record) (freezeFailed : Bool) : Option IndicatorDetail → String
  | none => record.transition
  | some detail =>
    if freezeFailed then "welfare_freeze_failed"
    else if detail.stimulusSpent then "welfare_stimulus_spent"
    else "welfare_response"

/-- The response up to its action: the rate limit of a notice, and the preservation. False where
the limit holds it back. -/
def preserveFirst (cfg : Config) (input : ResponseInput) : Poll Bool := do
  let w ← get
  if cfg.action = .notify ∧
    notifyAllowed w.latch.lastNotifyAt input.monotonic cfg.minIntervalS = false
  then return false
  if cfg.action = .notify then
    modify fun w => { w with latch := { w.latch with lastNotifyAt := some input.monotonic } }
  emit (.preserveLive input.saved)
  modify fun w => { w with file := input.meanwhile w.file }
  return true

/-- Place the freeze where the action needs one, set the latch, and record it. -/
def carryOut (cfg : Config) (input : ResponseInput) (reason : CrossingReason)
    (detail : Option IndicatorDetail) (taken : ActionTaken) (freezeReason : Option FreezeReason) :
    Poll Unit := do
  let outcome ← match freezeReason with
    | none => pure ⟨true, false⟩
    | some r => placeWelfareFreeze input.freeze input.frozenAt r
  modify fun w => { w with latch := w.latch.settle cfg reason taken freezeReason outcome }
  let record : Record := .protectiveAction reason taken input.saved
    (taken = .pauseFallback && cfg.hasOnEnd) (!outcome.placed) outcome.unreadable
  emit (.record record)
  emit (.notice (noticeKind record (!outcome.placed) detail))

/-- The response from its action on. -/
def takeAction (cfg : Config) (input : ResponseInput) (reason : CrossingReason)
    (detail : Option IndicatorDetail) : Poll Unit := do
  if cfg.action = .endRun ∧ cfg.hasOnEnd = true then emit (.onEnd input.onEndRaises)
  let (taken, freezeReason) := enact cfg input.onEndRaises reason
  carryOut cfg input reason detail taken freezeReason

def respond (cfg : Config) (inputs : ℕ → ResponseInput) (reason : CrossingReason)
    (detail : Option IndicatorDetail) : Poll Unit := do
  let w ← get
  let input := inputs w.responses
  modify fun w => { w with responses := w.responses + 1 }
  emit (.response reason)
  if ← preserveFirst cfg input then takeAction cfg input reason detail

/-- Whether welfare holds a freeze, none where that cannot be read. -/
def readHolders (raises : Bool) (file : ControlFile) : Option Bool :=
  if raises then none else (control file).map fun c => c.stack.any isWelfare

/-- A welfare freeze left by an earlier process latches the monitor. -/
def World.adoptStandingWelfareFreeze (w : World) (holdersRaise : Bool) : World :=
  if readHolders holdersRaise w.file = some true then
    { w with latch := { w.latch with acted := true, pausePlaced := true } }
  else w

/-- What the retry of a freeze meets. -/
structure RetryInput where
  holdersRaise : Bool
  freeze : FreezeCall
  frozenAt : String

/-- A pending freeze is a placed pause from here on. -/
def freezeNowPlaced (pending : PendingFreeze) (unreadable foundInPlace : Bool) : Poll Unit := do
  modify fun w => { w with latch := { w.latch with pendingFreeze := none, pausePlaced := true } }
  emit (.record (.freezePlaced pending.crossingReason pending.action pending.attempts unreadable
    foundInPlace))
  emit (.notice "protective_action_freeze_placed")

/-- Only the freeze is retried, unless it stands already. -/
def retryPendingFreeze (input : RetryInput) (pending : PendingFreeze) : Poll Unit := do
  let w ← get
  if readHolders input.holdersRaise w.file = some true then freezeNowPlaced pending false true
  else
    let pending := { pending with attempts := pending.attempts + 1 }
    modify fun w => { w with latch := { w.latch with pendingFreeze := some pending } }
    let outcome ← placeWelfareFreeze input.freeze input.frozenAt pending.freezeReason
    if outcome.placed then freezeNowPlaced pending outcome.unreadable false

structure Tails where
  interoception : Bus.EntryId
  welfare : Bus.EntryId
  affect : Bus.EntryId
  sleep : Bus.EntryId
  deriving DecidableEq

/-- A read of the bus times out, fails or returns. -/
inductive BusRead (α : Type) where
  | timeout
  | failed
  | read (value : α)
  deriving DecidableEq

/-- What a re-arm meets. -/
structure RearmInput where
  holdersRaise : Bool
  tails : BusRead Tails

/-- Back to armed: no request outstanding, and every span restarted. -/
def resetIndicators : Poll Unit := do
  emit .indicatorReset
  modify fun w => { w with arm := { w.arm with
    evaluator := w.arm.evaluator.restart, stage := .armed, request := none
    unavailableNotified := false, errorSinceU := none, prev := none } }

/-- Both detectors empty, both cursors at the tails. Episodes counted stay counted. -/
def DistressArm.rearm (cfg : Config) (distress : DistressArm) (tails : Tails) : DistressArm :=
  { DistressArm.initial cfg with
    cursor := tails.interoception
    welfareCursor := tails.welfare
    interoceptionWarmupActive := distress.interoceptionWarmupActive
    countedEpisodes := distress.countedEpisodes
    readFailures := distress.readFailures }

/-- A new episode starts where the pause of this monitor is readably gone. -/
def maybeRearm (cfg : Config) (input : RearmInput) : Poll Unit := do
  let w ← get
  if w.latch.pausePlaced = true ∧ readHolders input.holdersRaise w.file = some false then
    match input.tails with
    | .timeout => throw .busTimeout
    | .failed => return
    | .read tails =>
      if cfg.indicatorsOn then
        modify fun w => { w with arm := { w.arm with
          affectCursor := some tails.affect, sleepCursor := some tails.sleep } }
        resetIndicators
      modify fun w => { w with
        distress := w.distress.rearm cfg tails
        latch := { w.latch with acted := false, pausePlaced := false } }
      emit (.record .rearmed)

end Kaine.Welfare
