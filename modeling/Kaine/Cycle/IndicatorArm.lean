import Kaine.Cycle.WelfareResponse

/-! The response to the welfare indicators: a first crossing requests a rest, and one over the spans
since that rest brings the freeze (`kaine/cycle/preservation_monitor.py`). -/
namespace Kaine.Welfare
open Py WelfareIndicators

/-- A clock or scale that is not wired, cannot be read, or reads a number. -/
inductive Reading where
  | absent
  | raises
  | reads (q : ℚ)
  deriving DecidableEq

/-- What one poll of the indicator arm meets. A read of a stream brings its events and the cursor
after them. -/
structure ArmInput where
  uNow : ℚ
  wNow : ℚ
  awake : Reading
  scale : Reading
  seed : BusRead (Bus.EntryId × Bus.EntryId)
  sleep : BusRead (List Bus.Event × Bus.EntryId)
  affect : BusRead (List Bus.Event × Bus.EntryId)
  developing : Bool
  developmentalRestS : ℚ
  sleepModuleReady : Bool
  requestId : String
  requestSent : Bool

/-- The sleep events that the rest stage acts on. -/
inductive SleepSignal where
  | answer (payload : Dict)
  | started (payload : Dict)
  | completed (payload : Dict)

/-- What one of them means for the outstanding rest. -/
inductive Verdict where
  | ignored
  | began (standing : Bool)
  | failed (failure : RestFailure)
  | completed
  deriving DecidableEq

def modifyArm (f : IndicatorArm → IndicatorArm) : Poll Unit :=
  modify fun w => { w with arm := f w.arm }

/-- `_event_ts`: the time stamp in seconds. -/
def eventTs (event : Bus.Event) : ℚ := Rounding.binary64 (event.timestamp / 10 ^ 6)

def awakeClockRegressionToleranceS : ℚ := 1 / 2

def developmentalMarginS : ℚ := 300

/-- Awake time: unfrozen time where no awake clock is wired. -/
def awakeNow (reading : Reading) (uNow : ℚ) : Poll ℚ := do
  match reading with
  | .absent => return uNow
  | .raises => throw (.raised .valueError)
  | .reads value =>
    let w ← get
    match w.arm.awakeHigh with
    | none =>
      modifyArm fun arm => { arm with awakeHigh := some value }
      return value
    | some high =>
      if high ≤ value then
        modifyArm fun arm => { arm with awakeHigh := some value }
        return value
      else if awakeClockRegressionToleranceS < high - value then throw (.raised .valueError)
      else return high

def scaleNow : Reading → Poll ℚ
  | .absent => return 1
  | .raises => throw (.raised .valueError)
  | .reads value => if value < 0 then throw (.raised .valueError) else return value

def tickRestClock (scale : Reading) (uNow : ℚ) : Poll Unit := do
  let w ← get
  match w.arm.restULast with
  | none => pure ()
  | some last =>
    let s ← scaleNow scale
    modifyArm fun arm => { arm with restU := arm.restU + max 0 (uNow - last) * s }
  modifyArm fun arm => { arm with restULast := some uNow }

/-- The first read starts at the tails of both streams. -/
def seedCursors (seed : BusRead (Bus.EntryId × Bus.EntryId)) : Poll Bool := do
  let w ← get
  if w.arm.affectCursor.isSome ∧ w.arm.sleepCursor.isSome then return true
  else
    match seed with
    | .timeout => throw .busTimeout
    | .failed => return false
    | .read (affect, sleep) =>
      modifyArm fun arm => { arm with affectCursor := some affect, sleepCursor := some sleep }
      return true

def readStream (read : BusRead (List Bus.Event × Bus.EntryId))
    (store : Bus.EntryId → IndicatorArm → IndicatorArm) : Poll (List Bus.Event) :=
  match read with
  | .timeout => throw .busTimeout
  | .failed => return []
  | .read (events, cursor) => do
    modifyArm (store cursor)
    return events

/-- The time of an event on the awake clock, between the previous read and this one. -/
def interpolate (prev : Option IndicatorRead) (wNow aNow ts : ℚ) : ℚ :=
  match prev with
  | none => aNow
  | some prev =>
    if wNow ≤ prev.wall then aNow
    else prev.awake +
      min 1 (max 0 ((ts - prev.wall) / (wNow - prev.wall))) * (aNow - prev.awake)

/-- Which stream an event came from; the sleep stream goes first. -/
inductive ArmStream where
  | sleep
  | affect
  deriving DecidableEq

def ArmStream.order : ArmStream → ℕ
  | .sleep => 0
  | .affect => 1

def feedSleep (t : ℚ) (event : Bus.Event) : Poll (List SleepSignal) := do
  if event.type = "sleep.sleep.started" then
    modifyArm fun arm => { arm with evaluator := arm.evaluator.excludeStart .sleep t }
    return [.started event.payload]
  else if event.type = "sleep.sleep.completed" then
    modifyArm fun arm => { arm with evaluator := arm.evaluator.excludeEnd .sleep t }
    return [.completed event.payload]
  else if event.type = "sleep.rest_request" then return [.answer event.payload]
  else return []

def feedAffect (t : ℚ) (event : Bus.Event) : Poll (List SleepSignal) := do
  if event.type = "affect.state" then
    let w ← get
    match w.arm.evaluator.observeState t event.payload with
    | .error e => throw (.raised e)
    | .ok evaluator => modifyArm fun arm => { arm with evaluator }
  return []

def feed (t : ℚ) : ArmStream → Bus.Event → Poll (List SleepSignal)
  | .sleep => feedSleep t
  | .affect => feedAffect t

/-- The events of a read in time order, with the signals among them. -/
def feedAll (time : Bus.Event → ℚ) :
    List (ArmStream × Bus.Event) → Poll (List SleepSignal)
  | [] => return []
  | (stream, event) :: rest => do
    let here ← feed (time event) stream event
    let later ← feedAll time rest
    return here ++ later

/-- What is new on both streams, fed in time order. -/
def readSignals (input : ArmInput) (aNow : ℚ) : Poll (List SleepSignal) := do
  if ← seedCursors input.seed then
    let sleep ← readStream input.sleep fun c arm => { arm with sleepCursor := some c }
    let affect ← readStream input.affect fun c arm => { arm with affectCursor := some c }
    let w ← get
    let gathered := SortBy.sortBy (fun x => toLex (eventTs x.2, x.1.order))
      (sleep.map (ArmStream.sleep, ·) ++ affect.map (ArmStream.affect, ·))
    feedAll (fun event => interpolate w.arm.prev input.wNow aNow (eventTs event)) gathered
  else return []

/-- Feed what is new to the evaluator. Time advances even where a read fails. -/
def ingest (input : ArmInput) : Poll (List SleepSignal) := do
  let aNow ← awakeNow input.awake input.uNow
  let signals ← readSignals input aNow
  modifyArm fun arm => { arm with
    evaluator := arm.evaluator.advance aNow, prev := some ⟨input.wNow, aNow⟩ }
  return signals

/-- Preservation first, the configured action, and the shared latch. A notice starts over from a
fresh span. -/
def indicatorEscalate (cfg : Config) (input : ArmInput) (inputs : ℕ → ResponseInput)
    (reason : CrossingReason) (indicators : List Indicator) : Poll Unit := do
  let spent :=
    match reason with
    | .indicator _ => input.developing && indicators.any fun name =>
        match name with
        | .deprived _ => true
        | _ => false
    | _ => false
  respond cfg inputs reason (some ⟨indicators, spent⟩)
  let w ← get
  if w.latch.acted = false then resetIndicators

/-- A rest that cannot start or does not complete. -/
def indicatorRestFailed (cfg : Config) (input : ArmInput) (inputs : ℕ → ResponseInput)
    (failure : RestFailure) (indicators : List Indicator) : Poll Unit := do
  emit (.record (.restFailed failure indicators))
  indicatorEscalate cfg input inputs .restFailed indicators

/-- The first stage: a rest is requested, with no preservation and no freeze. -/
def requestRest (cfg : Config) (input : ArmInput) (inputs : ℕ → ResponseInput)
    (crossed : List Indicator) : Poll Unit := do
  if input.sleepModuleReady = false then
    indicatorRestFailed cfg input inputs .sleepModuleNotRunning crossed
  else if input.requestSent = false then
    indicatorRestFailed cfg input inputs .requestNotSent crossed
  else
    modifyArm fun arm => { arm with
      request := some
        { requestId := input.requestId, indicators := crossed, requestedU := input.uNow }
      stage := .resting }
    emit (.record (.restRequested input.requestId crossed))
    emit (.notice "welfare_indicator_rest")

def restCompleteBound (cfg : Config) (input : ArmInput) : ℚ :=
  if input.developing then
    cfg.restCompleteDevelopmentalS.getD (input.developmentalRestS + developmentalMarginS)
  else cfg.restCompleteMaturedS

def RestRequest.began (request : RestRequest) (standing : Bool) (restU boundS : ℚ) : RestRequest :=
  { request with
    started := !standing, standing, startedRestU := some restU, boundS := some boundS }

def judgeSignal (request : RestRequest) : SleepSignal → Verdict
  | .answer payload =>
    if Dict.get payload "origin" ≠ .str "welfare" then .ignored
    else if Dict.get payload "proposal_id" ≠ .str request.requestId then .ignored
    else if Dict.get payload "accepted" = .bool true then .ignored
    else if Dict.get payload "reason" = .str "busy" then
      if request.started || request.standing then .ignored else .began true
    else .failed .refused
  | .started payload =>
    if Dict.get payload "trigger" ≠ .str "welfare_rest" then .ignored
    else if request.started || request.standing then .ignored
    else .began false
  | .completed payload =>
    if !(request.started || request.standing) then .ignored
    else if request.started ∧ Dict.get payload "trigger" ≠ .str "welfare_rest" then .ignored
    else if (Dict.get payload "aborted").truthy then .failed .aborted
    else .completed

/-- The rest's affective reset has run: every span restarts at its end. -/
def completeRest (request : RestRequest) : Poll Unit := do
  let w ← get
  emit (.spansRestarted w.arm.evaluator.pos)
  modifyArm fun arm => { arm with
    evaluator := arm.evaluator.restart, stage := .fresh, request := none }
  emit (.record (.restCompleted request.requestId request.indicators))

/-- Apply the answers of the sleep module to the outstanding rest; true when it ended. -/
def restSignals (cfg : Config) (input : ArmInput) (inputs : ℕ → ResponseInput) :
    List SleepSignal → RestRequest → Poll Bool
  | [], _ => return false
  | signal :: rest, request =>
    match judgeSignal request signal with
    | .ignored => restSignals cfg input inputs rest request
    | .began standing => do
      let w ← get
      let request := request.began standing w.arm.restU (restCompleteBound cfg input)
      modifyArm fun arm => { arm with request := some request }
      emit (.record (.restStarted request.requestId request.indicators standing))
      restSignals cfg input inputs rest request
    | .failed failure => do
      indicatorRestFailed cfg input inputs failure request.indicators
      return true
    | .completed => do
      completeRest request
      return true

/-- Why a rest in progress is given up. -/
def overdue (cfg : Config) (input : ArmInput) (restU : ℚ) (request : RestRequest) :
    Option RestFailure :=
  if input.sleepModuleReady = false then some .sleepModuleNotRunning
  else if request.started || request.standing then
    if request.boundS.getD cfg.restCompleteMaturedS ≤ restU - request.startedRestU.getD restU then
      some .completeTimeout
    else none
  else if cfg.restStartTimeoutS ≤ input.uNow - request.requestedU then some .startTimeout
  else none

/-- Escalate a rest that did not start or complete in time. -/
def checkRestBounds (cfg : Config) (input : ArmInput) (inputs : ℕ → ResponseInput)
    (request : RestRequest) : Poll Unit := do
  let w ← get
  match overdue cfg input w.arm.restU request with
  | none => pure ()
  | some failure => indicatorRestFailed cfg input inputs failure request.indicators

/-- The indicators now. -/
def evaluateIndicators : Poll Evaluation := do
  let w ← get
  let (ev, evaluator) := w.arm.evaluator.evaluate
  modifyArm fun arm => { arm with evaluator }
  if ev.crossed ≠ [] then emit (.crossed ev.crossed evaluator.windowStart)
  return ev

/-- Report a silent affect stream once. -/
def noteUnavailable : Poll Unit := do
  let w ← get
  if w.arm.unavailableNotified = false then
    modifyArm fun arm => { arm with unavailableNotified := true }
    emit (.record (.indicatorsUnavailable w.arm.evaluator.silentS))
    emit (.notice "welfare_indicators_unavailable")

/-- True when the affect stream stayed silent and the response was made. -/
def indicatorAvailability (cfg : Config) (input : ArmInput) (inputs : ℕ → ResponseInput)
    (ev : Evaluation) : Poll Bool := do
  if ev.available then
    modifyArm fun arm => { arm with unavailableNotified := false }
    return false
  else
    noteUnavailable
    let w ← get
    if cfg.unavailableEscalateS ≤ w.arm.evaluator.silentS then
      indicatorEscalate cfg input inputs .unavailable []
      return true
    else return false

/-- The stages outside a rest. -/
def judgeStage (cfg : Config) (input : ArmInput) (inputs : ℕ → ResponseInput) (ev : Evaluation) :
    Poll Unit := do
  let w ← get
  match w.arm.stage, ev.crossed with
  | .armed, [] | .resting, _ => pure ()
  | .armed, _ :: _ => requestRest cfg input inputs ev.crossed
  | .fresh, name :: _ => indicatorEscalate cfg input inputs (.indicator name) ev.crossed
  | .fresh, [] =>
    if cfg.params.spanS ≤ ev.spanAwakeS then
      modifyArm fun arm => { arm with stage := .armed }
      emit (.record .indicatorRearmed)

/-- The part of a poll in which no rest is outstanding. -/
def judge (cfg : Config) (input : ArmInput) (inputs : ℕ → ResponseInput) : Poll Unit := do
  let ev ← evaluateIndicators
  if ← indicatorAvailability cfg input inputs ev then return
  else judgeStage cfg input inputs ev

/-- The part of a poll in which a rest is. -/
def awaitRest (cfg : Config) (input : ArmInput) (inputs : ℕ → ResponseInput)
    (signals : List SleepSignal) (request : RestRequest) : Poll Unit := do
  let ended ← restSignals cfg input inputs signals request
  let w ← get
  if w.latch.acted then return
  else if ended then judge cfg input inputs
  else
    let _ ← evaluateIndicators
    match w.arm.request with
    | none => pure ()
    | some request => checkRestBounds cfg input inputs request

def indicatorPollInner (cfg : Config) (input : ArmInput) (inputs : ℕ → ResponseInput) :
    Poll Unit := do
  tickRestClock input.scale input.uNow
  let signals ← ingest input
  let w ← get
  match w.arm.stage, w.arm.request with
  | .resting, some request => awaitRest cfg input inputs signals request
  | .resting, none => do let _ ← evaluateIndicators
  | _, _ => judge cfg input inputs

/-- An error is retried next poll, and one that persists makes the indicators unavailable. -/
def indicatorPollFailed (cfg : Config) (input : ArmInput) (inputs : ℕ → ResponseInput) :
    Poll Unit := do
  let w ← get
  match w.arm.errorSinceU with
  | none => modifyArm fun arm => { arm with errorSinceU := some input.uNow }
  | some since =>
    if cfg.unavailableEscalateS ≤ input.uNow - since ∧ w.latch.acted = false then
      modifyArm fun arm => { arm with errorSinceU := none }
      indicatorEscalate cfg input inputs .unavailable []

def indicatorPoll (cfg : Config) (input : ArmInput) (inputs : ℕ → ResponseInput) : Poll Unit :=
  tryCatch
    (do
      indicatorPollInner cfg input inputs
      modifyArm fun arm => { arm with errorSinceU := none })
    fun fault =>
      if fault = .busTimeout then throw fault else indicatorPollFailed cfg input inputs

/-- During warm-up the spans accrue, and no stage acts. -/
def indicatorAccrue (input : ArmInput) : Poll Unit :=
  tryCatch
    (do
      tickRestClock input.scale input.uNow
      let _ ← ingest input)
    fun fault => if fault = .busTimeout then throw fault else pure ()

end Kaine.Welfare
