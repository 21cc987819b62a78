import Kaine.Sleep.StateCycle

/-! The desired perceptual locus, which the operator, the sleep and the developmental gate write.
The sleep module's coroutines: who starts a sleep, the pipeline of one, and what it publishes. A
coroutine runs from one await to the next in one move; at an await it goes on when what it waits for
returns, raises or is cancelled. -/
namespace Kaine.PerceptionState

inductive Locus
  | physical
  | virtual
  | off
deriving DecidableEq

/-- What `read_desired` returns: the locus, and whether development holds its lock. -/
structure Desired where
  locus : Locus
  heldByDevelopment : Bool
deriving DecidableEq

/-- Set the locus. A lock that development holds is not moved by another caller. -/
def writeDesiredLocus (desired : Desired) (locus : Locus) : Desired :=
  if desired.heldByDevelopment then desired else { desired with locus := locus }

@[simp] theorem heldByDevelopment_writeDesiredLocus (desired : Desired) (locus : Locus) :
    (writeDesiredLocus desired locus).heldByDevelopment = desired.heldByDevelopment := by
  unfold writeDesiredLocus
  split <;> rfl

theorem writeDesiredLocus_back (desired : Desired) (locus : Locus) :
    writeDesiredLocus (writeDesiredLocus desired locus) desired.locus = desired := by
  obtain ⟨before, held⟩ := desired
  cases held <;> rfl

end Kaine.PerceptionState

namespace Kaine.Sleep
open Py PerceptionState

/-- The events that start a maintenance sleep. -/
inductive MaintenanceTrigger
  | fatigue
  | maintenanceRequest
  | affectRegulation
deriving DecidableEq

/-- What started a sleep. A direct call names nothing. -/
inductive Trigger
  | maintenance (trigger : MaintenanceTrigger)
  | stateCycle
  | backstop
  | requested
  | welfareRest
deriving DecidableEq

/-- A state-cycle rest, or a welfare rest that brings one forward. -/
def holdsCycleRest (trigger : Option Trigger) (welfareRestHeld : Bool) : Bool :=
  trigger = some .stateCycle ∨ trigger = some .welfareRest ∧ welfareRestHeld

/-- A rest request with its number among those handled. -/
structure Request where
  number : ℕ
  origin : Json
  proposalId : Json
deriving DecidableEq

inductive Answer
  | accepted
  | busy
  | tooSoon
  | aborted
  | failed
deriving DecidableEq

/-- What is published, and what else a sleep does once; each names the sleep or the request. -/
inductive Event
  | started (sleep : ℕ) (trigger : Option Trigger) (restSeconds : Option ℚ)
  | completed (sleep : ℕ) (aborted : Option Exn) (resumable : Bool)
  | reset (sleep : ℕ)
  | restRequest (request : Request) (answer : Answer)
deriving DecidableEq

inductive Phase
  | lightConsolidation
  | deepConsolidation
  | associativeReplay
  | voiceAlignment
  | corpusRotation
  | voiceMeasures
deriving DecidableEq

def Phase.next : Phase → Option Phase
  | .lightConsolidation => some .deepConsolidation
  | .deepConsolidation => some .associativeReplay
  | .associativeReplay => some .voiceAlignment
  | .voiceAlignment => some .corpusRotation
  | .corpusRotation => some .voiceMeasures
  | .voiceMeasures => none

/-- The coroutine around a sleep. -/
inductive Site
  | fatigueTriggered (trigger : MaintenanceTrigger)
  | stateCycle
  | interval
  | requested (request : Request)
  | welfare (request : Request)
  | direct
deriving DecidableEq

def Site.trigger : Site → Option Trigger
  | .fatigueTriggered trigger => some (.maintenance trigger)
  | .stateCycle => some .stateCycle
  | .interval => some .backstop
  | .requested _ => some .requested
  | .welfare _ => some .welfareRest
  | .direct => none

/-- The request that a coroutine answers. -/
def Site.request? : Site → Option Request
  | .requested request | .welfare request => some request
  | _ => none

/-- The await at which a coroutine stands. -/
inductive Pc
  | scheduled
  | startedPublish
  | acceptedPublish (pending : Request)
  | phase (phase : Phase)
  | holding
  | housekeeping
  | reset (exn : Option Exn)
  | audit
  | completedPublish
  | abortPublish (exn : Exn) (resumable : Bool)
  | answerPublish (request : Request) (answer : Answer)
  | done
deriving DecidableEq

structure Task where
  site : Site
  pc : Pc
  restStarted : ℚ := 0
deriving DecidableEq

/-- How an await ends. A publish that does not return may still have reached the stream. -/
inductive Outcome
  | returned
  | raised (written : Bool)
  | cancelled (written : Bool)
deriving DecidableEq

def Outcome.written : Outcome → Bool
  | .returned => true
  | .raised written | .cancelled written => written

def Outcome.exn : Outcome → Option Exn
  | .returned => none
  | .raised _ => some .failure
  | .cancelled _ => some .cancelled

structure Config extends CycleConfig where
  requestedRestMinIntervalS : ℚ
  housekeeper : Bool

end Kaine.Sleep

namespace Kaine
open Py PerceptionState Sleep

/-- The module, its tasks, and what it reads: the entity's clock, the frozen time, the desired locus
and the drive scales of the active modules' oscillators. -/
structure Sleep where
  now : ℚ
  paused : ℚ
  desired : Desired
  driveScales : List (Option ℚ)
  cycle : StateCycle
  lastSleepEndedAt : ℚ
  awaitDevelopmentProbe : Bool
  stopped : Bool := false
  sleepLock : Bool := false
  sleepPending : Bool := false
  preSleepLocus : Option Locus := none
  sleepCount : ℕ
  handled : ℕ := 0
  pendingRest : Option Request := none
  requestedRestAccepted : Bool := false
  welfareRestHeld : Bool := false
  tasks : List Task := []
  shieldedPublishes : List Event := []
  log : List Event := []

namespace Sleep

/-- The move from one await of one coroutine to the next, or of what they read. -/
inductive Move
  | advance (elapsed frozen : ℚ)
  | probeWired
  | fatigue (developing : Option Bool)
  | regulation
  | affectRegulation
  | poll (developing : Option Bool) (due : Bool)
  | restRequest (origin proposalId : Json)
  | welfareRestRequest (requestId : Json) (developing : Option Bool)
  | enterSleep
  | stop
  | resume (i : ℕ) (outcome : Outcome)
  | shieldedPublish (written : Bool)

variable (config : Config)

/-- The module as its constructor leaves it. -/
def initial (now paused : ℚ) (desired : Desired) (driveScales : List (Option ℚ))
    (awaitDevelopmentProbe : Bool) : Sleep where
  now := now
  paused := paused
  desired := desired
  driveScales := driveScales
  cycle := .initial config.toCycleConfig
  lastSleepEndedAt := now
  awaitDevelopmentProbe := awaitDevelopmentProbe
  sleepCount := 0

def publish (s : Sleep) (event : Event) : Sleep := { s with log := s.log ++ [event] }

def asleep (s : Sleep) : Bool := s.sleepLock || s.sleepPending

def createTask (s : Sleep) (site : Site) : Sleep :=
  { s with sleepPending := true, tasks := s.tasks ++ [⟨site, .scheduled, 0⟩] }

def setTask (s : Sleep) (i : ℕ) (task : Task) : Sleep := { s with tasks := s.tasks.set i task }

def holds (s : Sleep) (task : Task) : Bool := holdsCycleRest task.site.trigger s.welfareRestHeld

def suspendPerception (s : Sleep) : Sleep :=
  { s with
    preSleepLocus := some (s.preSleepLocus.getD s.desired.locus)
    desired := writeDesiredLocus s.desired .off }

def restorePerception (s : Sleep) : Sleep :=
  { s with
    preSleepLocus := none
    desired := writeDesiredLocus s.desired (s.preSleepLocus.getD .physical) }

/-- The `finally` of the coroutine around a sleep. -/
def clearPending (s : Sleep) (i : ℕ) (task : Task) : Sleep :=
  let s := s.setTask i { task with pc := .done }
  match task.site with
  | .direct => s
  | .fatigueTriggered _ | .stateCycle | .interval => { s with sleepPending := false }
  | .requested _ =>
    { s with sleepPending := false, pendingRest := none, requestedRestAccepted := false }
  | .welfare _ =>
    { s with
      sleepPending := false, pendingRest := none, requestedRestAccepted := false
      welfareRestHeld := false }

/-- Answer a request from its own coroutine, which ends after that. -/
def publishRestRequest (s : Sleep) (i : ℕ) (task : Task) (request : Request)
    (answer : Answer) : Sleep :=
  s.setTask i { task with pc := .answerPublish request answer }

/-- The coroutine around a sleep goes on when `enter_sleep` returned or raised. -/
def afterSleep (s : Sleep) (i : ℕ) (task : Task) (exn : Option Exn) : Sleep :=
  match task.site, exn with
  | .requested request, some .failure =>
    s.publishRestRequest i task request (if s.requestedRestAccepted then .aborted else .busy)
  | .welfare request, some _ =>
    s.publishRestRequest i task request (if s.requestedRestAccepted then .aborted else .failed)
  | _, _ => s.clearPending i task

/-- The coroutine around a sleep goes on when `enter_sleep` raised `SleepBusyError`. -/
def afterBusy (s : Sleep) (i : ℕ) (task : Task) : Sleep :=
  match task.site with
  | .requested request | .welfare request => s.publishRestRequest i task request .busy
  | _ => s.clearPending i task

/-- `enter_sleep` and the pipeline, up to the publish of the started event. -/
def enterSleep (s : Sleep) (i : ℕ) (task : Task) : Sleep :=
  if s.sleepLock then s.afterBusy i task
  else
    let s := suspendPerception { s with sleepLock := true }
    let s := { s with sleepCount := s.sleepCount + 1 }
    if s.holds task then
      let cycle := s.cycle.beginRest config.toCycleConfig s.now s.paused
      { s with cycle := cycle }.setTask i
        { task with pc := .startedPublish, restStarted := cycle.restBegan.getD s.now }
    else s.setTask i { task with pc := .startedPublish, restStarted := s.now }

/-- The pipeline has ended: its `finally`, and that of `enter_sleep`. -/
def leaveSleep (s : Sleep) (i : ℕ) (task : Task) (exn : Option Exn) : Sleep :=
  let s := restorePerception { s with cycle := { s.cycle with restBegan := none } }
  { s with lastSleepEndedAt := s.now, sleepLock := false }.afterSleep i task exn

/-- The wrapper around the pipeline starts the publish of an aborted sleep's end. -/
def abort (s : Sleep) (i : ℕ) (task : Task) (exn : Exn) : Sleep :=
  if s.holds task then
    let resumable := s.cycle.resumable exn
    { s with cycle := s.cycle.cut exn s.now s.paused }.setTask i
      { task with pc := .abortPublish exn resumable }
  else s.setTask i { task with pc := .abortPublish exn false }

/-- The last phase, which runs on every way out of the others. -/
def runFinalAffectiveReset (s : Sleep) (i : ℕ) (task : Task) (exn : Option Exn) : Sleep :=
  (s.publish (.reset s.sleepCount)).setTask i { task with pc := .reset exn }

def runHousekeeping (s : Sleep) (i : ℕ) (task : Task) : Sleep :=
  if config.housekeeper then s.setTask i { task with pc := .housekeeping }
  else s.runFinalAffectiveReset i task none

/-- One turn of the hold's loop. -/
def holdDevelopmentalRest (s : Sleep) (i : ℕ) (task : Task) : Sleep :=
  if s.stopped then s.runFinalAffectiveReset i task (some .cancelled)
  else if config.restS - s.cycle.restElapsed s.now s.paused task.restStarted ≤ 0 then
    runHousekeeping config { s with cycle := s.cycle.reset s.now } i task
  else s.setTask i { task with pc := .holding }

/-- Phase 1 slows the oscillators of the active modules that have one. -/
def lightConsolidation (s : Sleep) (i : ℕ) (task : Task) : Sleep :=
  { s with driveScales := s.driveScales.map (Option.map fun _ => 1 / 2) }.setTask i
    { task with pc := .phase .lightConsolidation }

def afterPhase (s : Sleep) (i : ℕ) (task : Task) (phase : Phase) : Sleep :=
  match phase.next with
  | some next => s.setTask i { task with pc := .phase next }
  | none =>
    if s.holds task then holdDevelopmentalRest config s i task
    else runHousekeeping config s i task

/-- The started event is out: announce the acceptance of the request that the sleep answers. -/
def afterStarted (s : Sleep) (i : ℕ) (task : Task) : Sleep :=
  if task.site.trigger = some .requested ∨ task.site.trigger = some .welfareRest then
    match s.pendingRest with
    | some pending =>
      { s with pendingRest := none, requestedRestAccepted := true }.setTask i
        { task with pc := .acceptedPublish pending }
    | none => s.lightConsolidation i task
  else s.lightConsolidation i task

/-- All phases are over: any completed sleep restarts the active stretch. -/
def completeSleep (s : Sleep) (i : ℕ) (task : Task) : Sleep :=
  if ¬ s.holds task ∧ s.cycle.phase = .awake then
    { s with cycle := s.cycle.reset s.now }.setTask i { task with pc := .completedPublish }
  else s.setTask i { task with pc := .completedPublish }

/-- The coroutine of a request notes it before it calls `enter_sleep`. -/
def noteRequest (s : Sleep) (task : Task) : Sleep :=
  match task.site.request? with
  | some request => { s with pendingRest := some request, requestedRestAccepted := false }
  | none => s

def startedEvent (s : Sleep) (task : Task) : Event :=
  .started s.sleepCount task.site.trigger (if s.holds task then some s.cycle.restSeconds else none)

/-- What a publish has put on the stream when it ends so. -/
def written (s : Sleep) (outcome : Outcome) (event : Event) : Sleep :=
  if outcome.written then s.publish event else s

/-- A coroutine goes on from its await. -/
def resume (s : Sleep) (i : ℕ) (task : Task) (outcome : Outcome) : Option Sleep :=
  match task.pc with
  | .scheduled =>
    match outcome with
    | .returned => some (enterSleep config (s.noteRequest task) i task)
    | .cancelled _ => some (s.setTask i { task with pc := .done })
    | .raised _ => none
  | .startedPublish =>
    let s := s.written outcome (s.startedEvent task)
    match outcome.exn with
    | none => some (s.afterStarted i task)
    | some exn => some (s.abort i task exn)
  | .acceptedPublish pending =>
    let s := s.written outcome (.restRequest pending .accepted)
    match outcome.exn with
    | none | some .failure => some (s.lightConsolidation i task)
    | some .cancelled => some (s.abort i task .cancelled)
  | .phase phase =>
    match outcome.exn with
    | none => some (afterPhase config s i task phase)
    | some exn => some (s.runFinalAffectiveReset i task (some exn))
  | .holding =>
    match outcome.exn with
    | none => some (holdDevelopmentalRest config s i task)
    | some exn => some (s.runFinalAffectiveReset i task (some exn))
  | .housekeeping =>
    match outcome.exn with
    | none | some .failure => some (s.runFinalAffectiveReset i task none)
    | some .cancelled => some (s.runFinalAffectiveReset i task (some .cancelled))
  | .reset exn =>
    match outcome.exn, exn with
    | none, none => some (s.setTask i { task with pc := .audit })
    | none, some exn => some (s.abort i task exn)
    | some exn, _ => some (s.abort i task exn)
  | .audit =>
    match outcome.exn with
    | none | some .failure => some (s.completeSleep i task)
    | some .cancelled => some (s.abort i task .cancelled)
  | .completedPublish =>
    let s := s.written outcome (.completed s.sleepCount none false)
    match outcome.exn with
    | none => some (s.leaveSleep i task none)
    | some exn => some (s.abort i task exn)
  | .abortPublish exn resumable =>
    let event := .completed s.sleepCount (some exn) resumable
    let s := s.written outcome event
    match outcome with
    | .returned | .raised _ => some (s.leaveSleep i task (some exn))
    | .cancelled written =>
      -- The publish goes on under its shield.
      let s := if written then s else { s with shieldedPublishes := s.shieldedPublishes ++ [event] }
      some (s.leaveSleep i task (some .cancelled))
  | .answerPublish request answer =>
    some ((s.written outcome (.restRequest request answer)).clearPending i task)
  | .done => none

/-- Guarded start of an event-driven maintenance sleep. -/
def startMaintenanceSleep (s : Sleep) (trigger : MaintenanceTrigger) : Sleep :=
  if s.asleep then s else s.createTask (.fatigueTriggered trigger)

def startStateCycleSleep (s : Sleep) (resume : Bool) : Sleep :=
  if s.asleep then s
  else { s with cycle := s.cycle.schedule resume }.createTask .stateCycle

def maintenancePollOnce (s : Sleep) (developing : Option Bool) (due : Bool) : Sleep :=
  let s := { s with cycle := s.cycle.tick developing s.asleep s.now s.paused }
  if s.asleep then s
  else if developing = some true then
    if s.cycle.phase = .resting then s.startStateCycleSleep true
    else if config.awakeS ≤ s.cycle.awakeS then s.startStateCycleSleep false
    else s
  else if s.awaitDevelopmentProbe then s
  else if due then s.createTask .interval
  else s

/-- A refusal is answered at once; otherwise the request has a coroutine of its own. -/
def handleRestRequest (s : Sleep) (origin proposalId : Json) : Sleep :=
  let request := ⟨s.handled, origin, proposalId⟩
  let s := { s with handled := s.handled + 1 }
  if s.asleep then s.publish (.restRequest request .busy)
  else if s.now - s.lastSleepEndedAt < config.requestedRestMinIntervalS then
    s.publish (.restRequest request .tooSoon)
  else s.createTask (.requested request)

def welfareRestOrigin : Json := .str "welfare"

def handleWelfareRestRequest (s : Sleep) (requestId : Json) (developing : Option Bool) : Sleep :=
  let requestId := match requestId with
    | .str id => .str id
    | _ => .null
  let request := ⟨s.handled, welfareRestOrigin, requestId⟩
  let s := { s with handled := s.handled + 1 }
  if s.asleep then s.publish (.restRequest request .busy)
  else { s with welfareRestHeld := developing = some true }.createTask (.welfare request)

/-- A direct call of `enter_sleep` runs at once, in a coroutine of its caller. -/
def enterSleepDirectly (s : Sleep) : Sleep :=
  let task := ⟨.direct, .scheduled, 0⟩
  enterSleep config { s with tasks := s.tasks ++ [task] } s.tasks.length task

def step (s : Sleep) : Move → Option Sleep
  | .advance elapsed frozen =>
    if 0 ≤ elapsed ∧ 0 ≤ frozen then
      some { s with now := s.now + elapsed, paused := s.paused + frozen }
    else none
  | .probeWired => some { s with awaitDevelopmentProbe := false }
  | .fatigue developing =>
    some (if developing = some true then s else s.startMaintenanceSleep .fatigue)
  | .regulation => some (s.startMaintenanceSleep .maintenanceRequest)
  | .affectRegulation => some (s.startMaintenanceSleep .affectRegulation)
  | .poll developing due => some (maintenancePollOnce config s developing due)
  | .restRequest origin proposalId => some (handleRestRequest config s origin proposalId)
  | .welfareRestRequest requestId developing =>
    some (s.handleWelfareRestRequest requestId developing)
  | .enterSleep => some (enterSleepDirectly config s)
  | .stop => some { s with stopped := true }
  | .resume i outcome =>
    match s.tasks[i]? with
    | none => none
    | some task => resume config s i task outcome
  | .shieldedPublish written =>
    match s.shieldedPublishes with
    | [] => none
    | event :: rest =>
      let s := { s with shieldedPublishes := rest }
      some (if written then s.publish event else s)

end Sleep

end Kaine
