import Kaine.Cycle.IndividuationScheduler

/-! The attempts of the scheduler of individuation, and the operator's alert for a stretch of them
that comes to nothing. Times on the wall clock are microseconds, durations are rational seconds. -/
namespace Kaine.IndividuationScheduler
open Py LivedTime IndividuationStore

/-- `isoformat`, and the time that a text gives when an aware time is taken from it, none where that
raises. -/
structure Iso where
  format : ℤ → String
  parse : String → Option ℤ
  parse_format : ∀ t, parse (format t) = some t

/-- The settings of attempts, as far as alerts and retries go. -/
structure AttemptSettings where
  blockedRetryS : ℚ
  inconclusiveRetryS : ℚ
  captureRetryInitialS : ℚ
  captureRetryMaxS : ℚ
  inconclusiveAlertS : ℚ
  minLookIntervalS : ℚ
  minLivedTimeS : ℚ
  minObservations : ℤ
  alert_pos : 0 < inconclusiveAlertS

def elapsed (since now : ℤ) : ℚ := (now - since : ℤ) / 1000000

/-- `round(x / 86400.0, 1)`: of the double the decimal to one place, of that the nearest double. -/
def days (x : ℚ) : ℚ :=
  Rounding.binary64 (Rounding.halfEven (Rounding.binary64 (Rounding.binary64 x / 86400) * 10) / 10)

inductive Alert
  | inconclusive (since : Option String) (days : Option ℚ)
  (lastReason captureReason : Option String)
  | conditionsChanged (referenceId : Json)
  | ledgerUnreadable
deriving DecidableEq

/-- Is it the alert of a stretch? -/
def Alert.isInconclusive : Alert → Bool
  | .inconclusive .. => true
  | _ => false

/-- The record of a failing capture. -/
structure CaptureStretch where
  since : String
  alerted : Bool := false
  lastReason : Option String := none
deriving DecidableEq

inductive StretchFile
  | absent
  | faulty
  | stored (stretch : CaptureStretch)
deriving DecidableEq

/-- What the scheduler keeps in memory of its alerts. -/
structure Alerting where
  stretch : Option CaptureStretch := none
  stretchSinceKnown : Bool := true
  alertedSince : Option String := none
  ledgerUnreadableAlerted : Bool := false
deriving DecidableEq

def inconclusiveReasons : List String :=
  ["ledger_unreadable", "reference_unreadable", "no_reference", "ledger_missing", "battery_changed",
    "conditions_changed", "conditions_unreadable", "alpha_unresolvable",
      "conditioning_changed_mid_run",
    "embedding_failed", "embedder_not_semantic", "adapter_not_applied", "request_failed",
      "organ_resting",
    "no_content", "self_model_not_ready", "disclosure_not_ready", "organ_unloaded",
      "asleep", "paused",
    "deadline_exceeded", "conditioning_unreadable", "ledger_reference_mismatch",
      "statistics_failed",
    "unclassified_failure"]

def captureFailureLabels : List String := inconclusiveReasons ++ ["adapter_unverifiable", "error"]

/-- What fails while a capture failure is noted, and when it is. -/
structure NoteCall where
  now : ℤ
  loadFails : Bool := false
  sendFails : Bool := false
  saveFails : Option WriteStep := none

/-- What an attempt has done to the alerts: the memory, the file, and the alerts that were sent. -/
structure Noted where
  state : Alerting
  file : StretchFile
  sent : List Alert

/-- Load the capture stretch, or none if no capture is failing; none where it raises. -/
def loadCaptureStretch (file : StretchFile) (fails : Bool) : Option (Option CaptureStretch) :=
  if fails then none
  else
    match file with
    | .absent => some none
    | .faulty => none
    | .stored stretch => some (some stretch)

def saveCaptureStretch (file : StretchFile) (stretch : CaptureStretch) :
    Option WriteStep → StretchFile
  | none => .stored stretch
  | some .chmod => .stored stretch
  | some _ => file

/-- The running stretch: the record is read once, at the first failure. -/
def runningStretch (iso : Iso) (call : NoteCall) (s : Alerting) (file : StretchFile) :
    CaptureStretch × Bool :=
  match s.stretch with
  | some stretch => (stretch, s.stretchSinceKnown)
  | none =>
    match loadCaptureStretch file call.loadFails with
    | none => ({ since := iso.format call.now }, false)
    | some stored => (stored.getD { since := iso.format call.now }, true)

def noteCaptureFailure (iso : Iso) (settings : AttemptSettings) (reason : String)
    (call : NoteCall) (s : Alerting)
    (file : StretchFile) : Noted :=
  let label := if reason ∈ captureFailureLabels then reason else "unclassified_failure"
  let running := runningStretch iso call s file
  let stretch := running.1
  let past := if running.2 then (iso.parse stretch.since).map fun since => elapsed since call.now
    else none
  let due := past.all fun seconds => decide (settings.inconclusiveAlertS ≤ seconds)
  let alerts := due && !stretch.alerted && !call.sendFails
  let noted := { stretch with alerted := stretch.alerted || alerts, lastReason := some label }
  { state := { s with stretch := some noted, stretchSinceKnown := running.2 }
    file := saveCaptureStretch file noted call.saveFails
    sent :=
      if alerts then
        [.inconclusive (past.map fun _ => stretch.since) (past.map days) (some "no_reference")
          (some label)]
      else [] }

/-- The end of a stretch: a reference exists. -/
def clearCaptureStretch (unlinkFails : Bool) (s : Alerting) (file : StretchFile) :
    Alerting × StretchFile :=
  ({ s with stretch := none, stretchSinceKnown := true }, if unlinkFails then file else .absent)

/-- What fails while an inconclusive look is marked, and the two times that are read. -/
structure MarkCall where
  now : ℤ
  later : ℤ
  io : FlushCall := {}
  sendFails : Bool := false
  conditionsSendFails : Bool := false
  unreadableSendFails : Bool := false
  refresh : FlushCall := {}

structure Marked where
  state : Alerting
  file : LedgerFile
  sent : List Alert
  raised : Option StoreError

def alertLedgerUnreadable (s : Alerting) (sendFails : Bool) : Alerting × List Alert :=
  if s.ledgerUnreadableAlerted || sendFails then (s, [])
  else ({ s with ledgerUnreadableAlerted := true }, [.ledgerUnreadable])

/-- The view is refreshed; a ledger that reads again makes a later corruption a new notice. -/
def refreshState (path : String) (refresh : FlushCall) (s : Alerting) (file : LedgerFile) :
    Alerting × Option StoreError :=
  match refresh.load path file with
  | .error (.unreadable _) =>
    if refresh.refreshFails then (s, some (.python .osError)) else (s, none)
  | .error e => (s, some e)
  | .ok _ =>
    if refresh.refreshFails then (s, some (.python .osError))
    else ({ s with ledgerUnreadableAlerted := false }, none)

/-- The text of a reference's id, which is one by its type. An id of another kind is copied by the
code and makes the saved ledger unreadable; here it is not. -/
def idText : Json → Option String
  | .str id => some id
  | _ => none

/-- The start that the ledger has, or the time of this mark. -/
def stretchStart (iso : Iso) (call : MarkCall) (ledger : Ledger) : String :=
  ledger.inconclusiveSince.getD (iso.format call.now)

/-- A start that is no time is long enough ago. -/
def stretchSeconds (iso : Iso) (settings : AttemptSettings) (call : MarkCall)
    (ledger : Ledger) : ℚ :=
  ((iso.parse (stretchStart iso call ledger)).map fun t => elapsed t call.later).getD
    settings.inconclusiveAlertS

/-- Is the alert of the stretch sent? -/
def stretchTold (iso : Iso) (settings : AttemptSettings) (call : MarkCall) (s : Alerting)
    (ledger : Ledger) : Bool :=
  decide (settings.inconclusiveAlertS ≤ stretchSeconds iso settings call ledger) &&
    !ledger.inconclusiveAlerted &&
    decide (s.alertedSince ≠ some (stretchStart iso call ledger)) && !call.sendFails

/-- Is the alert of changed conditions sent? -/
def changeTold (reason : Option String) (call : MarkCall) (ledger : Ledger) : Bool :=
  reason == some "conditions_changed" &&
    decide (optionalText ledger.conditionsAlertedReference ≠ ledger.referenceId) &&
      !call.conditionsSendFails

/-- The ledger with its updates. -/
def markedLedger (iso : Iso) (settings : AttemptSettings) (reason : Option String)
    (call : MarkCall) (s : Alerting) (ledger : Ledger) : Ledger :=
  { ledger with
    lastInconclusiveReason := reason.or ledger.lastInconclusiveReason
    inconclusiveSince := some (stretchStart iso call ledger)
    conditionsAlertedReference :=
      if changeTold reason call ledger then idText ledger.referenceId
        else ledger.conditionsAlertedReference
    inconclusiveAlerted := ledger.inconclusiveAlerted || stretchTold iso settings call s ledger }

def markInconclusive (path : String) (iso : Iso) (settings : AttemptSettings)
    (reason : Option String) (call : MarkCall) (s : Alerting) (file : LedgerFile) : Marked :=
  match call.io.load path file with
  | .error (.unreadable _) =>
    let told := alertLedgerUnreadable s call.unreadableSendFails
    ⟨told.1, file, told.2, none⟩
  | .error e => ⟨s, file, [], some e⟩
  | .ok none => ⟨s, file, [], none⟩
  | .ok (some ledger) =>
    let told := stretchTold iso settings call s ledger
    let updated := markedLedger iso settings reason call s ledger
    let changed := if changeTold reason call ledger then [.conditionsChanged ledger.referenceId]
      else []
    let alerts := if told then
        [.inconclusive (some (stretchStart iso call ledger))
          (some (days (stretchSeconds iso settings call ledger)))
          updated.lastInconclusiveReason none]
      else []
    let s := if told then { s with alertedSince := some (stretchStart iso call ledger) } else s
    -- the alert of changed conditions comes with its reason, which is an update
    if reason.isSome || ledger.inconclusiveSince.isNone || told then
      let saved := saveLedger path file (call.io.save updated)
      match saved.result with
      | .error (.python e) => ⟨s, saved.file, changed ++ alerts, some (.python e)⟩
      | _ =>
        let refreshed := refreshState path call.refresh s saved.file
        ⟨refreshed.1, saved.file, changed ++ alerts, refreshed.2⟩
    else
      let refreshed := refreshState path call.refresh s file
      ⟨refreshed.1, file, changed ++ alerts, refreshed.2⟩

/-- A scheduler that attempts, with the two files of its alerts. -/
structure Attempter where
  counting : Scheduler
  alerting : Alerting := {}
  captureKind : Option String := none
  captureRegenerate : Bool := false
  captureAt : Option ℚ := none
  captureBackoff : ℚ
  lookDueAt : Option ℚ := none
  ledger : LedgerFile
  stretch : StretchFile

structure Attempted where
  attempter : Attempter
  sent : List Alert := []
  raised : Option StoreError := none

/-- What the core makes of a capture. -/
inductive CaptureResult
  | referenceExists
  | raised (ledgerUnreadable : Bool)
  | failed (reason : String)
  | captured

/-- What an attempt at a capture meets: why it is blocked, what the core does, with the ledger that
it leaves, and what fails. `ended` is the time at which the core is done. -/
structure CaptureCall where
  m : ℚ
  blocked : Option String := none
  result : CaptureResult
  coreLedger : Option LedgerFile := none
  ended : ℚ
  flush : FlushCall := {}
  reanchorLoad : FlushCall := {}
  clock : Reading ℚ
  paused : Reading ℚ
  tickIndex : Option ℤ := none
  note : NoteCall
  unlinkFails : Bool := false
  unreadableSendFails : Bool := false
  refresh : FlushCall := {}

namespace Attempter

def refreshed (path : String) (refresh : FlushCall) (s : Attempter) : Attempted :=
  let r := refreshState path refresh s.alerting s.ledger
  { attempter := { s with alerting := r.1 }, raised := r.2 }

/-- Stretch bookkeeping that can never stop the capture from backing off. -/
def trackCaptureFailure (iso : Iso) (settings : AttemptSettings) (reason : String) (call : NoteCall)
    (s : Attempter) : Attempted :=
  let noted := noteCaptureFailure iso settings reason call s.alerting s.stretch
  { attempter := { s with alerting := noted.state, stretch := noted.file }, sent := noted.sent }

/-- The next attempt waits for the backoff, which doubles. -/
def backOff (settings : AttemptSettings) (ended : ℚ) (s : Attempter) : Attempter :=
  { s with
    captureAt := some (ended + s.captureBackoff)
    captureBackoff := min (2 * s.captureBackoff) settings.captureRetryMaxS }

/-- With no ledger lived time is anchored anew. -/
def maybeReanchor (path : String) (call : CaptureCall) (s : Attempter) : Attempter :=
  match call.reanchorLoad.load path s.ledger with
  | .ok none =>
    { s with counting := reanchorLived s.counting call.clock call.paused call.tickIndex }
  | _ => s

def endCapture (unlinkFails : Bool) (s : Attempter) : Attempter :=
  let cleared := clearCaptureStretch unlinkFails s.alerting s.stretch
  { s with
    alerting := cleared.1
    stretch := cleared.2
    captureKind := none
    captureRegenerate := false
    captureAt := none }

end Attempter

/-- How far an attempt at a capture comes: to its end, or to a failure that is to be noted, with
what was sent. -/
inductive CapturePath
  | done (result : Attempted)
  | fails (reason : String) (s : Attempter) (sent : List Alert)

namespace Attempter

def capturePath (path : String) (settings : AttemptSettings) (call : CaptureCall) (s : Attempter) :
    CapturePath :=
  match call.blocked with
  | some reason =>
    let skipped :=
      refreshed path call.refresh { s with captureAt := some (call.m + settings.blockedRetryS) }
    match skipped.raised with
    | some e => .done { attempter := skipped.attempter, raised := some e }
    | none => .fails reason skipped.attempter []
  | none =>
    let flushed := flushLived path s.counting s.ledger call.flush
    let s := { s with counting := flushed.scheduler, ledger := flushed.file }
    match flushed.raised with
    | some e => .done { attempter := s, raised := some e }
    | none =>
      let s := { s with ledger := call.coreLedger.getD s.ledger }
      match call.result with
      | .referenceExists => .done (refreshed path call.refresh (endCapture call.unlinkFails s))
      | .raised ledgerUnreadable =>
        let backed := maybeReanchor path call (backOff settings call.ended s)
        let told :=
          if ledgerUnreadable then alertLedgerUnreadable backed.alerting call.unreadableSendFails
          else (backed.alerting, [])
        .fails (if ledgerUnreadable then "ledger_unreadable" else "error")
          { backed with alerting := told.1 } told.2
      | .failed reason => .fails reason (maybeReanchor path call (backOff settings call.ended s)) []
      | .captured =>
        let ended := endCapture call.unlinkFails s
        .done (refreshed path call.refresh { ended with
          captureBackoff := settings.captureRetryInitialS
          counting := reanchorLived ended.counting call.clock call.paused call.tickIndex })

def attemptCapture (path : String) (iso : Iso) (settings : AttemptSettings)
    (call : CaptureCall) (s : Attempter) :
    Attempted :=
  match capturePath path settings call s with
  | .done result => result
  | .fails reason s sent =>
    let tracked := trackCaptureFailure iso settings reason call.note s
    { tracked with sent := sent ++ tracked.sent }

end Attempter

/-- What the core makes of a look. -/
inductive LookResult
  | raised
  | scored
  | inconclusive (reason : Option String)
  | skipped (reason : Option String)

/-- What an attempt at a look meets. `lookDue` is what the core says of a look that is blocked. -/
structure LookCall where
  m : ℚ
  now : ℤ
  referenceExists : Bool := true
  load : FlushCall := {}
  blocked : Option String := none
  lookDue : Bool := true
  flush : FlushCall := {}
  reRead : FlushCall := {}
  result : LookResult
  coreLedger : Option LedgerFile := none
  ended : ℚ
  afterLoad : FlushCall := {}
  mark : MarkCall
  refresh : FlushCall := {}

/-- `load_ledger`, where an unreadable ledger counts as none. -/
def readableLedger (path : String) (call : FlushCall) (file : LedgerFile) :
    Except StoreError (Option Ledger) :=
  match call.load path file with
  | .error (.unreadable _) => .ok none
  | r => r

namespace Attempter

/-- Too little has been lived since the reference for a look. -/
def warmingUp (settings : AttemptSettings) (s : Attempter) (ledger : Ledger) : Bool :=
  (s.counting.credit ledger).livedSeconds.value.lt (.fin settings.minLivedTimeS) ||
    decide ((s.counting.credit ledger).livedTicks.value < settings.minObservations)

/-- The seconds to wait until a look is allowed again. -/
def untilAllowed (iso : Iso) (settings : AttemptSettings) (now : ℤ) (ledger : Ledger) : Option ℚ :=
  match ledger.lastLookAt with
  | none => none
  | some last =>
    match iso.parse last with
    | none => none
    | some t =>
      if elapsed t now < settings.minLookIntervalS
        then some (settings.minLookIntervalS - elapsed t now)
      else none

end Attempter

/-- Has the core counted the look that raised? -/
def lookCounted : Option Ledger → Option Ledger → Bool
  | some before, some after => decide (before.looksCompleted.value < after.looksCompleted.value)
  | _, _ => false

/-- How far an attempt at a look comes: to its end, or to a mark, after which the view may be
refreshed. -/
inductive LookPath
  | done (result : Attempted)
  | marks (reason : Option String) (s : Attempter) (refreshes : Bool)

namespace Attempter

/-- A look that is not skipped for want of a reference, of lived time or of an interval. -/
def lookAllowed (path : String) (settings : AttemptSettings) (call : LookCall)
    (s : Attempter) : LookPath :=
  match call.blocked with
  | some reason =>
    let skipped :=
      refreshed path call.refresh { s with lookDueAt := some (call.m + settings.blockedRetryS) }
    match skipped.raised with
    | some e => .done { attempter := skipped.attempter, raised := some e }
    | none => if call.lookDue then .marks (some reason) skipped.attempter false else .done skipped
  | none =>
    let flushed := flushLived path s.counting s.ledger call.flush
    let s := { s with counting := flushed.scheduler, ledger := flushed.file }
    match flushed.raised with
    | some e => .done { attempter := s, raised := some e }
    | none =>
      match readableLedger path call.reRead s.ledger with
      | .error e => .done { attempter := s, raised := some e }
      | .ok before =>
        let s := { s with ledger := call.coreLedger.getD s.ledger }
        match call.result with
        | .raised =>
          match readableLedger path call.afterLoad s.ledger with
          | .error e => .done { attempter := s, raised := some e }
          | .ok after =>
            if lookCounted before after then
              .done (refreshed path call.refresh { s with lookDueAt := none })
            else
              .marks (some "error")
                { s with lookDueAt := some (call.ended + settings.inconclusiveRetryS) } false
        | .scored => .done (refreshed path call.refresh { s with lookDueAt := none })
        | .inconclusive reason =>
          .marks reason { s with lookDueAt := some (call.ended + settings.inconclusiveRetryS) } true
        | .skipped _ => .done (refreshed path call.refresh { s with lookDueAt := none })

def lookPath (path : String) (iso : Iso) (settings : AttemptSettings) (call : LookCall)
    (s : Attempter) : LookPath :=
  if !call.referenceExists then .done (refreshed path call.refresh { s with lookDueAt := none })
  else
    match readableLedger path call.load s.ledger with
    | .error e => .done { attempter := s, raised := some e }
    | .ok none => lookAllowed path settings call s
    | .ok (some ledger) =>
      if warmingUp settings s ledger
        then .done (refreshed path call.refresh { s with lookDueAt := none })
      else
        match untilAllowed iso settings call.now ledger with
        | some wait =>
          .done (refreshed path call.refresh { s with lookDueAt := some (call.m + wait) })
        | none => lookAllowed path settings call s

def mark (path : String) (iso : Iso) (settings : AttemptSettings) (reason : Option String)
    (call : MarkCall) (s : Attempter) : Attempted :=
  let marked := markInconclusive path iso settings reason call s.alerting s.ledger
  { attempter := { s with alerting := marked.state, ledger := marked.file },
    sent := marked.sent, raised := marked.raised }

def attemptLook (path : String) (iso : Iso) (settings : AttemptSettings) (call : LookCall)
    (s : Attempter) : Attempted :=
  match lookPath path iso settings call s with
  | .done result => result
  | .marks reason s refreshes =>
    let marked := mark path iso settings reason call.mark s
    if refreshes && marked.raised.isNone then
      { refreshed path call.refresh marked.attempter with sent := marked.sent }
    else marked

end Attempter

end Kaine.IndividuationScheduler
