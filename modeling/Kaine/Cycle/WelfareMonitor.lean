import Kaine.Cycle.IndicatorArm
import Kaine.Lib.Routine

/-! One poll of the welfare monitor (`kaine/cycle/preservation_monitor.py`), and the runs in which
polls meet the two distress streams, the writers of the control file and whatever else happens. -/
namespace Kaine.Welfare
open Py Control WelfareSignal

def interoceptionStream : String := "interoception.out"
def welfareStream : String := "welfare.out"
def countedEpisodesMax : ℕ := 256
def distressReadFailuresToFailPoll : ℕ := 3
def readCount : ℕ := 128

/-- An entry as the poll meets it, with its clocks then. -/
structure Delivery where
  id : Bus.EntryId
  event : Bus.Event
  clocks : Clocks

/-- The entries of a read, and how far it scanned. -/
structure Batch where
  entries : List Delivery
  lastScanned : Option Bus.EntryId

/-- What one poll meets. The clocks of the timer are those of its check for a crossing by time
alone; the responses are counted over the whole run. -/
structure PollInput where
  clocks : Clocks
  holdersRaise : Bool
  retry : RetryInput
  rearm : RearmInput
  interoception : BusRead Batch
  welfare : BusRead Batch
  timer : Clocks
  responses : ℕ → ResponseInput
  arm : ArmInput

namespace DistressArm

/-- Add one episode to the repeat window, once whichever detector reports it. -/
def countEpisode (a : DistressArm) (onset : Option PyFloat) (now : ℚ) : Bool × DistressArm :=
  let record (a : DistressArm) : Bool × DistressArm :=
    let (crossed, repeats) := a.repeats.record now
    (crossed, { a with repeats })
  match onset with
  | none => record a
  | some ts =>
    -- a NaN is equal to nothing, so no episode with one was ever counted
    if ts ≠ .nan ∧ ts ∈ a.countedEpisodes then (false, a)
    else
      let counted := a.countedEpisodes ++ [ts]
      record { a with countedEpisodes := counted.drop (counted.length - countedEpisodesMax) }

/-- A sustained crossing also counts toward the repeat window, which can reclassify it. -/
def sustained (a : DistressArm) (now : ℚ) : CrossingReason × DistressArm :=
  let (again, a) := a.countEpisode a.distressOnsetTs now
  (if again then .repeatedDistress else .sustainedDistress, a)

/-- One sample of the prediction error. -/
def observe (a : DistressArm) (d : Delivery) (magnitude : PyFloat) :
    Option CrossingReason × DistressArm :=
  let onset := if a.tracker.episode.isNone then some (.fin (eventTs d.event)) else a.distressOnsetTs
  let (crossed, tracker) := a.tracker.observe magnitude d.clocks.unfrozen d.clocks.wall
  let a := { a with distressOnsetTs := onset, tracker }
  if crossed then
    let (reason, a) := a.sustained d.clocks.wall
    (some reason, a)
  else (none, a)

/-- The sustained crossing that time alone brings. -/
def timeout (a : DistressArm) (clocks : Clocks) : Option CrossingReason × DistressArm :=
  let (crossed, tracker) := a.tracker.checkTimeout clocks.unfrozen
  let a := { a with tracker }
  if crossed then
    let (reason, a) := a.sustained clocks.wall
    (some reason, a)
  else (none, a)

/-- One gray-zone event, with the onset that names its episode. -/
def grayZone (a : DistressArm) (onset : Option PyFloat) (ofEpisode : Bool) (now : ℚ) :
    Option CrossingReason × DistressArm :=
  let (crossed, a) :=
    if ofEpisode then a.countEpisode onset now
    else
      let (crossed, repeats) := a.repeats.record now
      (crossed, { a with repeats })
  (if crossed then some .repeatedGrayZone else none, a)

def failures (a : DistressArm) (stream : String) : ℕ := (a.readFailures.lookup stream).getD 0

def noteRead (a : DistressArm) (stream : String) (count : ℕ) : DistressArm :=
  { a with readFailures := Assoc.assign a.readFailures stream count }

/-- What the warm-up leaves of the detectors. -/
def clear (a : DistressArm) : DistressArm :=
  { a with tracker := a.tracker.reset, repeats := a.repeats.reset, countedEpisodes := [] }

end DistressArm

def modifyDistress (f : DistressArm → DistressArm) : Poll Unit :=
  modify fun w => { w with distress := f w.distress }

/-- Run a detector, and note what it reports. -/
def detect (f : DistressArm → Option CrossingReason × DistressArm) :
    Poll (List CrossingReason) := do
  let w ← get
  let (reason, distress) := f w.distress
  modifyDistress fun _ => distress
  match reason with
  | none => return []
  | some reason => do
    emit (.crossing reason)
    return [reason]

/-- Undecodable entries count as read: a cursor goes on to the last entry scanned. -/
def skipTo (lastScanned : Option Bus.EntryId) (f : Bus.EntryId → DistressArm → DistressArm) :
    Poll Unit :=
  match lastScanned with
  | none => pure ()
  | some last => modifyDistress (f last)

def distressReadOk (stream : String) : Poll Unit := do
  let w ← get
  if 0 < w.distress.failures stream then modifyDistress fun a => a.noteRead stream 0

/-- The third failed read in a row fails the poll. -/
def distressReadFailed (stream : String) : Poll Unit := do
  let w ← get
  let count := w.distress.failures stream + 1
  modifyDistress fun a => a.noteRead stream count
  if distressReadFailuresToFailPoll ≤ count then throw .busReadFailing

section
-- the text that `float` reads
variable (ofText : String → Option PyFloat)

/-- The sample of a report, none where it brings none. -/
def predictionError (event : Bus.Event) : Option (Except PyError PyFloat) :=
  if event.type = "interoception.report" then
    match Dict.getD event.payload "prediction_error" (.float (.fin 0)) with
    | .null => none
    | raw => some (raw.toDouble ofText)
  else none

/-- What every report says of the warm-up of interoception itself. -/
def DistressArm.noteReport (a : DistressArm) (d : Delivery) : DistressArm :=
  let a := { a with cursor := d.id }
  if d.event.type = "interoception.report" then
    { a with interoceptionWarmupActive :=
        (Dict.getD d.event.payload "warmup_active" (.bool false)).truthy }
  else a

/-- Consume the interoception entries; an error leaves the cursor at the entry that raised it. -/
def takeInteroception : List Delivery → Poll (List CrossingReason)
  | [] => return []
  | d :: rest => do
    modifyDistress fun a => a.noteReport d
    match predictionError ofText d.event with
    | none => takeInteroception rest
    | some (.error e) => throw (.raised e)
    | some (.ok magnitude) => do
      let here ← detect fun a => a.observe d magnitude
      let later ← takeInteroception rest
      return here ++ later

/-- The onset of a gray-zone event, and whether it is one of the distress episodes. -/
def grayZoneOnset (payload : Dict) : Except PyError (Option PyFloat × Bool) :=
  if Dict.get payload "gray_zone_event" = .str "sustained_interoceptive_distress" then
    match Dict.get payload "episode_onset_ts" with
    | .bool _ => .ok (none, true)
    | raw =>
      match raw.asPyNumber with
      | none => .ok (none, true)
      | some x => x.toFloat.map fun ts => (some ts, true)
  else .ok (none, false)

def takeGrayZone : List Delivery → Poll (List CrossingReason)
  | [] => return []
  | d :: rest => do
    modifyDistress fun a => { a with welfareCursor := d.id }
    if d.event.type = "welfare.gray_zone" then
      match grayZoneOnset d.event.payload with
      | .error e => throw (.raised e)
      | .ok (onset, ofEpisode) => do
        let here ← detect fun a => a.grayZone onset ofEpisode d.clocks.wall
        let later ← takeGrayZone rest
        return here ++ later
    else takeGrayZone rest

/-- The interoception entries of a poll, and the fault that is kept until its end. -/
def readInteroception (read : BusRead Batch) : Poll (Batch × Option Fault) := do
  match read with
  | .timeout => return (⟨[], none⟩, some .busTimeout)
  | .failed =>
    tryCatch
      (do
        distressReadFailed interoceptionStream
        return (⟨[], none⟩, none))
      fun fault => return (⟨[], none⟩, some fault)
  | .read batch =>
    distressReadOk interoceptionStream
    return (batch, none)

def drainGrayZone (read : BusRead Batch) : Poll (List CrossingReason) := do
  match read with
  | .timeout => throw .busTimeout
  | .failed =>
    distressReadFailed welfareStream
    return []
  | .read batch =>
    distressReadOk welfareStream
    let reasons ← takeGrayZone batch.entries
    skipTo batch.lastScanned fun last a => { a with welfareCursor := last }
    return reasons

/-- Pause and end act once, so what comes after them in the same poll is dropped. -/
def respondAll (cfg : Config) (inputs : ℕ → ResponseInput) : List CrossingReason → Poll Unit
  | [] => pure ()
  | reason :: rest => do
    let w ← get
    if w.latch.acted then pure ()
    else
      respond cfg inputs reason none
      respondAll cfg inputs rest

/-- The crossings on the interoception stream, and the fault kept for the end. -/
def hear (input : PollInput) : Poll (List CrossingReason × Option Fault) := do
  let (batch, deferred) ← readInteroception input.interoception
  let heard ← takeInteroception ofText batch.entries
  skipTo batch.lastScanned fun last a => { a with cursor := last }
  return (heard, deferred)

/-- Time alone can bring a crossing where the samples brought none. -/
def checkTimer (timer : Clocks) (heard : List CrossingReason) : Poll (List CrossingReason) :=
  if heard = [] then detect fun a => a.timeout timer else return heard

/-- The crossings of a poll, and the first fault that a read kept for its end. -/
def collect (input : PollInput) : Poll (List CrossingReason × Option Fault) := do
  let (heard, deferred) ← hear ofText input
  let reasons ← checkTimer input.timer heard
  tryCatch
    (do
      let gray ← drainGrayZone input.welfare
      return (reasons ++ gray, deferred))
    fun fault =>
      match fault with
      | .raised e => throw (.raised e)
      | fault => return (reasons, deferred.orElse fun _ => some fault)

/-- The indicator arm runs only while the latch is free, and a timeout of it is kept too. -/
def pollArm (cfg : Config) (input : PollInput) (deferred : Option Fault) : Poll (Option Fault) := do
  let w ← get
  if cfg.indicatorsOn ∧ w.latch.acted = false then
    tryCatch
      (do
        indicatorPoll cfg input.arm input.responses
        return deferred)
      fun fault =>
        if fault = .busTimeout then return deferred.orElse fun _ => some fault
        else throw fault
  else return deferred

/-- A poll that listens: no fault of a read keeps a crossing from its response. -/
def listen (cfg : Config) (input : PollInput) : Poll Unit := do
  let (reasons, deferred) ← collect ofText input
  respondAll cfg input.responses reasons
  match ← pollArm cfg input deferred with
  | none => pure ()
  | some fault => throw fault

/-- Drain one stream in warm-up: nothing is fed, and nothing counts. -/
def drainStream (stream : String) (read : BusRead Batch)
    (note : Delivery → DistressArm → DistressArm)
    (skip : Bus.EntryId → DistressArm → DistressArm) : Poll ℕ := do
  match read with
  | .timeout => throw .busTimeout
  | .failed =>
    distressReadFailed stream
    return 0
  | .read batch =>
    distressReadOk stream
    modifyDistress fun a => batch.entries.foldl (fun a d => note d a) a
    skipTo batch.lastScanned skip
    return batch.entries.length

/-- The record of a warm-up that saw events. -/
def noteWarmup (now : Clocks) (eventsObserved : ℕ) : Poll Unit := do
  let w ← get
  if 0 < eventsObserved then
    let livedTimeS :=
      match w.startedAt with
      | none => 0
      | some started => now.unfrozen - started.unfrozen
    emit (.record (.warmingUp eventsObserved livedTimeS))

def drainDuringWarmup (cfg : Config) (input : PollInput) : Poll Unit := do
  let reports ← drainStream interoceptionStream input.interoception
    (fun d a => a.noteReport d) (fun last a => { a with cursor := last })
  let grays ← drainStream welfareStream input.welfare
    (fun d a => { a with welfareCursor := d.id }) (fun last a => { a with welfareCursor := last })
  modifyDistress DistressArm.clear
  noteWarmup input.clocks (reports + grays)
  if cfg.indicatorsOn then indicatorAccrue input.arm

/-- The fixed warm-up, in unfrozen time, and the one that interoception asks for; wall time bounds
both. -/
def inWarmup (cfg : Config) (started now : Clocks) (interoceptionActive : Bool) : Bool :=
  (now.wall - started.wall < max cfg.warmupS cfg.warmupCeilingS &&
    now.unfrozen - started.unfrozen < cfg.warmupS) ||
  (interoceptionActive && now.wall - started.wall < cfg.warmupCeilingS)

/-- The first poll looks for a standing freeze. -/
def World.check (w : World) (input : PollInput) : World :=
  if w.holdersChecked then w
  else ({ w with holdersChecked := true }.adoptStandingWelfareFreeze input.holdersRaise)

/-- The first poll that is not latched starts the warm-up. -/
def World.start (w : World) (now : Clocks) : World :=
  { w with startedAt := w.startedAt.orElse fun _ => some now }

def pollOnce (cfg : Config) (input : PollInput) : Poll Unit := do
  modify fun w => w.check input
  let w ← get
  if w.latch.acted then
    match w.latch.pendingFreeze with
    | some pending => retryPendingFreeze input.retry pending
    | none => maybeRearm cfg input.rearm
  else
    modify fun w => w.start input.clocks
    if inWarmup cfg (w.startedAt.getD input.clocks) input.clocks
        w.distress.interoceptionWarmupActive then
      drainDuringWarmup cfg input
    else listen ofText cfg input

end

/-- The monitor with the histories of the two distress streams. -/
structure System where
  world : World
  interoception : Bus.Stream
  welfare : Bus.Stream

/-- A poll before its reads are resolved: an answered read brings what the stream holds after the
cursor, with the clocks as the poll comes to each entry, and the tails are those of the streams. -/
structure PollMove where
  clocks : Clocks
  holdersRaise : Bool
  retry : RetryInput
  rearmHoldersRaise : Bool
  tails : BusRead (Bus.EntryId × Bus.EntryId)
  interoception : BusRead (ℕ → Clocks)
  welfare : BusRead (ℕ → Clocks)
  timer : Clocks
  responses : ℕ → ResponseInput
  arm : ArmInput

/-- What happens to the system: polls, other writers of the control file, and new entries. -/
inductive Move where
  | poll (p : PollMove)
  | control (change : ControlFile → ControlFile)
  | publishInteroception (entry : Bus.StreamEntry)
  | publishWelfare (entry : Bus.StreamEntry)

def BusRead.map {α β : Type} (f : α → β) : BusRead α → BusRead β
  | .timeout => .timeout
  | .failed => .failed
  | .read a => .read (f a)

/-- One read of a stream after a cursor. -/
def batchOf (stream : Bus.Stream) (cursor : Bus.EntryId) (clocks : ℕ → Clocks) : Batch :=
  let entries := stream.xread cursor readCount
  ⟨(Bus.decoded entries).mapIdx fun i found => ⟨found.1, found.2, clocks i⟩,
    Bus.lastScanned entries⟩

def System.pollInput (s : System) (p : PollMove) : PollInput where
  clocks := p.clocks
  holdersRaise := p.holdersRaise
  retry := p.retry
  rearm := ⟨p.rearmHoldersRaise,
    p.tails.map fun tails => ⟨s.interoception.lastEntryId, s.welfare.lastEntryId, tails.1, tails.2⟩⟩
  interoception := p.interoception.map (batchOf s.interoception s.world.distress.cursor)
  welfare := p.welfare.map (batchOf s.welfare s.world.distress.welfareCursor)
  timer := p.timer
  responses := p.responses
  arm := p.arm

/-- `XADD`, which refuses an id that is not beyond the tail. -/
def publish (stream : Bus.Stream) (entry : Bus.StreamEntry) : Bus.Stream :=
  if h : stream.lastEntryId < entry.id then stream.append entry h else stream

def step (cfg : Config) (ofText : String → Option PyFloat) (s : System) : Move → System
  | .poll p => { s with world := (Routine.final (pollOnce ofText cfg (s.pollInput p)) s.world) }
  | .control change => { s with world := { s.world with file := change s.world.file } }
  | .publishInteroception entry => { s with interoception := publish s.interoception entry }
  | .publishWelfare entry => { s with welfare := publish s.welfare entry }

def run (cfg : Config) (ofText : String → Option PyFloat) (s : System)
    (moves : List Move) : System :=
  moves.foldl (step cfg ofText) s

/-- A new monitor over any streams and any control file. -/
def System.initial (cfg : Config) (file : ControlFile) (interoception welfare : Bus.Stream) :
    System :=
  ⟨.initial cfg file, interoception, welfare⟩

end Kaine.Welfare
