import Kaine.Bus.Client
import Kaine.Lib.Consumer
import Kaine.Lib.Transition

/-! The sleep count of the maturation gate runner, through failing reads, failing writes and
restarts (`kaine/lifecycle/gate_runner.py`, `kaine/lifecycle/stage.py`). -/
namespace Kaine.SleepCount
open Py Bus

inductive Stage where
  | development
  | embodied
  deriving DecidableEq

variable {F : Type} [Zero F] [Add F] [LT F] [DecidableLT F] [DecidableEq F]

/-- The fields of the stage that the runner writes. -/
structure StageState (F : Type) [Zero F] where
  stage : Stage := .development
  developmentStartedAt : Option String := none
  bornAt : Option String := none
  livedSeconds : F := 0
  sleepCount : ℕ := 0
  sleepCursor : Option EntryId := none
  stimulusSourceSeconds : Option F := none
  deriving DecidableEq

/-- Without a stage file, a lived entity counts as embodied. -/
def resolveBootStage (existing : Option (StageState F)) (priorLivedHistory : Bool) (now : String) :
    StageState F :=
  match existing with
  | some stage => stage
  | none =>
    if priorLivedHistory then { stage := .embodied }
    else { stage := .development, developmentStartedAt := some now }

def advanceToEmbodied (state : StageState F) (now : String) : StageState F :=
  if state.stage = .embodied then state
  else { state with stage := .embodied, bornAt := some now }

/-- A rest that a restart cut resumes as a new sleep, so its cancelled completion counts nothing. -/
def resumableCancelled (payload : Dict) : Bool :=
  payload.lookup "aborted" = some (.bool true) &&
    (payload.lookup "trigger" = some (.str "state_cycle") ||
      payload.lookup "trigger" = some (.str "welfare_rest")) &&
    payload.lookup "reason" = some (.str "CancelledError") &&
    payload.lookup "resumable" = some (.bool true)

def countsAsSleep (event : Event) : Bool :=
  event.type = "sleep.sleep.completed" && event.source = "sleep" &&
    !resumableCancelled event.payload

/-- The inner loop over the entries of one read. -/
def countBatch (total : ℕ) (entries : List (EntryId × Event)) : ℕ :=
  entries.foldl (fun total entry => if countsAsSleep entry.2 then total + 1 else total) total

structure Runner (F : Type) [Zero F] where
  stage : StageState F
  stagingEnabled : Bool
  stimulusSourceFeedConfigured : Bool
  bootMs : Option ℕ := none
  stageWritten : Bool := false

/-- What the runner awaits: a reply to `latest`, or to a read of the scan at its cursor. -/
inductive Phase (F : Type) [Zero F] where
  | idle
  | anchoring (final : Bool) (before : StageState F)
  | scanning (final : Bool) (before : StageState F) (cursor : EntryId) (total : ℕ)
  | evaluating

/-- The stream, the process and the stage file, with the anchors that the stage in memory and the
one on disk go back to. -/
structure System (F : Type) [Zero F] where
  stream : Stream
  runner : Runner F
  phase : Phase F := .idle
  disk : Option (StageState F) := none
  anchor : Option (Consumer.Anchor EntryId) := none
  diskAnchor : Option (Consumer.Anchor EntryId) := none

def blockedReason (runner : Runner F) : Option String :=
  if !runner.stagingEnabled || runner.stage.stage ≠ .development then some "not_developing"
  else if runner.bootMs.isNone then some "boot_not_anchored"
  else if !runner.stimulusSourceFeedConfigured then some "no_stimulus_source_feed"
  else none

def accumulateLivedTime (delta : F) (stage : StageState F) : StageState F :=
  if 0 < delta then { stage with livedSeconds := stage.livedSeconds + delta } else stage

/-- The reading is none where the clock is missing, raises or is not finite. -/
def recordStimulusSourceSeconds (reading : Option F) (stage : StageState F) : StageState F :=
  match reading with
  | none => stage
  | some value => if value < 0 then stage else { stage with stimulusSourceSeconds := some value }

namespace System

def setStage (s : System F) (stage : StageState F) : System F :=
  { s with runner := { s.runner with stage := stage } }

/-- `write_stage` replaces the file in one step, or raises and leaves it. -/
def writeStage (ok : Bool) (s : System F) : System F :=
  if ok then
    { s with
      disk := some s.runner.stage
      diskAnchor := s.anchor
      runner := { s.runner with stageWritten := true } }
  else s

def persistIfChanged (before : StageState F) (ok : Bool) (s : System F) : System F :=
  if s.runner.stage = before ∧ s.runner.stageWritten then s else s.writeStage ok

/-- What follows a count: a tick goes on to evaluate, the final count persists only a change. -/
def afterCount (final : Bool) (before : StageState F) (write : Bool) (s : System F) : System F :=
  if final then
    { (if s.runner.stage = before then s else s.persistIfChanged before write) with phase := .idle }
  else { s.persistIfChanged before write with phase := .evaluating }

/-- `_count_new_sleeps` up to its first read. -/
def beginCount (final : Bool) (before : StageState F) (s : System F) : System F :=
  match s.runner.stage.sleepCursor with
  | none => { s with phase := .anchoring final before }
  | some cursor => { s with phase := .scanning final before cursor s.runner.stage.sleepCount }

/-- `_evaluate_once` up to the count. -/
def beginTick (serverTime : Option ℕ) (delta : F) (reading : Option F) (s : System F) : System F :=
  if !s.runner.stagingEnabled || s.runner.stage.stage ≠ .development then s
  else
    let before := s.runner.stage
    let s := { s with runner := { s.runner with bootMs := s.runner.bootMs.or serverTime } }
    if (blockedReason s.runner).isSome then s
    else
      (s.setStage (recordStimulusSourceSeconds reading
        (accumulateLivedTime delta s.runner.stage))).beginCount false before

/-- The reply to `latest` anchors a fresh cursor. -/
def latestReply (read : Bool) (final : Bool) (before : StageState F) (write : Bool)
    (s : System F) : System F :=
  if read then
    let cursor := (s.stream.latest.map Prod.fst).getD ⟨0, 0⟩
    let s := s.setStage { s.runner.stage with sleepCursor := some cursor }
    { s with anchor := some ⟨cursor, s.stream.lastEntryId⟩ }.afterCount final before write
  else s.afterCount final before write

/-- The reply to one read of the scan. Only a read that finds nothing ends it, and only then do
count and cursor enter the stage. -/
def batchReply (read : Bool) (final : Bool) (before : StageState F) (cursor : EntryId) (total : ℕ)
    (write : Bool) (s : System F) : System F :=
  let reply := readEntries (fun _ _ => s.stream.xread cursor 100) "sleep.out" cursor.render
  match if read then reply else .error .osError with
  | .error _ => s.afterCount final before write
  | .ok (entries, some last) =>
    { s with phase := .scanning final before last (countBatch total entries) }
  | .ok (entries, none) =>
    (s.setStage { s.runner.stage with
      sleepCount := countBatch total entries
      sleepCursor := some cursor }).afterCount final before write

/-- `_do_maturation`, where the decision is to mature. -/
def mature (write : Bool) (now : String) (s : System F) : System F :=
  if s.runner.stage.stage = .development ∧ write then
    let stage := advanceToEmbodied s.runner.stage now
    { s.setStage stage with disk := some stage, diskAnchor := s.anchor, phase := .idle }
  else { s with phase := .idle }

/-- Runs at a stop, and where a cancellation cuts off what is awaited. -/
def finalLivedTime (delta : F) (reading : Option F) (write : Bool) (s : System F) : System F :=
  let s := { s with phase := .idle }
  if (blockedReason s.runner).isSome then s
  else
    (s.setStage (recordStimulusSourceSeconds reading
      (accumulateLivedTime delta s.runner.stage))).writeStage write

def beginFinalCount (s : System F) : System F :=
  if (blockedReason s.runner).isSome then s else s.beginCount true s.runner.stage

/-- A new process starts from the stage file. -/
def restart (stagingEnabled feedConfigured priorLivedHistory : Bool) (now : String)
    (s : System F) : System F :=
  { s with
    runner :=
      { stage := resolveBootStage s.disk priorLivedHistory now
        stagingEnabled := stagingEnabled
        stimulusSourceFeedConfigured := feedConfigured }
    phase := .idle
    anchor := s.diskAnchor }

end System

/-- What happens in one step, with how the read and the write that belong to it come out. -/
inductive Action (F : Type) where
  | append (entry : StreamEntry)
  | beginTick (serverTime : Option ℕ) (delta : F) (reading : Option F)
  | reply (read write : Bool)
  | mature (write : Bool) (now : String)
  | endTick
  | finalLivedTime (delta : F) (reading : Option F) (write : Bool)
  | beginFinalCount
  | restart (stagingEnabled feedConfigured priorLivedHistory : Bool) (now : String)

inductive Step : System F → Action F → System F → Prop where
  | append {s : System F} {entry : StreamEntry} (h : s.stream.lastEntryId < entry.id) :
      Step s (.append entry) { s with stream := s.stream.append entry h }
  | beginTick {s : System F} {serverTime : Option ℕ} {delta : F} {reading : Option F}
      (h : s.phase = .idle) :
      Step s (.beginTick serverTime delta reading) (s.beginTick serverTime delta reading)
  | latestReply {s : System F} {read write final : Bool} {before : StageState F}
      (h : s.phase = .anchoring final before) :
      Step s (.reply read write) (s.latestReply read final before write)
  | batchReply {s : System F} {read write final : Bool} {before : StageState F} {cursor : EntryId}
      {total : ℕ} (h : s.phase = .scanning final before cursor total) :
      Step s (.reply read write) (s.batchReply read final before cursor total write)
  | mature {s : System F} {write : Bool} {now : String} (h : s.phase = .evaluating) :
      Step s (.mature write now) (s.mature write now)
  | endTick {s : System F} (h : s.phase = .evaluating) : Step s .endTick { s with phase := .idle }
  | finalLivedTime {s : System F} {delta : F} {reading : Option F} {write : Bool} :
      Step s (.finalLivedTime delta reading write) (s.finalLivedTime delta reading write)
  | beginFinalCount {s : System F} (h : s.phase = .idle) :
      Step s .beginFinalCount s.beginFinalCount
  | restart {s : System F} {stagingEnabled feedConfigured priorLivedHistory : Bool} {now : String} :
      Step s (.restart stagingEnabled feedConfigured priorLivedHistory now)
        (s.restart stagingEnabled feedConfigured priorLivedHistory now)

/-- An entity without a stage file, on a stream with any history. -/
def Initial (s : System F) : Prop :=
  ∃ stagingEnabled feedConfigured priorLivedHistory now,
    s = { stream := s.stream
          runner :=
            { stage := resolveBootStage none priorLivedHistory now
              stagingEnabled := stagingEnabled
              stimulusSourceFeedConfigured := feedConfigured } }

end Kaine.SleepCount
