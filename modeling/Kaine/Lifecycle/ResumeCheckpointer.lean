import Kaine.Lifecycle.ResumeCheckpoint

/-! The periodic writer of the resume checkpoint, the state cycle that it keeps in step, and
restarts (`kaine/lifecycle/resume_checkpoint.py`, `kaine/modules/sleep/module.py`). -/
namespace Kaine.ResumeCheckpointer
open Py Identity ResumeCheckpoint

/-- The state cycle of the sleep module, with the times that it reports. -/
inductive StateCycle where
  | awake (awakeS : ℚ)
  | resting (restSpentS : Seconds)

namespace StateCycle

def isResting : StateCycle → Bool
  | .awake _ => false
  | .resting _ => true

def spent : StateCycle → ℚ
  | .awake _ => 0
  | .resting spent => spent

/-- `_export_state_cycle`. -/
def exported : StateCycle → Dict
  | .awake awakeS =>
    [("phase", .str "awake"), ("awake_s", .float (.fin awakeS)), ("rest_spent_s", .float (.fin 0))]
  | .resting spent =>
    [("phase", .str "resting"), ("awake_s", .float (.fin 0)), ("rest_spent_s", .float (.fin spent))]

/-- A fresh cycle. -/
def fresh : StateCycle := .awake 0

end StateCycle

/-- `_num`: a finite number that is no bool and not negative. -/
def num (v : Json) : Except PyError (Option Seconds) :=
  match v.asPyNumber with
  | none | some (.int (.bool _)) => .ok none
  | some x => x.toFloat.map Seconds.ofFloat

/-- `_restore_state_cycle` of a module whose cycle is fresh. -/
def restoreStateCycle (developmentalRestS : ℚ) : Json → Except PyError StateCycle
  | .obj raw => do
    let awake ← num (Dict.get raw "awake_s")
    let spent ← num (Dict.get raw "rest_spent_s")
    if (Dict.get raw "phase").pyEq (.str "resting") then
      match spent with
      | some spent => return if spent < developmentalRestS then .resting spent else .fresh
      | none => return .fresh
    else if (Dict.get raw "phase").pyEq (.str "awake") then
      match awake with
      | some awake => return .awake awake
      | none => return .fresh
    else return .fresh
  | _ => .ok .fresh

/-- The stored time of the last sleep. -/
def lastSleepAt (env : ReadEnv) (state : Dict) : Except PyError (Option PyFloat) :=
  match state.lookup "last_sleep_at" with
  | none | some .null => .ok none
  | some v => (v.toFloat env.ofText).map some

/-- `deserialize` up to the state cycle, which an earlier error leaves as it was. -/
def deserializeCycle (env : ReadEnv) (developmentalRestS : ℚ) (state : Dict) :
    Except PyError StateCycle := do
  let _ ← lastSleepAt env state
  match state.lookup "state_cycle" with
  | none => return .fresh
  | some raw => restoreStateCycle developmentalRestS raw

/-- What the sleep module does between the writer's steps. A rest that a restart cut goes on from
where it was, and a new one starts from nothing. -/
inductive CycleEvent where
  | accrue (awakeS : ℚ)
  | start
  | rest (restSpentS : Seconds)
  | finish

def StateCycle.after : StateCycle → CycleEvent → StateCycle
  | .awake _, .accrue awakeS => .awake awakeS
  | _, .start => .resting .zero
  | .resting spent, .rest spent' => .resting (max spent spent')
  | .resting _, .finish => .fresh
  | c, _ => c

/-- What a process is started with. -/
structure Config (isOther : Char → Bool) where
  env : ReadEnv
  identity : Option (EntityIdentity isOther)
  intervalSeconds : ℚ
  interval_pos : 0 < intervalSeconds
  developmentalRestS : ℚ

/-- A capture of the registry, in which the sleep module reports the cycle that it is in. -/
structure Capture where
  env : CaptureEnv
  registry : StateCycle → Registry
  reports : ∀ c, ∀ m ∈ (registry c).modules, m.name = "sleep" → ∀ d, m.serialize = .dict d →
    d.lookup "state_cycle" = some (.obj c.exported)

/-- What a poll reads and, where a save is due, captures. -/
structure Reading where
  readsRest : Bool
  awake : Option ℚ
  canWrite : Bool
  capture : Capture

/-- What a thread is to write: an entry in place, or a capture with the cycle that it holds. -/
inductive Work where
  | sync (cycle : StateCycle)
  | save (snap : Snapshot) (cycle : StateCycle)

def Work.cycle : Work → StateCycle
  | .sync cycle | .save _ cycle => cycle

/-- Where the writer is: between two polls, waiting for a thread, or at its end. `final` marks the
write at a shutdown, `ok` the result of a write that the writer has not yet taken up. -/
inductive Activity where
  | waiting
  | writing (work : Work) (final : Bool)
  | wrote (work : Work) (final ok : Bool)
  | stopped

/-- What the present or the last poll has found: whether each entry that it read was awake, and
whether all of its writes went well. -/
structure Poll where
  foundAwake : Bool
  writesOk : Bool
  completed : Bool
  deriving DecidableEq

structure State where
  file : CheckpointFile
  cycle : StateCycle
  now : ℚ
  restMarked : Bool
  restWrittenSpent : ℚ
  restRetryAt : ℚ
  last : Option ℚ
  writes : ℕ
  activity : Activity
  poll : Poll

variable {isOther : Char → Bool}

namespace Config

variable (cfg : Config isOther) (s : State)

/-- What `_sync_rest` writes, if anything. -/
def syncRest (readsRest final : Bool) : Option StateCycle :=
  let resting := s.cycle.isResting
  if !readsRest then none
  else if !resting && !s.restMarked then none
  else if resting && !final && s.restMarked &&
      decide (Rounding.binary64 (s.cycle.spent - s.restWrittenSpent) < cfg.intervalSeconds) then
    none
  else if !final && decide (s.now < s.restRetryAt) then none
  else some s.cycle

/-- `_sync_rest` after its thread has returned. -/
def synced (cycle : StateCycle) (ok : Bool) : State :=
  if ok then
    { s with
      writes := s.writes + 1
      restMarked := cycle.isResting
      restWrittenSpent := cycle.spent }
  else { s with restRetryAt := Rounding.binary64 (s.now + cfg.intervalSeconds) }

/-- The awake reading at which a save is due. -/
def saveDue (r : Reading) : Option ℚ :=
  match r.awake, s.last with
  | some awake, some last =>
    if r.canWrite && decide (cfg.intervalSeconds ≤ Rounding.binary64 (awake - last)) then
      some awake
    else none
  | _, _ => none

def completePoll : State :=
  { s with activity := .waiting, poll := { s.poll with completed := true } }

/-- Start a save, which fails at once without an identity. -/
def startSave (r : Reading) (final : Bool) : Option State :=
  cfg.identity.map fun identity =>
    { s with
      activity := .writing (.save (captureCheckpoint r.capture.env
        (r.capture.registry s.cycle).modules identity) s.cycle) final
      poll := { s.poll with foundAwake := s.poll.foundAwake && !s.cycle.isResting } }

/-- The part of a poll after `_sync_rest`. -/
def pollSave (r : Reading) : State :=
  match cfg.saveDue s r with
  | some awake =>
    let s := { s with last := some awake }
    match cfg.startSave s r false with
    | some s => s
    | none => completePoll { s with poll := { s.poll with writesOk := false } }
  | none =>
    completePoll (if r.canWrite && s.last.isNone then { s with last := r.awake } else s)

def poll (r : Reading) : State :=
  let s := { s with poll := ⟨r.readsRest && !s.cycle.isResting, true, false⟩ }
  match cfg.syncRest s r.readsRest false with
  | some cycle => { s with activity := .writing (.sync cycle) false }
  | none => cfg.pollSave s r

/-- `write_final`, between two polls. -/
def writeFinal (r : Reading) : State :=
  let s := { s with poll := { s.poll with completed := false } }
  if r.canWrite then (cfg.startSave s r true).getD { s with activity := .stopped }
  else
    match cfg.syncRest s r.readsRest true with
    | some cycle => { s with activity := .writing (.sync cycle) true }
    | none => { s with activity := .stopped }

/-- The thread's write, beside the revive record that it finds. An exported entry never makes an
update raise, so its other results count as a failure. -/
def threadWrites (record : RecordFile) (fault : Option WriteStep) (work : Work) :
    Bool × CheckpointFile :=
  match work with
  | .sync cycle =>
    let (result, file) := updateStateCycleEntry cfg.env record cfg.identity cycle.exported s.file
      fault
    (result.toOption.getD false, file)
  | .save snap _ =>
    let outcome := writeCheckpoint s.file snap fault
    (outcome.result.isOk, outcome.file)

/-- The writer goes on after its thread has returned. -/
def threadReturned (r : Reading) (work : Work) (final ok : Bool) : State :=
  let s := { s with poll := { s.poll with writesOk := s.poll.writesOk && ok } }
  match work with
  | .sync cycle =>
    let s := cfg.synced s cycle ok
    if final then { s with activity := .stopped } else cfg.pollSave s r
  | .save _ _ =>
    let s := if ok then { s with writes := s.writes + 1, restMarked := false } else s
    if final then { s with activity := .stopped } else completePoll s

/-- A process that has just restored the checkpoint on disk. -/
def boot (record : RecordFile) (enabled : List String) (now : ℚ) (last : Option ℚ)
    (file : CheckpointFile) : State :=
  let (calls, _) := restoreCheckpoint cfg.env (fun _ _ => false) record enabled cfg.identity file
  let cycle := (calls.lookup "sleep").bind fun state =>
    (deserializeCycle cfg.env cfg.developmentalRestS state).toOption
  { file, cycle := cycle.getD .fresh, now, restMarked := false, restWrittenSpent := 0
    restRetryAt := 0, last, writes := 0, activity := .waiting, poll := ⟨false, true, false⟩ }

end Config

inductive Action where
  | cycle (e : CycleEvent)
  | clock (now : ℚ)
  | poll (r : Reading)
  | threadWrites (record : RecordFile) (fault : Option WriteStep)
  | threadReturns (r : Reading)
  | writeFinal (r : Reading)
  | restart (record : RecordFile) (enabled : List String) (now : ℚ) (last : Option ℚ)

/-- A step that does not fit what the writer is doing does nothing. -/
def step (cfg : Config isOther) (s : State) : Action → State
  | .cycle e => { s with cycle := s.cycle.after e }
  | .clock now => { s with now := max s.now now }
  | .poll r =>
    match s.activity with
    | .waiting => cfg.poll s r
    | _ => s
  | .threadWrites record fault =>
    match s.activity with
    | .writing work final =>
      let (ok, file) := cfg.threadWrites s record fault work
      { s with file, activity := .wrote work final ok }
    | _ => s
  | .threadReturns r =>
    match s.activity with
    | .wrote work final ok => cfg.threadReturned s r work final ok
    | _ => s
  | .writeFinal r =>
    match s.activity with
    | .waiting => cfg.writeFinal s r
    | _ => s
  | .restart record enabled now last => cfg.boot record enabled now last s.file

def Step (cfg : Config isOther) (s : State) (a : Action) (t : State) : Prop := step cfg s a = t

end Kaine.ResumeCheckpointer
