import Kaine.LegacyNames
import Kaine.Lifecycle.Identity

/-! The rolling resume checkpoint: capture, write, update in place and restore
(`kaine/lifecycle/resume_checkpoint.py`). -/
namespace Kaine.ResumeCheckpoint
open Py Identity

def checkpointKind : String := "resume_checkpoint"
def checkpointVersion : ℤ := 1

/-- Modules that manage their own persistent store, sorted. -/
def selfPersistingModules : List String :=
  ["episodic_memory", "self_model", "social_cognition", "world_model"]

/-- Fields of a self-persisting module that its own file does not hold. -/
def carriedFields : List (String × List String) := [("self_model", ["drift_count"])]

/-- Bus stream cursors, which a restore would replay from. -/
def transientKeys : List (String × List String) :=
  [("interoception", ["cycle_cursor"]), ("embodiment", ["intent_cursor", "speech_cursor"]),
   ("sequence", ["user_input_cursors"])]

/-- What `serialize()` does: raise, return something else than a dict, or return one. -/
inductive Serialized where
  | raises
  | notDict
  | dict (state : Dict)

structure Module where
  name : String
  serialize : Serialized

/-- The modules by name. No name is one from before the rename. -/
structure Registry where
  modules : List Module
  distinct : (modules.map Module.name).Nodup
  current : ∀ m ∈ modules, mapModuleKey m.name = m.name

/-- A `ForkSnapshot` as `from_dict` leaves it: `parent_id` and the adapters are what the text
held. -/
structure Snapshot where
  id : String
  parentId : Json := .null
  label : String := ""
  timestamp : PyFloat
  modules : Dict := []
  adapters : List Json := []
  metadata : Dict := []

def Snapshot.toDict (s : Snapshot) : Dict :=
  [("id", .str s.id), ("parent_id", s.parentId), ("label", .str s.label),
   ("timestamp", .float s.timestamp), ("modules", .obj s.modules), ("adapters", .arr s.adapters),
   ("metadata", .obj s.metadata)]

/-- The standard library around a read: `str`, `float` of a text, `dict` of what is no dict, a new
id and the time. -/
structure ReadEnv where
  show_ : Json → String
  ofText : String → Option PyFloat
  dictOfOther : Json → Except PyError Dict
  newId : String
  now : PyFloat

/-- `str(v)`. -/
def ReadEnv.str (env : ReadEnv) : Json → String
  | .str s => s
  | v => env.show_ v

/-- `dict(v or {})`. -/
def ReadEnv.dict (env : ReadEnv) : Json → Except PyError Dict
  | .obj d => .ok d
  | v => if v.truthy then env.dictOfOther v else .ok []

/-- `list(v or [])`. -/
def listOf : Json → Except PyError (List Json)
  | .arr xs => .ok xs
  | .obj d => .ok (d.map fun kv => .str kv.1)
  | .str s => .ok (s.toList.map fun c => .str (String.ofList [c]))
  | v => if v.truthy then .error .typeError else .ok []

/-- Rename keys; where both names of a module are there, the new one is kept. -/
def mapModuleKeys (d : Dict) : Dict :=
  (d.filter fun kv => mapModuleKey kv.1 ≠ kv.1).foldl
    (fun result kv =>
      if Dict.has result (mapModuleKey kv.1) then result
      else Dict.set result (mapModuleKey kv.1) kv.2)
    (d.filter fun kv => mapModuleKey kv.1 = kv.1)

/-- `v or default`. -/
def orElse (v default : Json) : Json := if v.truthy then v else default

def Snapshot.fromDict (env : ReadEnv) (raw : Dict) : Except PyError Snapshot := do
  let timestamp ← (orElse (Dict.get raw "timestamp") (.float env.now)).toFloat env.ofText
  let modules ← env.dict (Dict.get raw "modules")
  let adapters ← listOf (Dict.get raw "adapters")
  let metadata ← env.dict (Dict.get raw "metadata")
  return {
    id := env.str (orElse (Dict.get raw "id") (.str env.newId))
    parentId := Dict.get raw "parent_id"
    label := env.str (orElse (Dict.get raw "label") (.str ""))
    timestamp, modules := mapModuleKeys modules, adapters, metadata }

/-- Self-persisting, with nothing that the checkpoint carries for it. -/
def excluded (name : String) : Bool :=
  selfPersistingModules.contains name && !Dict.has (carriedFields.map fun kv => (kv.1, .null)) name

/-- `for key in TRANSIENT_KEYS.get(name, ()): state.pop(key, None)`. -/
def dropTransient (name : String) (state : Dict) : Dict :=
  ((transientKeys.lookup name).getD []).foldl Dict.erase state

/-- The carried fields of a module that has them, the whole state of any other. -/
def carry (name : String) (state : Dict) : Dict :=
  match carriedFields.lookup name with
  | some keys => keys.filterMap fun k => (state.lookup k).map fun v => (k, v)
  | none => state

/-- What the capture keeps of a module. -/
def captureModule (m : Module) : Option (String × Json) :=
  if excluded m.name then none
  else
    match m.serialize with
    | .dict state => some (m.name, .obj (carry m.name (dropTransient m.name state)))
    | .raises | .notDict => none

/-- The modules that the capture could not serialize. -/
def omittedName (m : Module) : Option String :=
  if excluded m.name then none
  else
    match m.serialize with
    | .dict _ => none
    | .raises | .notDict => some m.name

structure CaptureEnv where
  id : String
  timestamp : PyFloat
  reason : String
  awakeSeconds : Json

def sortedTexts (names : List String) : Json := .arr ((SortBy.sortBy id names).map .str)

def captureCheckpoint {isOther : Char → Bool} (env : CaptureEnv) (modules : List Module)
    (identity : EntityIdentity isOther) : Snapshot where
  id := env.id
  label := "resume-checkpoint"
  timestamp := env.timestamp
  modules := modules.filterMap captureModule
  metadata :=
    [("kind", .str checkpointKind), ("version", .int checkpointVersion),
     ("reason", .str env.reason), ("identity", .obj identity.toDict),
     ("awake_seconds", env.awakeSeconds), ("excluded_modules", sortedTexts selfPersistingModules),
     ("omitted_modules", sortedTexts (modules.filterMap omittedName))]

/-- What the checkpoint's path holds: a text cut short, a file that does not read, decrypt or
parse, or the value that its text stands for. -/
inductive CheckpointFile where
  | absent
  | faulty
  | torn (v : Json)
  | json (v : Json)

/-- The steps of `write_checkpoint` that can go wrong. `os.write` can raise, and it can also
return having written only a part. -/
inductive WriteStep where
  | makeDir
  | encode
  | openTemp
  | write
  | shortWrite
  | fsync
  | replace
  deriving DecidableEq

/-- How a write ends: its result, whether it reached the replacement, and the file it leaves. -/
structure WriteOutcome where
  result : Except PyError Unit
  replaced : Bool
  file : CheckpointFile

/-- The count that `os.write` returns is not looked at. The text has its keys sorted, which no
reader of it depends on, so the value is kept as it was built. -/
def writeCheckpoint (file : CheckpointFile) (snap : Snapshot) : Option WriteStep → WriteOutcome
  | none => ⟨.ok (), true, .json (.obj snap.toDict)⟩
  | some .shortWrite => ⟨.ok (), true, .torn (.obj snap.toDict)⟩
  | some .encode => ⟨.error .typeError, false, file⟩
  | some _ => ⟨.error .osError, false, file⟩

inductive ReadError where
  | unreadable
  deriving DecidableEq

/-- Read a checkpoint, none when it is absent. -/
def readCheckpoint (env : ReadEnv) : CheckpointFile → Except ReadError (Option Snapshot)
  | .absent => .ok none
  | .json (.obj data) =>
    match Snapshot.fromDict env data with
    | .error _ => .error .unreadable
    | .ok snap =>
      if !(Dict.get snap.metadata "kind").pyEq (.str checkpointKind) then .error .unreadable
      else if !(Dict.get snap.metadata "version").pyEq (.int checkpointVersion) then
        .error .unreadable
      else .ok (some snap)
  | .json _ | .faulty | .torn _ => .error .unreadable

inductive RecordFile where
  | absent
  | faulty
  | json (v : Json)

/-- The time of the latest revive, where the record is readable. -/
def readReviveStartedAt : RecordFile → Option PyFloat
  | .json (.obj data) =>
    match Dict.get data "started_at" with
    | .int n =>
      match PyNumber.toFloat (.int (.int n)) with
      | .ok started => some started
      | .error _ => none
    | .float started => if started.isFinite then some started else none
    | _ => none
  | .json _ | .absent | .faulty => none

/-- The identity in a snapshot's metadata; any error of its reader counts as one here. -/
def identityOfSnapshot (isOther : Char → Bool) (snap : Snapshot) :
    Except Fault (Option (EntityIdentity isOther)) :=
  match Dict.get snap.metadata "identity" with
  | .null => .ok none
  | .obj d => (fromDict isOther (.obj d)).map some
  | _ => fail "snapshot identity metadata must be a mapping"

/-- The checks that a restore and an update in place share: the checkpoint reads, is of this
entity, and is no older than the latest revive. -/
def usableCheckpoint {isOther : Char → Bool} (env : ReadEnv) (record : RecordFile)
    (identity : Option (EntityIdentity isOther)) (file : CheckpointFile) : Option Snapshot :=
  match readCheckpoint env file with
  | .error _ | .ok none => none
  | .ok (some snap) =>
    match identity, identityOfSnapshot isOther snap with
    | some x, .ok (some y) =>
      if x.entityId ≠ y.entityId then none
      else if (readReviveStartedAt record).any fun started => snap.timestamp.lt started then none
      else some snap
    | _, _ => none

/-- Whether `deserialize` of a module raises on a state. -/
abbrev Raises := String → Dict → Bool

/-- What one entry of the checkpoint does on a restore. -/
inductive Handling where
  | passedOver
  | skipped
  | notDict
  | handed (state : Dict)

def handling (enabled : List String) (name : String) (state : Json) : Handling :=
  if excluded name then .passedOver
  else if !enabled.contains name then .skipped
  else
    match state with
    | .obj d => .handed (dropTransient name (carry name d))
    | _ => .notDict

structure RestoreResult where
  restored : List String
  skipped : List String
  fresh : List String
  failed : List String
  reason : Json
  awakeSeconds : Json

def sorted (names : List String) : List String := SortBy.sortBy id names

/-- The entries of a checkpoint in the order in which they are restored. -/
def restoreOrder (modules : Dict) : Dict := SortBy.sortBy Prod.fst modules

/-- The calls of `deserialize`, in order, and the result. -/
def restoreModules (raises : Raises) (enabled : List String) (snap : Snapshot) :
    List (String × Dict) × RestoreResult :=
  let entries := (restoreOrder snap.modules).map fun kv => (kv.1, handling enabled kv.1 kv.2)
  let calls := entries.filterMap fun
    | (name, .handed state) => some (name, state)
    | _ => none
  let failed := entries.filterMap fun
    | (name, .handed state) => if raises name state then some name else none
    | (name, .notDict) => some name
    | _ => none
  let restored := calls.filterMap fun c => if raises c.1 c.2 then none else some c.1
  let skipped := entries.filterMap fun
    | (name, .skipped) => some name
    | _ => none
  let fresh := (sorted enabled).filter fun name =>
    !Dict.has snap.modules name && !selfPersistingModules.contains name
  (calls, {
    restored := sorted restored, skipped := sorted skipped, fresh := sorted fresh
    failed := sorted failed, reason := Dict.get snap.metadata "reason"
    awakeSeconds := Dict.get snap.metadata "awake_seconds" })

/-- Restore module state on a plain restart. -/
def restoreCheckpoint {isOther : Char → Bool} (env : ReadEnv) (raises : Raises)
    (record : RecordFile) (enabled : List String) (identity : Option (EntityIdentity isOther))
    (file : CheckpointFile) : List (String × Dict) × Option RestoreResult :=
  match usableCheckpoint env record identity file with
  | none => ([], none)
  | some snap =>
    let (calls, result) := restoreModules raises enabled snap
    (calls, some result)

def restEntryDict (phase : String) (spent : PyFloat) : Dict :=
  [("phase", .str phase), ("awake_s", .float (.fin 0)), ("rest_spent_s", .float spent)]

/-- The rest time of a resting entry: a finite number that is no bool and not negative. -/
def restSpent (v : Json) : Except PyError (Option PyFloat) :=
  match v.asPyNumber with
  | none | some (.int (.bool _)) => .ok none
  | some x => do
    let finite ← x.isFinite
    if !finite || x.value.lt (.fin 0) then return none
    else
      let spent ← x.toFloat
      return some spent

/-- Validate a sleep `state_cycle` entry; an awake entry always carries `awake_s` 0. -/
def restEntry (entry : Dict) : Except PyError (Option Dict) :=
  if (Dict.get entry "phase").pyEq (.str "resting") then do
    let spent ← restSpent (Dict.get entry "rest_spent_s")
    return spent.map (restEntryDict "resting")
  else if (Dict.get entry "phase").pyEq (.str "awake") then
    .ok (some (restEntryDict "awake" (.fin 0)))
  else .ok none

/-- The snapshot with one entry of its sleep state replaced, where it has such a state. -/
def Snapshot.withStateCycle (snap : Snapshot) (newEntry : Dict) : Option Snapshot :=
  match Dict.get snap.modules "sleep" with
  | .obj sleepState =>
    some { snap with
      modules := Dict.set snap.modules "sleep"
        (.obj (Dict.set sleepState "state_cycle" (.obj newEntry))) }
  | _ => none

/-- Replace only the sleep module's `state_cycle` entry inside the existing checkpoint. -/
def updateStateCycleEntry {isOther : Char → Bool} (env : ReadEnv) (record : RecordFile)
    (identity : Option (EntityIdentity isOther)) (entry : Dict) (file : CheckpointFile)
    (fault : Option WriteStep) : Except PyError Bool × CheckpointFile :=
  match restEntry entry with
  | .error e => (.error e, file)
  | .ok none => (.ok false, file)
  | .ok (some newEntry) =>
    match (usableCheckpoint env record identity file).bind fun snap =>
        snap.withStateCycle newEntry with
    | none => (.ok false, file)
    | some snap =>
      let outcome := writeCheckpoint file snap fault
      (.ok outcome.result.isOk, outcome.file)

end Kaine.ResumeCheckpoint
