import Kaine.LegacyNames
import Kaine.Lifecycle.LivedHistory
import Kaine.Lifecycle.SleepCount

/-! The stage file, what a boot makes of it, and the transition to the embodied stage
(`kaine/lifecycle/stage.py`, `kaine/lifecycle/gate_runner.py`). -/
namespace Kaine.StageFile
open Py LivedHistory
open SleepCount (Stage)

variable {isDecimal : Char → Bool}

/-- `\d+-\d+`, where the first argument tells the characters that `\d` matches. -/
def isCursor (isDecimal : Char → Bool) (s : String) : Bool :=
  let (front, rest) := s.toList.span isDecimal
  match rest with
  | '-' :: back => !front.isEmpty && !back.isEmpty && back.all isDecimal
  | _ => false

/-- `[0-9a-f]{64}`. -/
def isDigest (s : String) : Bool :=
  s.length = 64 && s.toList.all fun c => ('0' ≤ c && c ≤ '9') || ('a' ≤ c && c ≤ 'f')

/-- The persisted developmental stage. The two dates are what the text held. -/
structure StageState (isDecimal : Char → Bool) where
  stage : Stage := .development
  developmentStartedAt : Json := .null
  bornAt : Json := .null
  livedSeconds : Seconds := .zero
  sleepCount : ℕ := 0
  sleepCursor : Option {s : String // isCursor isDecimal s = true} := none
  stimulusSourceTAtMaturation : Option Seconds := none
  stimulusSourceSeed : Option ℤ := none
  stimulusSourceParamsDigest : Option {s : String // isDigest s = true} := none
  maturationBloomEndsAt : Option String := none
  stimulusSourceSeconds : Option Seconds := none

def stageName : Stage → String
  | .development => "development"
  | .embodied => "embodied"

def orNull {A : Type} (toJson : A → Json) (x : Option A) : Json := (x.map toJson).getD .null

def secondsJson (t : Seconds) : Json := .float (.fin t)

def StageState.toDict (s : StageState isDecimal) : Dict :=
  [("stage", .str (stageName s.stage)), ("development_started_at", s.developmentStartedAt),
   ("born_at", s.bornAt), ("lived_seconds", secondsJson s.livedSeconds),
   ("sleep_count", .int s.sleepCount),
   ("sleep_cursor", orNull (fun c => .str c.val) s.sleepCursor),
   ("stimulus_source_t_at_maturation", orNull secondsJson s.stimulusSourceTAtMaturation),
   ("stimulus_source_seed", orNull .int s.stimulusSourceSeed),
   ("stimulus_source_params_digest", orNull (fun d => .str d.val) s.stimulusSourceParamsDigest),
   ("maturation_bloom_ends_at", orNull .str s.maturationBloomEndsAt),
   ("stimulus_source_seconds", orNull secondsJson s.stimulusSourceSeconds)]

inductive StageError where
  | stageValue (value : Json) (topLevel : Bool)
  | overflow
  | recursion

def coerceStage : Json → Except StageError Stage
  | .str value =>
    match mapStageValue value with
    | "development" => .ok .development
    | "embodied" => .ok .embodied
    | _ => .error (.stageValue (.str value) false)
  | value => .error (.stageValue value false)

/-- The coercion of a time: `float` may raise for an integer beyond all doubles. -/
def coerceSeconds (ofText : String → Option PyFloat) (v : Json) :
    Except StageError (Option Seconds) :=
  match v with
  | .bool _ => .ok none
  | v =>
    match v.toDouble ofText with
    | .ok x => .ok (Seconds.ofFloat x)
    | .error .overflowError => .error .overflow
    | .error _ => .ok none

def coerceSleepCount : Json → ℕ
  | .int n => n.toNat
  | _ => 0

def coerceSeed : Json → Option ℤ
  | .int n => some n
  | _ => none

def coerceText : Json → Option String
  | .str s => some s
  | _ => none

/-- A text that passes a check, with the check. -/
def checked (p : String → Bool) (s : String) : Option {s : String // p s = true} :=
  if h : p s = true then some ⟨s, h⟩ else none

def StageState.fromDict (isDecimal : Char → Bool) (ofText : String → Option PyFloat) (raw : Dict) :
    Except StageError (StageState isDecimal) := do
  let data := mapStageRecord raw
  let stage ← match data.lookup "stage" with
    | some value => coerceStage value
    | none => .ok .development
  let lived ← coerceSeconds ofText (Dict.getD data "lived_seconds" (.float (.fin 0)))
  let atMaturation ← coerceSeconds ofText (Dict.get data "stimulus_source_t_at_maturation")
  let sourceSeconds ← coerceSeconds ofText (Dict.get data "stimulus_source_seconds")
  return {
    stage
    developmentStartedAt := Dict.get data "development_started_at"
    bornAt := Dict.get data "born_at"
    livedSeconds := lived.getD .zero
    sleepCount := coerceSleepCount (Dict.getD data "sleep_count" (.int 0))
    sleepCursor := (coerceText (Dict.get data "sleep_cursor")).bind (checked (isCursor isDecimal))
    stimulusSourceTAtMaturation := atMaturation
    stimulusSourceSeed := coerceSeed (Dict.get data "stimulus_source_seed")
    stimulusSourceParamsDigest :=
      (coerceText (Dict.get data "stimulus_source_params_digest")).bind (checked isDigest)
    maturationBloomEndsAt := coerceText (Dict.get data "maturation_bloom_ends_at")
    stimulusSourceSeconds := sourceSeconds }

/-- Read the persisted stage, none without a stage file. A file that cannot be told to exist, read
or parsed counts as embodied; nesting that is too deep raises. -/
def readStage (isDecimal : Char → Bool) (ofText : String → Option PyFloat) :
    RecordFile → Except StageError (Option (StageState isDecimal))
  | .absent => .ok none
  | .statFails | .special | .unreadable => .ok (some { stage := .embodied })
  | .contents .undecodable | .contents .notJson | .contents .hugeInteger =>
    .ok (some { stage := .embodied })
  | .contents .tooDeep => .error .recursion
  | .contents (.value (.obj data)) => (StageState.fromDict isDecimal ofText data).map some
  | .contents (.value data) => .error (.stageValue data true)

/-- The file after a write, which replaces it in one step or leaves it. -/
def writeStage (state : StageState isDecimal) (ok : Bool) (file : RecordFile) : RecordFile :=
  if ok then .contents (.value (.obj state.toDict)) else file

/-- An existing stage file is authoritative; without one, a lived entity is embodied. -/
def resolveBootStage (isDecimal : Char → Bool) (ofText : String → Option PyFloat)
    (hasPriorLivedHistory : Bool) (now : String) (file : RecordFile) :
    Except StageError (StageState isDecimal) := do
  match ← readStage isDecimal ofText file with
  | some existing => return existing
  | none =>
    if hasPriorLivedHistory then return { stage := .embodied }
    else return { stage := .development, developmentStartedAt := .str now }

def advanceToEmbodied (state : StageState isDecimal) (now : String) : StageState isDecimal :=
  match state.stage with
  | .embodied => state
  | .development => { state with stage := .embodied, bornAt := .str now }

/-- What the maturation hook records of the stimulus source. -/
structure Recording where
  t : Option Seconds
  seed : Option ℤ
  paramsDigest : Option {s : String // isDigest s = true}
  bloomEndsAt : Option String

def recordMaturationStimulusSource (state : StageState isDecimal) (r : Recording) :
    StageState isDecimal :=
  { state with
    stimulusSourceTAtMaturation := r.t
    stimulusSourceSeed := r.seed
    stimulusSourceParamsDigest := r.paramsDigest
    maturationBloomEndsAt := r.bloomEndsAt }

/-- The maturation hook on the stage file: it records in an embodied stage only, where everything it
needs is there (`r`) and the write goes well. -/
def maturationHook (isDecimal : Char → Bool) (ofText : String → Option PyFloat)
    (r : Option Recording) (file : RecordFile) : RecordFile :=
  match readStage isDecimal ofText file, r with
  | .ok (some state), some r =>
    match state.stage with
    | .embodied => writeStage (recordMaturationStimulusSource state r) true file
    | .development => file
  | _, _ => file

/-- What `_do_maturation` does, in order. -/
inductive Effect where
  | vocalActivated
  | embodimentActivated
  | readyPublished
  | stageWritten
  | requestCleared
  | ackCleared
  | locusUnlocked
  | hookRun
  | maturationPublished
  deriving DecidableEq

/-- What one call of `_do_maturation` meets: whether the registry has a vocal module, whether it has
an embodiment module and that one activates, whether the stage is written and the request removed,
the hook with what it records, and after how many effects a cancellation or a crash cuts it off. -/
structure Attempt where
  vocal : Bool
  embodiment : Option Bool
  writes : Bool
  clears : Bool
  hook : Option (Option Recording)
  now : String
  cutAfter : Option ℕ

namespace Attempt

def activations (a : Attempt) : List Effect :=
  (if a.vocal then [.vocalActivated] else []) ++
    (if a.embodiment.isSome then [.embodimentActivated] else [])

/-- What follows the write of the embodied stage. -/
def handover (a : Attempt) : List Effect :=
  [.requestCleared] ++ (if a.clears then [.ackCleared] else []) ++ [.locusUnlocked] ++
    (if a.hook.isSome then [.hookRun] else []) ++ [.maturationPublished]

/-- The effects of an attempt in the developmental stage that is not cut off. -/
def effects (a : Attempt) : List Effect :=
  a.activations ++
    (if a.embodiment = some false then [.readyPublished]
    else if a.writes then .stageWritten :: a.handover
    else [])

def performed (a : Attempt) : List Effect :=
  match a.cutAfter with
  | some k => a.effects.take k
  | none => a.effects

end Attempt

/-- The stage file, the stage that the running process holds and whether its gate runner is on, with
a record of whether an embodied stage was ever written, and of all effects. -/
structure System (isDecimal : Char → Bool) where
  file : RecordFile
  process : Option (StageState isDecimal × Bool)
  persisted : Bool
  log : List Effect

inductive Action (isDecimal : Char → Bool) where
  | boot (stagingEnabled hasPriorLivedHistory : Bool) (now : String)
  | persist (evidence : StageState isDecimal) (ok : Bool)
  | mature (a : Attempt)
  | die
  | corrupt (file : RecordFile)

/-- The stage that a boot starts with. Without staging the file is read, and none counts as
embodied. -/
def bootStage (isDecimal : Char → Bool) (ofText : String → Option PyFloat)
    (stagingEnabled hasPriorLivedHistory : Bool) (now : String) (file : RecordFile) :
    Except StageError (StageState isDecimal) :=
  if stagingEnabled then resolveBootStage isDecimal ofText hasPriorLivedHistory now file
  else (readStage isDecimal ofText file).map fun existing => existing.getD { stage := .embodied }

def applyEffect (ofText : String → Option PyFloat) (a : Attempt) (after : StageState isDecimal)
    (file : RecordFile) : Effect → RecordFile
  | .stageWritten => writeStage after true file
  | .hookRun => maturationHook isDecimal ofText a.hook.join file
  | _ => file

/-- `_do_maturation` of a process in the developmental stage. -/
def doMaturation (ofText : String → Option PyFloat) (s : System isDecimal)
    (before : StageState isDecimal) (a : Attempt) : System isDecimal :=
  let after := advanceToEmbodied before a.now
  let written := a.performed.contains .stageWritten
  { file := a.performed.foldl (applyEffect ofText a after) s.file
    process := some (if written then after else before, true)
    persisted := s.persisted || written
    log := s.log ++ a.performed }

/-- The gate runner works in the developmental stage only. What its evidence says is modelled with
the count of sleeps. -/
def step (ofText : String → Option PyFloat) (s : System isDecimal) :
    Action isDecimal → System isDecimal
  | .boot stagingEnabled hasPriorLivedHistory now =>
    match bootStage isDecimal ofText stagingEnabled hasPriorLivedHistory now s.file with
    | .ok stage => { s with process := some (stage, stagingEnabled) }
    | .error _ => { s with process := none }
  | .persist evidence ok =>
    match s.process with
    | some (state, true) =>
      if state.stage = .development then
        let state := { evidence with stage := .development }
        { s with process := some (state, true), file := writeStage state ok s.file }
      else s
    | _ => s
  | .mature a =>
    match s.process with
    | some (before, true) =>
      if before.stage = .development then doMaturation ofText s before a else s
    | _ => s
  | .die => { s with process := none }
  | .corrupt file => { s with file }

end Kaine.StageFile
