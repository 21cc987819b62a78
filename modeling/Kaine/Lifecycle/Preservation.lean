import Kaine.Lifecycle.Bundle

/-! The capture of a living individual, and its revival from the bundle
(`kaine/lifecycle/preservation.py`). -/
namespace Kaine.Preservation
open Py Security StateEncryptor Identity
open ResumeCheckpoint (Snapshot ReadEnv identityOfSnapshot)

/-- A module as the capture and the revival see it. A hook that it does not have is none; inside,
none is where a call raises. What it is handed it takes. -/
structure Module where
  name : String
  serialize : Option Dict
  exportState : Option (Option Dict)
  exportWeights : Option (Option Dict)
  stateKey : Option String
  importsState : Bool
  importsWeights : Bool
  restoresPasses : Bool

/-- The modules by name. No name is one from before the rename. -/
structure Registry where
  modules : List Module
  distinct : (modules.map Module.name).Nodup
  current : ∀ m ∈ modules, mapModuleKey m.name = m.name

/-- `_capture_module_state`. -/
def captureModuleState (m : Module) : Option Dict := do
  let state ← m.serialize
  match m.exportState with
  | none => some state
  | some rich => rich.map state.update

/-- The state of a module with the record of its weights. -/
def moduleState (m : Module) : Option Dict := do
  let state ← captureModuleState m
  match m.exportWeights with
  | none => some state
  | some record => record.map fun record => state.set "world_model_capture" (.obj record)

/-- The checkpoint that a record of captured weights names, none where its path is no text. -/
def checkpointOf (record : Dict) : Option (Option String) :=
  if (record.get "captured").truthy then
    match record.get "checkpoint_path" with
    | .str path => some (if path = "" then none else some path)
    | other => if other.truthy then none else some none
  else some none

/-- The checkpoint that is copied: the last that a module names. -/
def worldModelCheckpoint (modules : List Module) : Option (Option String) :=
  modules.foldlM
    (fun checkpoint m =>
      match m.exportWeights with
      | none => some checkpoint
      | some record => do
        let named ← checkpointOf (← record)
        some (if named.isSome then named else checkpoint))
    none

/-- Whether the weights of some module are captured. -/
def worldModelCaptured (modules : List Module) : Bool :=
  modules.any fun m =>
    match m.exportWeights with
    | some (some record) => (record.get "captured").truthy
    | _ => false

/-- A file of a tree: its path has parts, and each names an entry of a directory. -/
abbrev FilePath := {path : Path // path ≠ [] ∧ ∀ part ∈ path, part ≠ "" ∧ part ≠ ".."}

/-- The files that a preservation finds when it copies. -/
structure Sources where
  stage : Option Bytes
  development : String → Option Bytes
  individuation : List (FilePath × Bytes)
  file : String → Option Bytes

def passesSuffix : String := ".passes.json"

/-- The checkpoint's copy, and that of its pass count. -/
def worldModelFiles (src : Sources) (checkpoint : Option String) : Dir :=
  match checkpoint with
  | none => []
  | some path =>
    match src.file path with
    | none => []
    | some weights =>
      ([memberDir worldModelMember, baseName path], weights) ::
        match src.file (path ++ passesSuffix) with
        | none => []
        | some passes => [([memberDir worldModelMember, baseName path ++ passesSuffix], passes)]

def stageFiles (src : Sources) : Dir :=
  match src.stage with
  | none => []
  | some content => [(["stage.json"], content)]

def developmentFiles (src : Sources) : Dir :=
  bundledDevelopmentFiles.filterMap fun name =>
    (src.development name).map fun content => ([memberDir developmentMember, name], content)

def individuationFiles (src : Sources) : Dir :=
  src.individuation.map fun file => ("individuation" :: file.1.1, file.2)

/-- The members of a bundle, in the order in which they are staged and archived. -/
def bundleMembers (src : Sources) (snapshot : Bytes) (checkpoint : Option String) : Dir :=
  (["snapshot.json"], snapshot) ::
    (worldModelFiles src checkpoint ++ stageFiles src ++ developmentFiles src ++
      individuationFiles src)

/-- What a preservation is asked for, and what it draws and reads around the capture. -/
structure Request (isOther : Char → Bool) where
  reason : String
  label : String
  requireEncryption : Bool
  identity : Option (EntityIdentity isOther)
  identityUnreadable : Option String
  preservationId : String
  snapshotId : String
  runId : Option String
  timestamp : PyFloat
  adapters : List Json
  feedback : Option Json
  /-- The manifest's entries other than the identity, and their number is of no matter to its
  readers. -/
  manifest : Dict
  manifest_identity : manifest.lookup "identity" = none
  nonces : ℕ → Nonce

variable {isOther : Char → Bool}

def Request.metadata (request : Request isOther) (captured : Bool) : Dict :=
  [("kind", .str "preservation"), ("reason", .str request.reason),
   ("preservation_id", .str request.preservationId), ("run_id", optionalText request.runId),
   ("world_model_captured", .bool captured)] ++
  (match request.identity with
    | some identity => [("identity", .obj identity.toDict)]
    | none => []) ++
  (match request.identityUnreadable with
    | some reason => [("identity_unreadable", .str reason)]
    | none => []) ++
  match request.feedback with
  | some feedback => [("workspace_feedback", feedback)]
  | none => []

/-- The snapshot of the captured states. -/
def snapshotOf (request : Request isOther) (states : List (String × Dict))
    (captured : Bool) : Snapshot where
  id := request.snapshotId
  label := if request.label = "" then "preservation:" ++ request.reason else request.label
  timestamp := request.timestamp
  modules := states.map fun entry => (entry.1, .obj entry.2)
  adapters := request.adapters
  metadata := request.metadata captured

def manifestOf (request : Request isOther) : Dict :=
  request.manifest ++
    match request.identity with
    | some identity =>
      [("identity", .obj [("entity_id", .str identity.entityId),
        ("lineage", .arr (identity.lineage.map .str))])]
    | none => []

/-- The content of the file that `save_snapshot` leaves. -/
def saveSnapshot (env : Env) (nonce : Nonce) (snap : Snapshot) : Option Bytes := do
  let payload ← env.json.dumps snap.toDict
  Utf8.encode (← (env.encryptor.encryptText nonce payload).toOption)

/-- The archive of the members, as it stands in the bundle. -/
def sealedArchive (env : Env) (nonce : Nonce) (members : Dir) : Path × Bytes :=
  let raw := env.tar.pack members
  if env.encryptor.enabled then (["bundle.tar.enc"], env.encryptor.encrypt nonce raw)
    else (["bundle.tar"], raw)

/-- `preserve_live`, by the bundle that it writes; none where it raises. -/
def preserveLive (env : Env) (request : Request isOther) (registry : Registry) (src : Sources) :
    Option Dir := do
  if request.requireEncryption && !env.encryptor.enabled then none
  else
    let states ← registry.modules.mapM fun m => (moduleState m).map fun state => (m.name, state)
    let checkpoint ← worldModelCheckpoint registry.modules
    let snapshot ← saveSnapshot env (request.nonces 0)
      (snapshotOf request states (worldModelCaptured registry.modules))
    let manifest ← (env.json.dumps (manifestOf request)).bind Utf8.encode
    return [sealedArchive env (request.nonces 1) (bundleMembers src snapshot checkpoint),
      (["manifest.json"], manifest)]

/-- What a revival hands a module. -/
inductive Handed where
  | imported (name : String) (state : Dict)
  | weights (name : String) (blob : Bytes)
  | passes (name : String) (count : ℕ)
  | deserialized (name : String) (state : Dict)
  deriving DecidableEq

def Handed.name : Handed → String
  | .imported name _ | .weights name _ | .passes name _ | .deserialized name _ => name

/-- `_load_bundle_world_model_weights`: the file of the recorded name, or else the first; none where
there is none, or where it does not decode. -/
def loadWorldModelWeights (env : Env) (members : Members) (recorded : Option String) :
    Option Bytes := do
  let files := members.worldModel
  let wanted := recorded.bind fun path => files.lookup [memberDir worldModelMember, baseName path]
  let first := (files.insertionSort fun a b => "/".intercalate a.1 ≤
    "/".intercalate b.1).head?.map Prod.snd
  let content ← wanted.or first
  (maybeDecrypt env.lax env.encryptor content).toOption

/-- The pass count in a file beside the weights. -/
def passCount (env : Env) (content : Bytes) : Option ℕ :=
  match (readObject env content).map fun d => Dict.get d "successful_training_passes" with
  | some (.int n) => if 0 ≤ n then some n.toNat else none
  | _ => none

/-- The record of captured weights in a state; none where it is no dict. -/
def captureRecord (state : Dict) : Option (Option Dict) :=
  match state.get "world_model_capture" with
  | .obj record =>
    some (if !record.isEmpty && (Dict.get record "captured").truthy then some record else none)
  | other => if other.truthy then none else some none

/-- `checkpoint_path` of a record, none where it is no text. -/
def recordedPath (record : Dict) (default : Json) : Option String :=
  match record.getD "checkpoint_path" default with
  | .str path => some path
  | _ => none

/-- How a revival restores one module, none where it raises. -/
def restoreModule (env : Env) (members : Members) (m : Module) (state : Dict) :
    Option (List Handed) :=
  if m.stateKey.any (fun key => key ≠ "" && state.has key) && m.importsState
    then some [.imported m.name state]
  else do
    match ← captureRecord state with
    | some record =>
      if m.importsWeights then
        let recorded ← checkpointOf record
        let blob ← loadWorldModelWeights env members recorded
        let path ← recordedPath record (.str "world_model.ckpt")
        let passes := (members.worldModel.lookup [memberDir worldModelMember,
          baseName path ++ passesSuffix]).bind (passCount env)
        return .weights m.name blob ::
          ((if m.restoresPasses then passes.toList.map (.passes m.name)
            else []) ++ [.deserialized m.name state])
      else some [.deserialized m.name state]
    | none => some [.deserialized m.name state]

/-- `check_sidecar_agrees`. -/
def sidecarAgrees (sidecar : Option (String × List String))
    (identity : Option (EntityIdentity isOther)) : Bool :=
  match sidecar, identity with
  | some (entityId, lineage), some identity =>
    entityId = identity.entityId && lineage = identity.lineage
  | _, _ => true

/-- `revive`, by what it hands the modules; none where it raises. -/
def revive (env : Env) (read : ReadEnv) (isOther : Char → Bool) (bundle : Dir)
    (registry : Registry) : Option (List Handed) := do
  let members ← readBundleMembers env bundle
  let text ← members.snapshot
  let raw ← (env.json.loads text).bind Json.asDict
  let snap ← (Snapshot.fromDict read raw).toOption
  let manifest ← manifestIdentity env isOther bundle
  let identity ← (identityOfSnapshot isOther snap).toOption
  if !sidecarAgrees manifest identity then none
  else if snap.modules.any fun entry => registry.modules.all fun m => m.name ≠ entry.1 then none
  else
    let handed ← snap.modules.mapM fun entry => do
      let m ← registry.modules.find? fun m => m.name = entry.1
      restoreModule env members m (← entry.2.asDict)
    return handed.flatten

end Kaine.Preservation
