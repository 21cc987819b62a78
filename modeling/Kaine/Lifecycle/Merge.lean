import Kaine.Lifecycle.WeightGroups

/-! `ForkManager.merge` on a snapshot root whose every step can fail
(`kaine/lifecycle/manager.py`, `kaine/lifecycle/snapshot.py`). -/
namespace Kaine.Merge
open Py

structure ForkSnapshot where
  id : String
  parentId : Option String := none
  label : String := ""
  timestamp : PyFloat
  modules : Dict := []
  adapters : List String := []
  metadata : Dict := []

/-- What a path of the snapshot root holds. -/
inductive Node (B : Type) where
  | file (content : B)
  | symlink
  | dir (children : List (String × Node B))

/-- The entries of a directory by name; the snapshot root is one, with an entry for each id. -/
abbrev Dir (B : Type) := List (String × Node B)

variable {B I : Type}

def Node.children : Node B → Dir B
  | .dir children => children
  | _ => []

def Node.isDir : Node B → Bool
  | .dir _ => true
  | _ => false

/-- The entry of a subdirectory, empty where there is none. -/
def subdir (dir : Dir B) (name : String) : Dir B :=
  match dir.lookup name with
  | some node => node.children
  | none => []

/-- The steps of a merge that write. -/
inductive FsOp where
  | makeRoot
  | makeDir
  | makeArtifacts (module : String)
  | copy (module : String) (path : List String)
  | encode
  | writeTemp
  | replace
  | writeSidecar
  deriving DecidableEq

/-- What a merge finds around it: the codecs of the files, the identity records, the adapter
merger, which can write under the root, a fresh id, the time, and which steps fail. -/
structure Env (B I : Type) where
  decode : B → Except PyError ForkSnapshot
  encode : ForkSnapshot → B
  identityOf : Dict → Except PyError (Option I)
  checkSidecar : Option (Node B) → I → Except PyError Unit
  identityDict : I → Dict
  entityId : I → String
  sidecar : I → B
  adapterMerger : List String → List String → Dir B → Except PyError (List String × Dict) × Dir B
  strategies : List (String × Strategy)
  defaultStrategy : Strategy
  newId : String
  now : PyFloat
  fails : FsOp → Bool

structure Args where
  snapshotA : String
  snapshotB : String
  label : String := ""
  strategies : List (String × Strategy) := []
  metadata : Dict := []
  allowUnmergedAdapters : Bool := false
  worldModelFrom : Option String := none
  moduleWeightsFrom : WeightsArg := .none

structure Outcome (B : Type) where
  result : Except MergeError ForkSnapshot
  root : Dir B
  calls : List Call

def loadSnapshot (env : Env B I) (root : Dir B) (id : String) : Except PyError ForkSnapshot :=
  match (subdir root id).lookup "snapshot.json" with
  | some (.file content) => env.decode content
  | _ => .error .osError

def checkIdentity (env : Env B I) (root : Dir B) (snap : ForkSnapshot) (identity : Option I) :
    Except PyError Unit :=
  match identity with
  | some i => env.checkSidecar ((subdir root snap.id).lookup "identity.json") i
  | none => .ok ()

def artifactsOf (root : Dir B) (id : String) : Dir B := subdir (subdir root id) "artifacts"

/-- The first of a module's names under which a snapshot has an artifact directory. -/
def findArtifactsDir (root : Dir B) (id name : String) : Option String :=
  (nameForms name).find? fun form => ((artifactsOf root id).lookup form).any Node.isDir

/-- The artifact directories by module key; a current name wins over an old one. -/
def artifactDirsByModule (root : Dir B) (id : String) : List (String × Node B) :=
  ((SortBy.sortBy Prod.fst (artifactsOf root id)).filter fun e => e.2.isDir).foldl
    (fun found e =>
      let key := mapModuleKey e.1
      if (found.lookup key).isNone || e.1 = key then Assoc.assign found key e.2 else found) []

def sortedNames (names : List String) : List String := SortBy.sortBy id names.dedup

/-- `FakeAdapterMerger`: the union of the paths, and nothing written. -/
def fakeAdapterMerger (adaptersA adaptersB : List String) (root : Dir B) :
    Except PyError (List String × Dict) × Dir B :=
  (.ok ((adaptersA ++ adaptersB).eraseDups,
    [("adapter_merge_skipped", .str "no merger configured")]), root)

/-- What the merge has in hand once every module is merged, before anything is written. -/
structure Prepared (I : Type) where
  a : ForkSnapshot
  b : ForkSnapshot
  aIdentity : Option I
  bIdentity : Option I
  aWorldModel : Option String
  bWorldModel : Option String
  worldModelFrom : Option Parent
  modules : Dict
  weightRecord : List (String × Parent × String)
  serializeErrors : List (String × List Parent)

def parentsWithError (a b : ForkSnapshot) (name : String) : List Parent :=
  (if hasSerializeError (Dict.get a.modules name) then [.a] else []) ++
    (if hasSerializeError (Dict.get b.modules name) then [.b] else [])

def stripped (snap : ForkSnapshot) : Dict :=
  snap.modules.map fun kv => (kv.1, withoutSerializeError kv.2)

/-- The strategy of a module: the caller's, the manager's, the default. -/
def strategyOf (env : Env B I) (args : Args) (name : String) : Strategy :=
  ((Assoc.assignAll env.strategies args.strategies).lookup name).getD env.defaultStrategy

/-- The checks of the arguments, the two parents and their identities. -/
def load (env : Env B I) (args : Args) (root : Dir B) :
    Except PyError (WeightsChoice × ForkSnapshot × ForkSnapshot × Option I × Option I) := do
  if args.worldModelFrom.any fun s => (parentOfText s).isNone then throw .valueError
  let choice ← normaliseWeightsChoice args.moduleWeightsFrom
  let a ← loadSnapshot env root args.snapshotA
  let b ← loadSnapshot env root args.snapshotB
  let aIdentity ← env.identityOf a.metadata
  let bIdentity ← env.identityOf b.metadata
  checkIdentity env root a aIdentity
  checkIdentity env root b bIdentity
  return (choice, a, b, aIdentity, bIdentity)

/-- The part of `merge` that only reads, up to the merged module states. -/
def prepare (env : Env B I) (args : Args) (root : Dir B) :
    List Call × Except MergeError (Prepared I) :=
  match load env args root with
  | .error e => ([], .error (.raised e))
  | .ok (choice, a, b, aIdentity, bIdentity) =>
    let aWorldModel := findArtifactsDir root a.id "world_model"
    let bWorldModel := findArtifactsDir root b.id "world_model"
    if aWorldModel.isSome && bWorldModel.isSome && args.worldModelFrom.isNone then
      ([], .error .worldModelChoiceRequired)
    else
      let names := sortedNames (a.modules.map Prod.fst ++ b.modules.map Prod.fst)
      let (sources, needs) := decideAll choice (stripped a) (stripped b) names
      if !needs.isEmpty then ([], .error (.moduleWeightsChoiceRequired needs))
      else
        let worldModelFrom := args.worldModelFrom.bind parentOfText
        let worldModel := worldModelSource aWorldModel.isSome bWorldModel.isSome worldModelFrom
          (stripped a) (stripped b)
        let record := sources.map fun s => (s.1, s.2.parent, s.2.reason)
        let (calls, merged) := mergeModules (strategyOf env args) worldModel.1 sources (stripped a)
          (stripped b) names
        (calls, merged.map fun modules =>
          { a, b, aIdentity, bIdentity, aWorldModel, bWorldModel, worldModelFrom, modules
            weightRecord :=
              if worldModelName ∈ names then record ++ [(worldModelName, worldModel)] else record
            serializeErrors := (names.map fun name => (name, parentsWithError a b name)).filter
              fun e => !e.2.isEmpty })

def parentJson (parent : Parent) : Json := .str parent.text

/-- The metadata of the merged snapshot, without what the copied artifacts add. -/
def combinedMetadata (env : Env B I) (args : Args) (p : Prepared I) (adapterMeta : Dict) : Dict :=
  let meta_ : Dict := [("merged_from", .arr [.str p.a.id, .str p.b.id])]
  let meta_ := Dict.update (Dict.update meta_ adapterMeta) args.metadata
  let meta_ := Dict.set meta_ "module_weights_from" (.obj (p.weightRecord.map fun r =>
    (r.1, .obj [("from", parentJson r.2.1), ("reason", .str r.2.2)])))
  let meta_ := if p.serializeErrors.isEmpty then meta_
    else Dict.set meta_ "serialize_errors_dropped"
      (.obj (p.serializeErrors.map fun e => (e.1, .arr (e.2.map parentJson))))
  match p.aIdentity with
  | none => meta_
  | some a =>
    let meta_ := Dict.set meta_ "identity" (.obj (env.identityDict a))
    match p.bIdentity with
    | none => meta_
    | some b => Dict.set meta_ "merged_from_entity" (.str (env.entityId b))

/-- Adapters that no real merger combined, or whose merge was rejected, are refused. -/
def refusesAdapters (args : Args) (p : Prepared I) (adapterMeta : Dict) : Bool :=
  !args.allowUnmergedAdapters &&
    (((Dict.get adapterMeta "adapter_merge_skipped").truthy && !p.a.adapters.isEmpty &&
        !p.b.adapters.isEmpty) ||
      (Dict.get adapterMeta "adapter_merge_rejected").truthy ||
      (Dict.get adapterMeta "adapter_merge_failed").truthy)

/-- For each module with artifacts in a parent, the parent whose directory is copied: parent a
where it has one, for two world models the one that the caller named. -/
def artifactSources (root : Dir B) (p : Prepared I) : List (String × Parent × Node B) :=
  let aDirs := artifactDirsByModule root p.a.id
  let bDirs := artifactDirsByModule root p.b.id
  (sortedNames (aDirs.map Prod.fst ++ bDirs.map Prod.fst)).filterMap fun name =>
    match p.aWorldModel, p.bWorldModel, decide (name = worldModelName) with
    | some aForm, some bForm, true =>
      let chosen := if p.worldModelFrom = some .a then Parent.a else .b
      let snap := pick chosen p.a p.b
      ((artifactsOf root snap.id).lookup (pick chosen aForm bForm)).map fun n => (name, chosen, n)
    | _, _, _ => ((aDirs.lookup name).map fun n => (name, .a, n)).or
        ((bDirs.lookup name).map fun n => (name, .b, n))

/-- The names that `artifacts_dir` takes. -/
def validModuleName (name : String) : Bool :=
  name ≠ "" && !name.toList.contains '/' && !name.toList.contains '\\' &&
    name.toList.head? ≠ some '.'

mutual

/-- A copy of a directory tree; symlinks are left out. -/
def copyNode (fails : List String → Bool) (path : List String) :
    Node B → Except PyError (Option (Node B))
  | .symlink => .ok none
  | .file content => if fails path then .error .osError else .ok (some (.file content))
  | .dir children =>
    if fails path then .error .osError
    else
      match copyChildren fails path children with
      | .ok copied => .ok (some (.dir copied))
      | .error e => .error e

def copyChildren (fails : List String → Bool) (path : List String) :
    List (String × Node B) → Except PyError (List (String × Node B))
  | [] => .ok []
  | (name, node) :: rest =>
    match copyNode fails (path ++ [name]) node with
    | .error e => .error e
    | .ok copied =>
      match copyChildren fails path rest with
      | .error e => .error e
      | .ok copies => .ok (copied.toList.map (fun node => (name, node)) ++ copies)

end

/-- The root with a child put into a subdirectory of one of its entries. -/
def putArtifacts (root : Dir B) (id name : String) (copied : Dir B) : Dir B :=
  Assoc.assign root id (.dir (Assoc.assign (subdir root id) "artifacts"
    (.dir (Assoc.assign (artifactsOf root id) name (.dir copied)))))

/-- The copied directory, or the error. What a failing copy leaves behind lies in the new
snapshot directory. -/
def copyArtifacts (env : Env B I) (root : Dir B) (name : String) (src : Node B) :
    Except PyError (Dir B) :=
  if ((artifactsOf root env.newId).lookup name).isSome then .error .osError
  else if env.fails (.makeArtifacts name) then .error .osError
  else copyChildren (fun path => env.fails (.copy name path)) [] src.children

/-- `shutil.rmtree` of one snapshot directory. -/
def removeSnapshotDir (root : Dir B) (id : String) : Dir B := root.filter fun e => e.1 ≠ id

/-- The copies of the artifact directories. A failing copy removes the new snapshot directory; a
name that `artifacts_dir` refuses raises outside the handler. -/
def copyAll (env : Env B I) :
    List (String × Parent × Node B) → Dir B → Except MergeError (List (String × Parent)) × Dir B
  | [], root => (.ok [], root)
  | (name, chosen, src) :: rest, root =>
    if !validModuleName name then (.error (.raised .valueError), root)
    else if !src.isDir then copyAll env rest root
    else
      match copyArtifacts env root name src with
      | .error e => (.error (.raised e), removeSnapshotDir root env.newId)
      | .ok copied =>
        let (sources, root) := copyAll env rest (putArtifacts root env.newId name copied)
        (sources.map fun s => (name, chosen) :: s, root)

/-- A new file in a snapshot directory, which is made where it is missing. -/
def putFile (root : Dir B) (id name : String) (content : B) : Dir B :=
  Assoc.assign root id (.dir (Assoc.assign (subdir root id) name (.file content)))

/-- `save_snapshot`, step by step. -/
def saveSnapshot (env : Env B I) (root : Dir B) (snap : ForkSnapshot) :
    Except MergeError Unit × Dir B :=
  if env.fails .makeRoot || env.fails .makeDir then (.error (.raised .osError), root)
  else
    let root := Assoc.assign root snap.id (.dir (subdir root snap.id))
    -- a write that fails can also leave part of the temporary file behind
    if env.fails .encode || env.fails .writeTemp then (.error (.raised .osError), root)
    else if env.fails .replace then
      (.error (.raised .osError), putFile root snap.id "snapshot.json.tmp" (env.encode snap))
    else (.ok (), putFile root snap.id "snapshot.json" (env.encode snap))

/-- `_write_sidecar`; a failure is logged and the snapshot kept. -/
def writeSidecar (env : Env B I) (root : Dir B) (id : String) (identity : I) : Dir B :=
  if env.fails .writeSidecar then root else putFile root id "identity.json" (env.sidecar identity)

def mergedSnapshot (env : Env B I) (args : Args) (p : Prepared I) (adapters : List String)
    (adapterMeta : Dict) (sources : List (String × Parent)) : ForkSnapshot where
  id := env.newId
  parentId := some (p.a.id ++ "+" ++ p.b.id)
  label := args.label
  timestamp := env.now
  modules := p.modules
  adapters := adapters
  metadata :=
    let meta_ := combinedMetadata env args p adapterMeta
    if sources.isEmpty then meta_
    else Dict.set meta_ "artifact_sources" (.obj (sources.map fun s => (s.1, parentJson s.2)))

/-- The part of `merge` that writes, behind the adapter merger. -/
def finish (env : Env B I) (args : Args) (p : Prepared I) (adapters : List String)
    (adapterMeta : Dict) (root : Dir B) : Except MergeError ForkSnapshot × Dir B :=
  if refusesAdapters args p adapterMeta then (.error .unmergedAdapters, root)
  else
    match copyAll env (artifactSources root p) root with
    | (.error e, root) => (.error e, root)
    | (.ok sources, root) =>
      let merged := mergedSnapshot env args p adapters adapterMeta sources
      match saveSnapshot env root merged with
      | (.error e, root) => (.error e, root)
      | (.ok (), root) =>
        match p.aIdentity with
        | none => (.ok merged, root)
        | some identity => (.ok merged, writeSidecar env root merged.id identity)

def merge (env : Env B I) (args : Args) (root : Dir B) : Outcome B :=
  match prepare env args root with
  | (calls, .error e) => ⟨.error e, root, calls⟩
  | (calls, .ok p) =>
    match env.adapterMerger p.a.adapters p.b.adapters root with
    | (.error e, root) => ⟨.error (.raised e), root, calls⟩
    | (.ok (adapters, adapterMeta), root) =>
      let (result, root) := finish env args p adapters adapterMeta root
      ⟨result, root, calls⟩

end Kaine.Merge
