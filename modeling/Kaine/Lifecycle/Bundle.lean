import Kaine.Lib.JsonText
import Kaine.Lifecycle.ResumeCheckpoint
import Kaine.Security.Crypto

/-! Preservation bundles, and their readers (`kaine/lifecycle/preservation.py`). -/
namespace Kaine.Preservation
open Py Security StateEncryptor

/-- A path under a directory, by its parts. -/
abbrev Path := List String

/-- The files of a directory, under their paths. -/
abbrev Dir := List (Path × Bytes)

/-- The regular files of a tar archive; none where it cannot be opened. -/
structure Tar where
  pack : Dir → Bytes
  unpack : Bytes → Option Dir
  unpack_pack (files : Dir) : unpack (pack files) = some files

/-- What the reading and writing of bundles rests on. -/
structure Env where
  lax : Bool
  encryptor : StateEncryptor
  tar : Tar
  json : JsonFile

/-- `Path(path).name`. -/
def baseName (path : String) : String :=
  (((path.toList.splitOn '/').filter fun part => part ≠ [] && part ≠ ['.']).getLast?.map
    String.ofList).getD ""

def worldModelMember : String := "world_model"
def developmentMember : String := "development"

/-- `_member_dir`. -/
def memberDir (name : String) : String := (mapBundleMember [name, ""]).headD ""

def bundledDevelopmentFiles : List String :=
  ["development_progress.json", "development_readout.json", "hearing_stage.json"]

def captureStretchName : String := "capture_stretch.json"

/-- The files of the bundle's archive, or that it has none; outside, none where the archive cannot
be opened. -/
def openArchive (env : Env) (bundle : Dir) : Option (Option Dir) :=
  match bundle.lookup ["bundle.tar.enc"] with
  | some content =>
    match decrypt env.lax env.encryptor content with
    | .error _ => none
    | .ok raw => (env.tar.unpack raw).map some
  | none =>
    match bundle.lookup ["bundle.tar"] with
    | some raw => (env.tar.unpack raw).map some
    | none => some none

/-- The text of a file that may be an envelope. -/
def readText (env : Env) (content : Bytes) : Option Text :=
  (maybeDecrypt env.lax env.encryptor content).toOption.bind Utf8.decode

/-- The object in a file of JSON text. -/
def readObject (env : Env) (content : Bytes) : Option Dict :=
  ((Utf8.decode content).bind env.json.loads).bind Json.asDict

/-- What `_read_bundle_members` returns: the snapshot's text, and the files of the world model. -/
structure Members where
  snapshot : Option Text := none
  worldModel : Dir := []

/-- `members[name] = data`. -/
def Members.put (members : Members) (name : Path) (data : Bytes) : Members :=
  { members with worldModel :=
      if (members.worldModel.lookup name).isSome then
        members.worldModel.map fun file => if file.1 = name then (name, data) else file
      else members.worldModel ++ [(name, data)] }

def readMember (env : Env) (members : Members) (member : Path × Bytes) : Option Members :=
  let name := mapBundleMember member.1
  if name = ["snapshot.json"] then
    (readText env member.2).map fun text => { members with snapshot := some text }
  else if name.head? = some (memberDir worldModelMember) ∧ 2 ≤ name.length then
    -- A file under its present name is kept before one under an old name.
    if (members.worldModel.lookup name).isSome ∧ name ≠ member.1 then some members
    else some (members.put name member.2)
  else some members

/-- The files of a directory of the bundle, by name. -/
def filesIn (bundle : Dir) (form : String) : List (String × Bytes) :=
  SortBy.sortBy Prod.fst <| bundle.filterMap fun
    | ([dir, name], content) => if dir = form then some (name, content) else none
    | _ => none

/-- The world model's files in a layout without an archive. -/
def looseWorldModel (bundle : Dir) : Members :=
  (nameForms worldModelMember).foldl
    (fun members form =>
      (filesIn bundle form).foldl
        (fun members file =>
          let name := mapBundleMember [form, file.1]
          if (members.worldModel.lookup name).isSome then members else members.put name file.2)
        members)
    {}

/-- `_read_bundle_members`, none where it raises. -/
def readBundleMembers (env : Env) (bundle : Dir) : Option Members :=
  match openArchive env bundle with
  | none => none
  | some (some files) => files.foldlM (readMember env) {}
  | some none =>
    match bundle.lookup ["snapshot.json"] with
    | none => some (looseWorldModel bundle)
    | some content =>
      (readText env content).map fun text => { looseWorldModel bundle with snapshot := some text }

/-- `_extract_stage_from_bundle`, none where it raises. -/
def extractStage (env : Env) (bundle : Dir) : Option (Option Bytes) :=
  match openArchive env bundle with
  | none => none
  | some (some files) => some (files.lookup ["stage.json"])
  | some none =>
    match bundle.lookup ["stage.json"] with
    | none => some none
    | some content => (maybeDecrypt env.lax env.encryptor content).toOption.map some

/-- `read_bundle_stage`, none where it raises. The members it reads first never hold the stage. -/
def readBundleStage (env : Env) (bundle : Dir) : Option (Option Dict) := do
  let _ ← readBundleMembers env bundle
  match ← extractStage env bundle with
  | none => some none
  | some content => (readObject env content).map some

/-- The present name of a file under the archive's development directory. -/
def developmentName : Path → String
  | [name] => baseName (mapStatePath ("lifecycle/" ++ name))
  | rest => rest.getLastD ""

def restoreDevelopment (restored : List (String × Bytes)) (member : Path × Bytes) :
    List (String × Bytes) :=
  match mapBundleMember member.1 with
  | dir :: rest =>
    let name := developmentName rest
    if dir ≠ memberDir developmentMember ∨ rest = [] ∨ name ∉ bundledDevelopmentFiles then restored
    else if (restored.lookup name).isSome ∧ (mapBundleMember member.1 ≠ member.1 ∨ rest ≠ [name])
      then restored
    else Assoc.assign restored name member.2
  | [] => restored

/-- What `extract_bundle_development` puts in place, none where it raises. -/
def extractDevelopment (env : Env) (bundle : Dir) : Option (List (String × Bytes)) :=
  match openArchive env bundle with
  | none => none
  | some none => some []
  | some (some files) => some (SortBy.sortBy Prod.fst (files.foldl restoreDevelopment []))

/-- The path of a member under the individuation directory. -/
def individuationPath (member : Path × Bytes) : Option (Path × Bytes) :=
  match member.1 with
  | "individuation" :: part :: rest => some (part :: rest, member.2)
  | _ => none

/-- The tree that `extract_bundle_individuation` puts in place, if any; outside, none where it
raises. -/
def extractIndividuation (env : Env) (bundle : Dir) : Option (Option Dir) :=
  match openArchive env bundle with
  | none => none
  | some none => some none
  | some (some files) =>
    let tree := files.filterMap individuationPath
    if tree.any fun file => file.1.head? = some "" || ".." ∈ file.1 then none
    else
      let kept := tree.filter (·.1 ≠ [captureStretchName])
      if kept.isEmpty then some none else some (some kept)

/-- `_manifest_identity`, none where it raises. -/
def manifestIdentity (env : Env) (isOther : Char → Bool) (bundle : Dir) :
    Option (Option (String × List String)) :=
  match bundle.lookup ["manifest.json"] with
  | none => some none
  | some content => do
    let manifest ← readObject env content
    match manifest.get "identity" with
    | .null => some none
    | .obj d =>
      match Dict.get d "entity_id", Dict.get d "lineage" with
      | .str entityId, .arr xs => do
        let lineage ← xs.mapM Identity.readString
        let legacy := Identity.isLegacyId entityId
        let identity ← (Identity.construct isOther
          { entityId, lineage, origin := if legacy then "legacy" else "minted",
            legacySource := if legacy then some "manifest" else none }).toOption
        if d.length = 2 then some (some (identity.entityId, identity.lineage)) else none
      | _, _ => none
    | _ => none

end Kaine.Preservation
