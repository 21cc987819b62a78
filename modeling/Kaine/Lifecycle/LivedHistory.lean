import Kaine.Lifecycle.Identity

/-! Whether an entity has lived before (`kaine/lifecycle/identity.py`). -/
namespace Kaine.LivedHistory
open Py Identity

/-- What `read_text` and `json.loads` make of the bytes of a file. Bytes that are no text, an
integer of too many digits and nesting that is too deep raise errors of their own. -/
inductive Parsed where
  | undecodable
  | notJson
  | hugeInteger
  | tooDeep
  | value (v : Json)

/-- What is at the path of a record. -/
inductive RecordFile where
  | absent
  | statFails
  | special
  | unreadable
  | contents (p : Parsed)

inductive HistoryError where
  | identity (message : String)
  | os
  | unicodeDecode
  | jsonDecode
  | value
  | recursion
  deriving DecidableEq

/-- `json.loads(path.read_text())`. -/
def readJson : RecordFile → Except HistoryError Json
  | .contents .undecodable => .error .unicodeDecode
  | .contents .notJson => .error .jsonDecode
  | .contents .hugeInteger => .error .value
  | .contents .tooDeep => .error .recursion
  | .contents (.value v) => .ok v
  | .absent | .statFails | .special | .unreadable => .error .os

def readEntityId : Json → Option String
  | .str s => if isEntityId s then some s else none
  | _ => none

/-- The checks of a sidecar that was read. -/
def checkSidecar (raw : Json) : Except HistoryError (String × List String) :=
  match raw with
  | .obj d =>
    if !(Dict.has d "entity_id" && Dict.has d "lineage" &&
        d.all fun kv => kv.1 = "entity_id" || kv.1 = "lineage") then
      .error (.identity "identity sidecar must contain exactly entity_id and lineage")
    else
      match readEntityId (Dict.get d "entity_id") with
      | none => .error (.identity "identity sidecar has malformed entity_id")
      | some entityId =>
        match readList readEntityId (Dict.get d "lineage") with
        | none => .error (.identity "identity sidecar has malformed lineage")
        | some lineage => .ok (entityId, lineage)
  | _ => .error (.identity "identity sidecar must contain exactly entity_id and lineage")

/-- Read a plaintext sidecar; none when absent. -/
def readIdentitySidecar (file : RecordFile) :
    Except HistoryError (Option (String × List String)) :=
  match file with
  | .absent => .ok none
  | .statFails => .error .os
  | file =>
    match readJson file with
    | .error .os | .error .jsonDecode => .error (.identity "cannot read identity sidecar")
    | .error e => .error e
    | .ok raw => (checkSidecar raw).map some

variable {isOther : Char → Bool}

def targetIds (identity : EntityIdentity isOther) : List String :=
  identity.entityId :: identity.lineage

/-- One entry of `forks/`: a snapshot with no identity sidecar is unidentified, so lived. -/
def forkIsLived (identity : EntityIdentity isOther) (sidecar : RecordFile) :
    Except HistoryError Bool :=
  match readIdentitySidecar sidecar with
  | .error (.identity _) | .error .os => .ok true
  | .error e => .error e
  | .ok none => .ok true
  | .ok (some (entityId, lineage)) =>
    .ok ((targetIds identity).contains entityId || lineage.contains identity.entityId)

/-- The record in a manifest. -/
def manifestRecordIsLived (identity : EntityIdentity isOther) (raw : Json) : Bool :=
  match raw with
  | .obj d =>
    match Dict.get d "identity" with
    | .obj identityObj =>
      match Dict.get identityObj "entity_id" with
      | .str recordId =>
        recordId = "" || (targetIds identity).contains recordId ||
          match Dict.get identityObj "lineage" with
          | .arr recordLineage => recordLineage.contains (.str identity.entityId)
          | _ => false
      | _ => true
    | _ => true
  | _ => true

/-- One entry of a bundle root. -/
def manifestIsLived (identity : EntityIdentity isOther) (manifest : RecordFile) :
    Except HistoryError Bool :=
  match manifest with
  | .absent | .special => .ok false
  | .statFails => .ok true
  | file =>
    match readJson file with
    | .error .os | .error .jsonDecode => .ok true
    | .error e => .error e
    | .ok raw => .ok (manifestRecordIsLived identity raw)

/-- What inspecting and listing a directory gives. -/
inductive Listing (E : Type) where
  | statFails
  | notDir
  | listFails
  | entries (es : List E)

/-- A loop that returns True at the first entry that counts as lived. -/
def anyLived {E : Type} (isLived : E → Except HistoryError Bool) :
    List E → Except HistoryError Bool
  | [] => .ok false
  | e :: es => do
    if ← isLived e then return true else anyLived isLived es

def scan {E : Type} (isLived : E → Except HistoryError Bool) :
    Listing E → Except HistoryError Bool
  | .statFails | .listFails => .ok true
  | .notDir => .ok false
  | .entries es => anyLived isLived es

/-- Whether this tree holds prior lived history for the identity's lineage. `bundles` are the
in-tree `preservation/` and then every configured bundle root. -/
def hasPriorLivedHistoryInLineage (identity : Option (EntityIdentity isOther))
    (forks : Listing RecordFile) (bundles : List (Listing RecordFile)) :
    Except HistoryError Bool :=
  match identity with
  | none => .ok true
  | some identity => do
    if ← scan (forkIsLived identity) forks then return true
    else anyLived (scan (manifestIsLived identity)) bundles

inductive Stat where
  | present
  | absent
  | fails
  deriving DecidableEq

/-- The tree's own lived artifacts, under their old and new names. -/
def ownLivedArtifactPaths : List String :=
  ["lifecycle/stage.json", "lifecycle/hearing_stage.json",
   "phantasia/world_model.ckpt", "world_model/world_model.ckpt",
   "hypnos/consolidation_divergence.json", "sleep/consolidation_divergence.json",
   "perception/desired.json", "perceptual_locus/desired.json"]

/-- The artifacts that exist; one whose existence cannot be checked counts as present. -/
def ownLivedArtifacts (stat : String → Stat) : List String :=
  ownLivedArtifactPaths.filter fun rel => stat rel ≠ .absent

/-- Whether this entity has lived before this boot. -/
def livedBefore (identity : Option (EntityIdentity isOther)) (stat : String → Stat)
    (forks : Listing RecordFile) (bundles : List (Listing RecordFile)) :
    Except HistoryError Bool :=
  match identity with
  | none => .ok true
  | some identity =>
    if (ownLivedArtifacts stat).isEmpty then
      hasPriorLivedHistoryInLineage (some identity) forks bundles
    else .ok true

end Kaine.LivedHistory
