import Kaine.Lib.PyNumber
import Kaine.Workspace.Feedback

/-! Entity identity records (`kaine/lifecycle/identity.py`), with the shared name check
(`kaine/modules/self_model/document.py`). -/
namespace Kaine.Identity
open Py Bus

/-- An `IdentityError`, with the value that its message ends in. -/
structure IdentityError where
  message : String
  shown : Option Json := none
  deriving DecidableEq

inductive Fault where
  | identity (e : IdentityError)
  | python (e : PyError)
  deriving DecidableEq

/-- The characters that end a line for `str.splitlines`. -/
def isLineBreak (c : Char) : Bool :=
  let n := c.toNat
  (10 ≤ n && n ≤ 13) || (28 ≤ n && n ≤ 30) || n = 0x85 || n = 0x2028 || n = 0x2029

/-- `str.splitlines`, with the current line held back to front. -/
def splitLines : List Char → List Char → List (List Char)
  | [], [] => []
  | line, [] => [line.reverse]
  | line, [c] => if isLineBreak c then [line.reverse] else [(c :: line).reverse]
  | line, c :: d :: rest =>
    if c.toNat = 13 && d.toNat = 10 then line.reverse :: splitLines [] rest
    else if isLineBreak c then line.reverse :: splitLines [] (d :: rest)
    else splitLines (c :: line) (d :: rest)

def maxNameLength : ℕ := 64

/-- The shared name check. `isOther` says which characters have a Unicode category that starts
with "C". -/
def isValidName (isOther : Char → Bool) (name : String) : Bool :=
  0 < name.length && name.length ≤ maxNameLength && name = Feedback.strip name &&
    name.toList.all (fun c => !isOther c) && (splitLines [] name.toList).length = 1

def isHexDigit (c : Char) : Bool := c.isDigit || ('a' ≤ c && c ≤ 'f')

/-- 32 lowercase hex digits. -/
def isHex32 (cs : List Char) : Bool := cs.length = 32 && cs.all isHexDigit

/-- An entity ID in the frozen identity format. -/
def isEntityId (value : String) : Bool :=
  match value.toList with
  | 'e' :: 'n' :: 't' :: '-' :: hex => isHex32 hex
  | 'l' :: 'e' :: 'g' :: 'a' :: 'c' :: 'y' :: '-' :: hex => isHex32 hex
  | _ => false

def isLegacyId (value : String) : Bool := "legacy-".toList.isPrefixOf value.toList

/-- The fields of an identity, before the constructor has checked them. -/
structure IdentityFields where
  entityId : String
  lineage : List String := []
  origin : String := "minted"
  mintedAt : PyNumber := .float (.fin 0)
  legacySource : Option String := none
  name : Option String := none
  lineageNames : List (String × String) := []
  deriving DecidableEq

def pairJson (p : String × String) : Json := .arr [.str p.1, .str p.2]

def optionalText : Option String → Json
  | none => .null
  | some s => .str s

def fail {α : Type} (message : String) (shown : Option Json := none) : Except Fault α :=
  .error (.identity ⟨message, shown⟩)

def checkOrigin (x : IdentityFields) : Except Fault Unit :=
  if x.origin = "legacy" then
    if !isLegacyId x.entityId then fail "origin 'legacy' requires a 'legacy-' entity_id"
    else if x.legacySource.all (· = "") then
      fail "legacy identity requires a non-empty legacy_source"
    else .ok ()
  else
    if isLegacyId x.entityId then fail "origin 'minted' requires an 'ent-' entity_id"
    else if x.legacySource.isSome then fail "minted identity must not have a legacy_source"
    else .ok ()

/-- `type(x) in (int, float) and math.isfinite(x)`, for a number. -/
def checkMintedAt (mintedAt : PyNumber) : Except Fault Unit :=
  match mintedAt with
  | .int (.bool b) => fail "minted_at must be a finite number: " (some (.bool b))
  | x =>
    match x.isFinite with
    | .ok true => .ok ()
    | .ok false => fail "minted_at must be a finite number: " (some x.toJson)
    | .error e => .error (.python e)

/-- Ancestors' names in lineage order, at most one each. -/
def lineageNamesFit (isOther : Char → Bool) (x : IdentityFields) : Bool :=
  let ids := x.lineageNames.map Prod.fst
  x.lineageNames.all (fun p => x.lineage.contains p.1 && isValidName isOther p.2) &&
    ids = x.lineage.filter (fun id => ids.contains id) && ids.Nodup

/-- The checks of the constructor. -/
def check (isOther : Char → Bool) (x : IdentityFields) : Except Fault Unit := do
  if !isEntityId x.entityId then
    fail "invalid entity_id format: " (some (.str x.entityId))
  else if !x.lineage.all isEntityId then
    fail "invalid lineage: " (some (.arr (x.lineage.map .str)))
  else if x.origin ≠ "minted" && x.origin ≠ "legacy" then
    fail "invalid origin: " (some (.str x.origin))
  else do
    checkOrigin x
    checkMintedAt x.mintedAt
    if !lineageNamesFit isOther x then
      fail "invalid lineage_names: " (some (.arr (x.lineageNames.map pairJson)))
    else if x.name.any (fun name => !isValidName isOther name) then
      fail "name must be a non-empty single-line string: " (x.name.map .str)
    else .ok ()

/-- The persistent identity of one being: fields that the constructor accepts. -/
structure EntityIdentity (isOther : Char → Bool) extends IdentityFields where
  checked : check isOther toIdentityFields = .ok ()

/-- The constructor. -/
def construct (isOther : Char → Bool) (x : IdentityFields) :
    Except Fault (EntityIdentity isOther) :=
  match h : check isOther x with
  | .ok () => .ok ⟨x, h⟩
  | .error e => .error e

def IdentityFields.toDict (x : IdentityFields) : Dict :=
  [("entity_id", .str x.entityId), ("lineage", .arr (x.lineage.map .str)),
   ("origin", .str x.origin), ("minted_at", x.mintedAt.toJson),
   ("legacy_source", optionalText x.legacySource)] ++
  (match x.name with
    | some name => [("name", .str name)]
    | none => []) ++
  if x.lineageNames.isEmpty then []
  else [("lineage_names", .arr (x.lineageNames.map pairJson))]

def requiredKeys : List String := ["entity_id", "lineage", "origin", "minted_at", "legacy_source"]

def allowedKeys : List String := requiredKeys ++ ["name", "lineage_names"]

def keysFit (d : Dict) : Bool :=
  requiredKeys.all d.has && d.all (fun kv => allowedKeys.contains kv.1)

/-- The keys that only one of the record and the required set has. -/
def unexpectedKeys (d : Dict) : List String :=
  (d.map Prod.fst).filter (fun k => !requiredKeys.contains k) ++
    requiredKeys.filter (fun k => !d.has k)

def readPair : Json → Option (String × String)
  | .arr [.str id, .str name] => some (id, name)
  | _ => none

def readString : Json → Option String
  | .str s => some s
  | _ => none

def readList {α : Type} (read : Json → Option α) : Json → Option (List α)
  | .arr xs => xs.mapM read
  | _ => none

def readLineageNames (d : Dict) : Except Fault (List (String × String)) :=
  match readList readPair (d.getD "lineage_names" (.arr [])) with
  | none => fail "lineage_names must be a list of [entity_id, name] pairs"
  | some names =>
    if d.has "lineage_names" && names.isEmpty then
      fail "lineage_names must not be empty when present"
    else .ok names

def readName (d : Dict) : Except Fault (Option String) :=
  match d.lookup "name" with
  | none => .ok none
  | some (.str name) => .ok (some name)
  | some _ => fail "name must be a string when present"

def readText (d : Dict) (key message : String) : Except Fault String :=
  match d.get key with
  | .str s => .ok s
  | _ => fail message

def readLineage (d : Dict) : Except Fault (List String) :=
  match d.get "lineage" with
  | .arr xs =>
    match xs.mapM readString with
    | some lineage => .ok lineage
    | none => fail "lineage entries must be strings"
  | _ => fail "lineage must be a list or tuple"

/-- `float(minted_at)`, for a finite number that is no bool. -/
def readMintedAt (d : Dict) : Except Fault PyNumber :=
  match (d.get "minted_at").asPyNumber with
  | none | some (.int (.bool _)) => fail "minted_at must be a finite number"
  | some x =>
    match x.toFloat with
    | .error e => .error (.python e)
    | .ok y => if y.isFinite then .ok (.float y) else fail "minted_at must be a finite number"

def readLegacySource (d : Dict) : Except Fault (Option String) :=
  match d.get "legacy_source" with
  | .null => .ok none
  | .str s => .ok (some s)
  | _ => fail "legacy_source must be a string or None"

/-- What `from_dict` reads before it comes to `minted_at`. -/
def readHead (d : Dict) : Except Fault IdentityFields :=
  if !keysFit d then
    fail "identity dict has unexpected keys: " (some (.arr ((unexpectedKeys d).map .str)))
  else do
    let lineageNames ← readLineageNames d
    let name ← readName d
    let entityId ← readText d "entity_id" "entity_id must be a string"
    let lineage ← readLineage d
    let origin ← readText d "origin" "origin must be a string"
    return { entityId, lineage, origin, name, lineageNames }

/-- The constructor under `from_dict`: any other exception becomes an `IdentityError`. -/
def constructOrIdentityError (isOther : Char → Bool) (x : IdentityFields) :
    Except Fault (EntityIdentity isOther) :=
  match construct isOther x with
  | .error (.python _) => fail "invalid identity: "
  | result => result

def fromDict (isOther : Char → Bool) (raw : Json) : Except Fault (EntityIdentity isOther) :=
  match raw with
  | .obj d => do
    let head ← readHead d
    let mintedAt ← readMintedAt d
    let legacySource ← readLegacySource d
    constructOrIdentityError isOther { head with mintedAt, legacySource }
  | _ => fail "identity raw data must be a mapping"

end Kaine.Identity
