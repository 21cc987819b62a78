import Kaine.Lib.PyNumber

/-! The look ledger and the guard in front of its file
(`kaine/lifecycle/individuation_store.py`). -/
namespace Kaine.IndividuationStore
open Py

/-- Encrypted ledger of individuation looks and the latch. -/
structure Ledger where
  referenceId : Json
  looksCompleted : PyInt := .int 0
  alphaSpent : PyNumber := .float (.fin 0)
  lastLookConditionsDigest : Option String := none
  livedSeconds : PyNumber := .float (.fin 0)
  livedTicks : PyInt := .int 0
  individuated : Bool := false
  latchedAt : Option String := none
  latchedReportId : Option String := none
  inconclusiveSince : Option String := none
  inconclusiveAlerted : Bool := false
  lastLookAt : Option String := none
  conditionsAlertedReference : Option String := none
  lastInconclusiveReason : Option String := none

/-- A `LedgerRegression`: "(field) regressed from (old) to (new)", or the cleared latch. -/
inductive Regression where
  | value (field : String) (old new : PyNumber)
  | latchCleared
  deriving DecidableEq

inductive StoreError where
  | store (message : String)
  | unreadable (message : String)
  | regression (r : Regression)
  | python (e : PyError)
  deriving DecidableEq

/-- The optional text of a field. -/
def optionalText : Option String → Json
  | none => .null
  | some s => .str s

def Ledger.toDict (l : Ledger) : Dict :=
  [("reference_id", l.referenceId),
   ("looks_completed", l.looksCompleted.toJson),
   ("alpha_spent", l.alphaSpent.toJson),
   ("last_look_conditions_digest", optionalText l.lastLookConditionsDigest),
   ("lived_seconds", l.livedSeconds.toJson),
   ("lived_ticks", l.livedTicks.toJson),
   ("individuated", .bool l.individuated),
   ("latched_at", optionalText l.latchedAt),
   ("latched_report_id", optionalText l.latchedReportId),
   ("inconclusive_since", optionalText l.inconclusiveSince),
   ("inconclusive_alerted", .bool l.inconclusiveAlerted),
   ("last_look_at", optionalText l.lastLookAt),
   ("conditions_alerted_reference", optionalText l.conditionsAlertedReference),
   ("last_inconclusive_reason", optionalText l.lastInconclusiveReason)]

/-- The required keys, sorted as the error lists them. -/
def requiredKeys : List String :=
  ["alpha_spent", "lived_seconds", "lived_ticks", "looks_completed", "reference_id"]

/-- A list of keys as an f-string prints it. -/
def showKeys (keys : List String) : String :=
  "[" ++ ", ".intercalate (keys.map fun k => "'" ++ k ++ "'") ++ "]"

/-- A count that must be a non-negative int. -/
def readCount (d : Dict) (key : String) : Except StoreError PyInt :=
  match (d.get key).asInt with
  | some n =>
    if n.value < 0 then .error (.unreadable (key ++ " must be a non-negative int")) else .ok n
  | none => .error (.unreadable (key ++ " must be a non-negative int"))

/-- `math.isfinite` of a stored number, and the error for one that is not. -/
def requireFinite (x : PyNumber) (error : StoreError) : Except StoreError Unit :=
  match x.isFinite with
  | .ok true => .ok ()
  | .ok false => .error error
  | .error e => .error (.python e)

def readAlpha (d : Dict) : Except StoreError PyNumber :=
  match (d.get "alpha_spent").asPyNumber with
  | none => .error (.unreadable "alpha_spent must be a number")
  | some x => do
    requireFinite x (.unreadable "alpha_spent must be finite")
    if x.value.lt (.fin 0) || PyFloat.lt (.fin 1) x.value then
      .error (.unreadable "alpha_spent must be in [0, 1]")
    else .ok x

def readSeconds (d : Dict) : Except StoreError PyNumber :=
  match (d.get "lived_seconds").asPyNumber with
  | none => .error (.unreadable "lived_seconds must be a non-negative number")
  | some x =>
    if x.value.lt (.fin 0) then
      .error (.unreadable "lived_seconds must be a non-negative number")
    else do
      requireFinite x (.unreadable "lived_seconds must be finite")
      return x

def readFlag (d : Dict) (key : String) : Except StoreError Bool :=
  match d.getD key (.bool false) with
  | .bool b => .ok b
  | _ => .error (.unreadable (key ++ " must be bool"))

def readText (d : Dict) (key : String) : Except StoreError (Option String) :=
  match d.get key with
  | .null => .ok none
  | .str s => .ok (some s)
  | _ => .error (.unreadable (key ++ " must be str or None"))

def Ledger.fromDict (d : Dict) : Except StoreError Ledger :=
  let missing := requiredKeys.filter fun key => !d.has key
  if missing ≠ [] then .error (.unreadable ("Missing ledger keys: " ++ showKeys missing))
  else do
    let looksCompleted ← readCount d "looks_completed"
    let alphaSpent ← readAlpha d
    let livedSeconds ← readSeconds d
    let livedTicks ← readCount d "lived_ticks"
    let individuated ← readFlag d "individuated"
    let inconclusiveAlerted ← readFlag d "inconclusive_alerted"
    let lastLookConditionsDigest ← readText d "last_look_conditions_digest"
    let latchedAt ← readText d "latched_at"
    let latchedReportId ← readText d "latched_report_id"
    let inconclusiveSince ← readText d "inconclusive_since"
    let lastLookAt ← readText d "last_look_at"
    let conditionsAlertedReference ← readText d "conditions_alerted_reference"
    let lastInconclusiveReason ← readText d "last_inconclusive_reason"
    return {
      referenceId := d.get "reference_id", looksCompleted, alphaSpent, lastLookConditionsDigest,
      livedSeconds, livedTicks, individuated, latchedAt, latchedReportId, inconclusiveSince,
      inconclusiveAlerted, lastLookAt, conditionsAlertedReference, lastInconclusiveReason }

/-- What the ledger's path holds: nothing, a file that does not read, decrypt or parse, or the
value that its text stands for. -/
inductive LedgerFile where
  | absent
  | faulty (message : String)
  | json (v : Json)
  deriving DecidableEq

/-- `type(v).__name__`. -/
def typeName : Json → String
  | .null => "NoneType"
  | .bool _ => "bool"
  | .int _ => "int"
  | .float _ => "float"
  | .str _ => "str"
  | .arr _ => "list"
  | .obj _ => "dict"

/-- Load the ledger, or none if it is absent. -/
def loadLedger (path : String) : LedgerFile → Except StoreError (Option Ledger)
  | .absent => .ok none
  | .faulty message => .error (.unreadable message)
  | .json (.obj d) => (Ledger.fromDict d).map some
  | .json v =>
    .error (.unreadable ("Expected JSON object in " ++ path ++ ", got " ++ typeName v))

/-- The float `1e-15`. -/
def alphaTolerance : ℚ := Rounding.binary64 (1 / 10 ^ 15)

/-- The float `1e-9`. -/
def secondsTolerance : ℚ := Rounding.binary64 (1 / 10 ^ 9)

def checkCount (field : String) (old new : PyInt) : Except StoreError Unit :=
  if new.value < old.value then .error (.regression (.value field (.int old) (.int new)))
  else .ok ()

/-- `new < old - tolerance` is a regression. -/
def checkAmount (field : String) (tolerance : ℚ) (old new : PyNumber) : Except StoreError Unit :=
  match old.subFloat tolerance with
  | .error e => .error (.python e)
  | .ok least =>
    if new.value.lt least then .error (.regression (.value field old new)) else .ok ()

def checkLatch (old new : Bool) : Except StoreError Unit :=
  if old && !new then .error (.regression .latchCleared) else .ok ()

def checkForward (old new : Ledger) : Except StoreError Unit := do
  checkCount "looks_completed" old.looksCompleted new.looksCompleted
  checkAmount "alpha_spent" alphaTolerance old.alphaSpent new.alphaSpent
  checkLatch old.individuated new.individuated
  checkCount "lived_ticks" old.livedTicks new.livedTicks
  checkAmount "lived_seconds" secondsTolerance old.livedSeconds new.livedSeconds

/-- The steps of `_write_encrypted_json`. -/
inductive WriteStep where
  | makeParent
  | encrypt
  | makeTemp
  | writeTemp
  | replace
  | chmod
  deriving DecidableEq

/-- One call: what it is to save and what fails around it. -/
structure SaveCall where
  new : Ledger
  existsFails : Bool := false
  readFails : Option String := none
  writeFails : Option WriteStep := none

/-- How a call ends: its result, whether it reached the replacement, and the file it leaves. -/
structure Outcome where
  result : Except StoreError Unit
  replaced : Bool
  file : LedgerFile

/-- Atomically write a ledger: only a fault of the last step comes after the replacement. -/
def writeEncryptedJson (file : LedgerFile) (new : Ledger) : Option WriteStep → Outcome
  | none => ⟨.ok (), true, .json (.obj new.toDict)⟩
  | some .chmod => ⟨.error (.python .osError), true, .json (.obj new.toDict)⟩
  | some _ => ⟨.error (.python .osError), false, file⟩

/-- The comparison with the stored ledger, where a file exists. -/
def checkStored (path : String) (file : LedgerFile) (call : SaveCall) : Except StoreError Unit :=
  match file, call.readFails with
  | .absent, _ => .ok ()
  | _, some message => .error (.unreadable message)
  | file, none => do
    match ← loadLedger path file with
    | some old => checkForward old call.new
    | none => return ()

/-- What comes before the write. -/
def beforeWrite (path : String) (file : LedgerFile) (call : SaveCall) : Except StoreError Unit := do
  requireFinite call.new.alphaSpent (.store "alpha_spent is not finite")
  requireFinite call.new.livedSeconds (.store "lived_seconds is not finite")
  if call.existsFails then .error (.python .osError) else checkStored path file call

/-- Persist the ledger only if it does not regress any stored value. -/
def saveLedger (path : String) (file : LedgerFile) (call : SaveCall) : Outcome :=
  match beforeWrite path file call with
  | .error e => ⟨.error e, false, file⟩
  | .ok () => writeEncryptedJson file call.new call.writeFails

/-- The file after a sequence of calls. -/
def saves (path : String) : LedgerFile → List SaveCall → LedgerFile
  | file, [] => file
  | file, call :: calls => saves path (saveLedger path file call).file calls

/-- How many of the calls replaced the file. -/
def replacements (path : String) : LedgerFile → List SaveCall → ℕ
  | _, [] => 0
  | file, call :: calls =>
    let outcome := saveLedger path file call
    (if outcome.replaced then 1 else 0) + replacements path outcome.file calls

end Kaine.IndividuationStore
