import Kaine.LegacyNames
import Kaine.Lib.Transition

/-! The stacked freeze control file and its mutators, from `kaine/cycle/control_state.py`. -/
namespace Kaine.Control
open Py

def overridableSources : List String := ["welfare", "development", "programme_end"]

/-- What stands at the control path. Bytes that cannot be read or parsed are `unreadable`. -/
inductive ControlFile where
  | missing
  | unreadable
  | json (v : Json)
  deriving DecidableEq

/-- One freeze: `source`, `reason` and `frozen_at`, and whatever else an older file holds. -/
abbrev Entry := Dict

/-- The single-slot view of the top of the stack. -/
structure View where
  frozen : Bool
  frozenAt : Json
  reason : Json
  source : Json
  deriving DecidableEq

structure CycleControl where
  frozen : Bool := false
  frozenAt : Json := .null
  reason : Json := .null
  source : Json := .str "operator"
  stack : List Entry := []
  deriving DecidableEq

def topView (stack : List Entry) : View :=
  match stack.getLast? with
  | none => ⟨false, .null, .null, .str "operator"⟩
  | some entry =>
    ⟨true, Dict.get entry "frozen_at", Dict.get entry "reason",
      Dict.getD entry "source" (.str "operator")⟩

def stateOf (stack : List Entry) : CycleControl :=
  let view := topView stack
  ⟨view.frozen, view.frozenAt, view.reason, view.source, stack⟩

def CycleControl.toDict (control : CycleControl) : Json :=
  .obj [("frozen", .bool control.frozen), ("frozen_at", control.frozenAt),
    ("reason", control.reason), ("source", control.source),
    ("stack", .arr (control.stack.map .obj))]

/-- The items of `data.get("stack") or ()`; none where iterating raises `TypeError`. -/
def iterStack (v : Json) : Option (List Json) :=
  if v.truthy then
    match v with
    | .arr xs => some xs
    | .str s => some (s.toList.map fun c => .str (String.singleton c))
    | .obj kvs => some (kvs.map fun kv => .str kv.1)
    | _ => none
  else some []

/-- A copy of one entry with its source under the current name. -/
def normalizeEntry (entry : Entry) : Entry :=
  match entry.lookup "source" with
  | some source => Dict.set entry "source" (mapFreezeSource source)
  | none => entry

/-- The one-entry stack of a legacy single-slot file. -/
def promoted (data : Dict) : Entry :=
  [("source", mapFreezeSource (Dict.getD data "source" (.str "operator"))),
   ("reason", Dict.get data "reason"), ("frozen_at", Dict.get data "frozen_at")]

def fromDict (data : Dict) : Option CycleControl := do
  let items ← iterStack (Dict.get data "stack")
  let stack := items.filterMap fun item => item.asDict.map normalizeEntry
  if stack.isEmpty && (Dict.get data "frozen").truthy then
    return stateOf [promoted data]
  else
    return stateOf stack

/-- The synthetic welfare freeze that stands for a file nobody can read. -/
def failClosedState (mtime : String) : CycleControl :=
  let entry : Entry := [("source", .str "welfare"),
    ("reason", .str "control file unreadable; treating as welfare freeze"),
    ("frozen_at", .str mtime)]
  ⟨true, .str mtime, .str "control file unreadable; treating as welfare freeze",
    .str "welfare", [entry]⟩

/-- What a mutator finds under the lock: a missing file is an empty object, and anything
that is not a JSON object is none. -/
def currentData : ControlFile → Option Dict
  | .missing => some []
  | .unreadable => none
  | .json v => v.asDict

/-- The control a file holds, none when it is corrupt. -/
def control (file : ControlFile) : Option CycleControl := currentData file >>= fromDict

def readControl (mtime : String) (file : ControlFile) : CycleControl :=
  match file with
  | .missing => {}
  | file => (control file).getD (failClosedState mtime)

/-- The locked read-modify-write. A corrupt file is left as it is. -/
def updateStack (mtime : String) (fn : List Entry → List Entry) (file : ControlFile) :
    CycleControl × ControlFile :=
  match control file with
  | none => (failClosedState mtime, file)
  | some c =>
    let state := stateOf (fn c.stack)
    (state, .json state.toDict)

def freezeEntry (reason : Json) (source now : String) : Entry :=
  [("source", .str source), ("reason", reason), ("frozen_at", .str now)]

def pushFreeze (mtime : String) (reason : Json) (source now : String) :
    ControlFile → CycleControl × ControlFile :=
  updateStack mtime fun stack => stack ++ [freezeEntry reason source now]

/-- Drop the topmost entry that a source commanded. -/
def popSource (source : String) (stack : List Entry) : List Entry :=
  (stack.reverse.eraseP fun e => Dict.get e "source" = .str source).reverse

def popFreeze (mtime : String) (source : Option String) :
    ControlFile → CycleControl × ControlFile :=
  updateStack mtime fun stack =>
    match source with
    | none => stack.dropLast
    | some source => popSource source stack

def standDown (mtime : String) (source : String) : ControlFile → CycleControl × ControlFile :=
  updateStack mtime fun stack => stack.filter fun e => Dict.get e "source" ≠ .str source

/-- A list or a dict cannot be a member of a Python set. -/
def hashable : Json → Bool
  | .arr _ | .obj _ => false
  | _ => true

/-- The file that a named override writes, or the error that leaves it untouched. -/
def override (sources : List String) (file : ControlFile) : Except PyError CycleControl :=
  if sources = [] then .error .valueError
  else if sources.any fun s => s ∉ overridableSources then .error .valueError
  else
    match control file with
    | none => if "welfare" ∈ sources then .ok {} else .error .lookupError
    | some c =>
      let active := c.stack.map fun e => Dict.getD e "source" (.str "operator")
      if active.any fun s => !hashable s then .error .typeError
      else if sources.any fun s => Json.str s ∉ active then .error .lookupError
      else .ok (stateOf (c.stack.filter fun e => Dict.get e "source" ∉ sources.map Json.str))

def unfreezeForBoot (mtime : String) (file : ControlFile) : CycleControl × ControlFile :=
  match file with
  | .missing => updateStack mtime (fun _ => []) file
  | file =>
    match control file with
    | none => (failClosedState mtime, file)
    | some _ => updateStack mtime (fun stack =>
        stack.filter fun e => Dict.get e "source" = .str "welfare") file

def unfreeze (mtime : String) : ControlFile → CycleControl × ControlFile :=
  updateStack mtime fun _ => []

/-- The calls that reach the file, reads included. -/
inductive ControlOp where
  | pushFreeze (reason : Json) (source now : String)
  | popFreeze (source : Option String)
  | standDown (source : String)
  | override (sources : List String)
  | unfreezeForBoot
  | unfreeze
  | readControl

/-- The file after a call. -/
def perform (mtime : String) (op : ControlOp) (file : ControlFile) : ControlFile :=
  match op with
  | .pushFreeze reason source now => (pushFreeze mtime reason source now file).2
  | .popFreeze source => (popFreeze mtime source file).2
  | .standDown source => (standDown mtime source file).2
  | .override sources =>
    match override sources file with
    | .error _ => file
    | .ok state => .json state.toDict
  | .unfreezeForBoot => (unfreezeForBoot mtime file).2
  | .unfreeze => (unfreeze mtime file).2
  | .readControl => file

/-- One call, whatever the time stamp of the file. -/
def Step (file : ControlFile) (op : ControlOp) (file' : ControlFile) : Prop :=
  ∃ mtime, file' = perform mtime op file

end Kaine.Control
