import Kaine.Bus.Schema
import Kaine.Lib.PyNumber
import Kaine.Lib.SortBy
import Mathlib.Data.List.DropRight

/-! The goal ledger of the affect module (`kaine/modules/affect/goals.py`). The relevance of a goal
to a text is left out. -/
namespace Kaine.Goals
open Py

/-- A float that `math.isfinite` accepts. -/
abbrev FiniteFloat := {q : ℚ // Rounding.IsBinary64 q}

def FiniteFloat.ofFloat : PyFloat → Option FiniteFloat
  | .fin q => some ⟨Rounding.binary64 q, Rounding.isBinary64_binary64 q⟩
  | .nan | .negInf | .posInf => none

theorem binary64_le_one {q : ℚ} (h : q ≤ 1) : Rounding.binary64 q ≤ 1 := by
  have hone : Rounding.IsBinary64 ((1 : ℤ) : ℚ) := Rounding.isBinary64_intCast (by norm_num)
  have hmono := Rounding.nearest_binary64.mono h
  have heq := Rounding.nearest_binary64.eq_self hone
  rw [Int.cast_one] at heq
  rwa [heq] at hmono

/-- A float in [0, 1]. -/
abbrev UnitFloat := {q : ℚ // Rounding.IsBinary64 q ∧ 0 ≤ q ∧ q ≤ 1}

def UnitFloat.ofFloat : PyFloat → Option UnitFloat
  | .fin q =>
    if h : 0 ≤ q ∧ q ≤ 1 then
      some ⟨Rounding.binary64 q, Rounding.isBinary64_binary64 q, Rounding.binary64_nonneg h.1,
        binary64_le_one h.2⟩
    else none
  | .nan | .negInf | .posInf => none

/-- `str.strip`. -/
def strip (s : String) : String :=
  String.ofList ((s.toList.dropWhile Bus.isSpace).rdropWhile Bus.isSpace)

theorem strip_strip (s : String) : strip (strip s) = strip s := by
  have hkeep : ∀ l : List Char, l.dropWhile Bus.isSpace = l →
      (l.rdropWhile Bus.isSpace).dropWhile Bus.isSpace = l.rdropWhile Bus.isSpace := by
    intro l hl
    have hfront : l.rdropWhile Bus.isSpace <+: l := List.rdropWhile_prefix Bus.isSpace l
    rw [List.dropWhile_eq_self_iff] at hl ⊢
    intro hpos
    rw [hfront.getElem hpos]
    exact hl (hpos.trans_le hfront.length_le)
  unfold strip
  rw [String.toList_ofList, hkeep _ (List.dropWhile_idempotent _ _), List.rdropWhile_idempotent]

/-- A string that is not empty. -/
abbrev Name := {s : String // s ≠ ""}

def Name.read : Json → Option Name
  | .str s => if h : s ≠ "" then some ⟨s, h⟩ else none
  | _ => none

/-- A stripped string that is not empty. -/
abbrev Description := {s : String // s ≠ "" ∧ strip s = s}

def Description.ofString (s : String) : Option Description :=
  if h : strip s ≠ "" then some ⟨strip s, h, strip_strip s⟩ else none

def Description.read : Json → Option Description
  | .str s => Description.ofString s
  | _ => none

inductive GoalState where
  | active | completed | abandoned
  deriving DecidableEq

namespace GoalState

def text : GoalState → String
  | active => "active"
  | completed => "completed"
  | abandoned => "abandoned"

/-- `GoalState(v)`, none where it raises. -/
def read : Json → Option GoalState
  | .str s => [active, completed, abandoned].find? (·.text = s)
  | _ => none

end GoalState

structure Goal where
  id : Name
  description : Description
  priority : UnitFloat
  state : GoalState := .active
  createdAt : FiniteFloat
  completedAt : Option FiniteFloat := none
  drive : Option Name := none
  likelihood : Option UnitFloat := none
  deriving DecidableEq

namespace Goal

def finished (goal : Goal) : Bool := goal.state ≠ .active

/-- The goal as a transition leaves it. -/
def finish (goal : Goal) (state : GoalState) (now : FiniteFloat) : Goal :=
  { goal with state := state, completedAt := some now }

/-- When it was finished: a goal without that time counts as oldest. -/
def finishedAt (goal : Goal) : WithBot FiniteFloat :=
  match goal.completedAt with
  | none => ⊥
  | some t => (t : WithBot FiniteFloat)

/-- The order in which finished goals go. -/
def age (goal : Goal) : WithBot FiniteFloat ×ₗ FiniteFloat ×ₗ String :=
  toLex (goal.finishedAt, toLex (goal.createdAt, goal.id.val))

end Goal

/-- The dict of goals: each under its own id. -/
structure GoalTable where
  entries : List (String × Goal)
  nodup : (entries.map Prod.fst).Nodup
  keyed : ∀ kv ∈ entries, kv.2.id.val = kv.1
  deriving DecidableEq

namespace GoalTable

def empty : GoalTable := ⟨[], List.nodup_nil, fun _ h => (List.not_mem_nil h).elim⟩

def get (goals : GoalTable) (goalId : String) : Option Goal := goals.entries.lookup goalId

def put (goals : GoalTable) (goal : Goal) : GoalTable where
  entries := Assoc.assign goals.entries goal.id.val goal
  nodup := Assoc.nodup_assign goals.nodup
  keyed := fun kv hkv => by
    rcases Assoc.mem_of_mem_assign hkv with rfl | hkv
    · rfl
    · exact goals.keyed kv hkv

/-- The table without the goals that `p` rejects. -/
def keep (goals : GoalTable) (p : String × Goal → Bool) : GoalTable where
  entries := goals.entries.filter p
  nodup := goals.nodup.sublist (List.filter_sublist.map _)
  keyed := fun kv hkv => goals.keyed kv (List.mem_of_mem_filter hkv)

def finished (goals : GoalTable) : List (String × Goal) := goals.entries.filter (·.2.finished)

end GoalTable

structure GoalLedger where
  goals : GoalTable := .empty
  completedTotal : ℕ := 0
  abandonedTotal : ℕ := 0
  deriving DecidableEq

def maxFinished : ℕ := 256

namespace GoalLedger

/-- The id is a new `uuid4` and `now` the clock. -/
def add (ledger : GoalLedger) (gid : Name) (description : String) (priority : PyFloat)
    (drive : Option String) (likelihood : Option PyFloat) (now : FiniteFloat) :
    Except PyError (Goal × GoalLedger) :=
  match UnitFloat.ofFloat priority, Description.ofString description,
    drive.mapM (fun s => Name.read (.str s)), likelihood.mapM UnitFloat.ofFloat with
  | some priority, some description, some drive, some likelihood =>
    let goal : Goal :=
      { id := gid, description := description, priority := priority, createdAt := now,
        drive := drive, likelihood := likelihood }
    .ok (goal, { ledger with goals := ledger.goals.put goal })
  | _, _, _, _ => .error .valueError

def pruneFinished (goals : GoalTable) : GoalTable :=
  if goals.finished.length ≤ maxFinished then goals
  else
    let oldest := (SortBy.sortBy (fun kv : String × Goal => kv.2.age) goals.finished).take
      (goals.finished.length - maxFinished)
    goals.keep fun kv => kv.1 ∉ oldest.map Prod.fst

def transition (ledger : GoalLedger) (goalId : String) (newState : GoalState) (now : FiniteFloat) :
    Except PyError (Goal × GoalLedger) :=
  match ledger.goals.get goalId with
  | none => .error .lookupError
  | some old =>
    if old.state ≠ .active then .ok (old, ledger)
    else
      let new := old.finish newState now
      .ok (new,
        { goals := pruneFinished (ledger.goals.put new)
          completedTotal := ledger.completedTotal + if newState = .completed then 1 else 0
          abandonedTotal := ledger.abandonedTotal + if newState = .abandoned then 1 else 0 })

def complete (ledger : GoalLedger) (goalId : String) (now : FiniteFloat) :
    Except PyError (Goal × GoalLedger) :=
  ledger.transition goalId .completed now

def abandon (ledger : GoalLedger) (goalId : String) (now : FiniteFloat) :
    Except PyError (Goal × GoalLedger) :=
  ledger.transition goalId .abandoned now

def setLikelihood (ledger : GoalLedger) (goalId : String) (likelihood : PyFloat) :
    Except PyError (Goal × GoalLedger) :=
  match ledger.goals.get goalId with
  | none => .error .lookupError
  | some old =>
    match UnitFloat.ofFloat likelihood with
    | none => .error .valueError
    | some likelihood =>
      if old.state ≠ .active then .ok (old, ledger)
      else
        let new := { old with likelihood := some likelihood }
        .ok (new, { ledger with goals := ledger.goals.put new })

/-- The goals that `p` rejects, and the ledger without them. -/
def clear (ledger : GoalLedger) (p : String × Goal → Bool) : List Goal × GoalLedger :=
  ((ledger.goals.entries.filter (!p ·)).map Prod.snd, { ledger with goals := ledger.goals.keep p })

def clearActive (ledger : GoalLedger) : List Goal × GoalLedger := ledger.clear (·.2.finished)

def clearActiveForDrive (ledger : GoalLedger) (drive : String) : List Goal × GoalLedger :=
  ledger.clear fun kv => kv.2.finished || kv.2.drive.map Subtype.val ≠ some drive

end GoalLedger

/-- Null for None. -/
def optional {A : Type} (f : A → Json) : Option A → Json
  | none => .null
  | some a => f a

def Goal.toDict (goal : Goal) : Dict :=
  [("id", .str goal.id.val), ("description", .str goal.description.val),
    ("priority", .float (.fin goal.priority.val)),
    ("state", .str goal.state.text), ("created_at", .float (.fin goal.createdAt.val)),
    ("completed_at", optional (fun t => .float (.fin t.val)) goal.completedAt),
    ("drive", optional (fun name => .str name.val) goal.drive),
    ("likelihood", optional (fun x => .float (.fin x.val)) goal.likelihood)]

def GoalLedger.toDict (ledger : GoalLedger) : Json :=
  .obj [("goals", .arr (ledger.goals.entries.map fun kv => .obj kv.2.toDict)),
    ("outcomes", .obj [("completed", .int ledger.completedTotal),
      ("abandoned", .int ledger.abandonedTotal)])]

section Load
variable {A B : Type}

/-- The checks of an entry that has passed those before: none where it is dropped. -/
def andThen (x : Except PyError (Option A)) (f : A → Except PyError (Option B)) :
    Except PyError (Option B) :=
  match x with
  | .error e => .error e
  | .ok none => .ok none
  | .ok (some a) => f a

variable (ofText : String → Option PyFloat)

/-- `float(v)` and the check of its range: an `OverflowError` is not caught. -/
def readNumber (check : PyFloat → Option A) (v : Json) : Except PyError (Option A) :=
  match v.toDouble ofText with
  | .ok x => .ok (check x)
  | .error .typeError | .error .valueError => .ok none
  | .error e => .error e

def readOptional (check : PyFloat → Option A) (v : Json) : Except PyError (Option (Option A)) :=
  match v with
  | .null => .ok (some none)
  | v => (readNumber ofText check v).map (Option.map some)

def readPriority (entry : Dict) : Except PyError (Option UnitFloat) :=
  match entry.lookup "priority" with
  | none => .ok none
  | some v => readNumber ofText UnitFloat.ofFloat v

def parseDrive (v : Json) : Option (Option Name) :=
  match v with
  | .null => some none
  | v => (Name.read v).map some

def parseLikelihood (v : Json) : Except PyError (Option (Option UnitFloat)) :=
    readOptional ofText UnitFloat.ofFloat v

/-- None where the entry is dropped. -/
def parseGoal (entry : Dict) : Except PyError (Option Goal) :=
  andThen (.ok (Name.read (Dict.get entry "id"))) fun gid =>
  andThen (.ok (Description.read (Dict.get entry "description"))) fun description =>
  andThen (readPriority ofText entry) fun priority =>
  andThen (.ok ((entry.lookup "state").bind GoalState.read)) fun state =>
  andThen (readNumber ofText FiniteFloat.ofFloat (Dict.getD entry "created_at" (.float (.fin 0))))
    fun createdAt =>
  andThen (readOptional ofText FiniteFloat.ofFloat (Dict.get entry "completed_at"))
    fun completedAt =>
  -- the likelihood is read also where the drive is invalid
  andThen (parseLikelihood ofText (Dict.get entry "likelihood")) fun likelihood =>
  andThen (.ok (parseDrive (Dict.get entry "drive"))) fun drive =>
    .ok (some ⟨gid, description, priority, state, createdAt, completedAt, drive, likelihood⟩)

def loadEntry (parsed : GoalTable) (entry : Json) : Except PyError GoalTable :=
  match entry with
  | .obj entry =>
    match parseGoal ofText entry with
    | .error e => .error e
    | .ok none => .ok parsed
    | .ok (some goal) => .ok (parsed.put goal)
  | _ => .ok parsed

/-- A total as it was saved. -/
def readTotal : Json → Option ℕ
  | .int n => if 0 ≤ n then some n.toNat else none
  | _ => none

def setCounters (data : Dict) (parsed : GoalTable) : GoalLedger :=
  let counted : GoalLedger :=
    { goals := parsed
      completedTotal := (parsed.entries.filter (·.2.state = .completed)).length
      abandonedTotal := (parsed.entries.filter (·.2.state = .abandoned)).length }
  match Dict.get data "outcomes" with
  | .obj outcomes =>
    match readTotal (Dict.get outcomes "completed"), readTotal (Dict.get outcomes "abandoned") with
    | some completed, some abandoned => ⟨parsed, completed, abandoned⟩
    | _, _ => counted
  | _ => counted

def GoalLedger.loadDict (ledger : GoalLedger) (data : Json) : Except PyError GoalLedger :=
  match data with
  | .obj data =>
    match Dict.get data "goals" with
    | .arr goals => (goals.foldlM (loadEntry ofText) GoalTable.empty).map (setCounters data)
    | _ => .ok ledger
  | _ => .ok ledger

def fromDict (data : Json) : Except PyError GoalLedger := ({} : GoalLedger).loadDict ofText data

end Load

inductive GoalStep where
  | add (gid : Name) (description : String) (priority : PyFloat) (drive : Option String)
    (likelihood : Option PyFloat) (now : FiniteFloat)
  | complete (goalId : String) (now : FiniteFloat)
  | abandon (goalId : String) (now : FiniteFloat)
  | setLikelihood (goalId : String) (likelihood : PyFloat)
  | clearActive
  | clearActiveForDrive (drive : String)
  | restore

/-- A call that raises leaves the ledger as it was. -/
def GoalLedger.orKeep (ledger : GoalLedger) : Except PyError (Goal × GoalLedger) → GoalLedger
  | .ok result => result.2
  | .error _ => ledger

/-- The ledger after a step; `restore` saves it and loads what was saved into a new one. -/
def GoalStep.perform (ofText : String → Option PyFloat) (ledger : GoalLedger) :
    GoalStep → GoalLedger
  | .add gid description priority drive likelihood now =>
    ledger.orKeep (ledger.add gid description priority drive likelihood now)
  | .complete goalId now => ledger.orKeep (ledger.complete goalId now)
  | .abandon goalId now => ledger.orKeep (ledger.abandon goalId now)
  | .setLikelihood goalId likelihood => ledger.orKeep (ledger.setLikelihood goalId likelihood)
  | .clearActive => ledger.clearActive.2
  | .clearActiveForDrive drive => (ledger.clearActiveForDrive drive).2
  | .restore =>
    match fromDict ofText ledger.toDict with
    | .ok restored => restored
    | .error _ => {}

def ledgerAfter (ofText : String → Option PyFloat) (steps : List GoalStep) : GoalLedger :=
  steps.foldl (GoalStep.perform ofText) {}

end Kaine.Goals
