import Kaine.LegacyNames

/-! How a merge of two snapshots combines the states of their modules: each learned-weight group
whole from one parent, the rest by the module's strategy (`kaine/lifecycle/manager.py`,
`kaine/lifecycle/strategies.py`). -/
namespace Kaine.Merge
open Py

/-- `MODULE_WEIGHT_GROUPS`: the keys of learned parameters with what they were trained against. -/
def moduleWeightGroups : List (String × List String) :=
  [("vision", ["forward_model", "encoder_model_id"]),
   ("audition", ["forward_model", "forward_model_features", "acoustic_forward_models"]),
   ("interoception",
    ["forward_model", "reservoir_seed", "feature_layout", "expected_error", "self_rhythm"]),
   ("sequence", ["pred_head", "reservoir_seed", "featurizer_layout"]),
   ("planning", ["learned", "posterior", "last_action"])]

/-- `MODULE_WEIGHT_PARAMETERS`: of each group, the learned parameters themselves. -/
def moduleWeightParameters : List (String × List String) :=
  [("vision", ["forward_model"]),
   ("audition", ["forward_model", "acoustic_forward_models"]),
   ("interoception", ["forward_model", "expected_error", "self_rhythm"]),
   ("sequence", ["pred_head"]),
   ("planning", ["learned", "posterior", "last_action"])]

inductive Parent where
  | a
  | b
  deriving DecidableEq

def Parent.text : Parent → String
  | .a => "a"
  | .b => "b"

def parentOfText (s : String) : Option Parent :=
  if s = "a" then some .a else if s = "b" then some .b else none

inductive MergeError where
  | raised (error : PyError)
  | worldModelChoiceRequired
  /-- For each module to choose for, the parents whose group holds learned parameters. -/
  | moduleWeightsChoiceRequired (holders : List (String × List Parent))
  | moduleMergeStrategy (module : String) (cause : PyError)
  | unmergedAdapters
  deriving DecidableEq

/-- What a caller can pass as `module_weights_from`. -/
inductive WeightsArg where
  | none
  | text (s : String)
  | mapping (items : List (Json × Json))
  | other

/-- A valid choice: for all modules, or for each module by its current name. -/
inductive WeightsChoice where
  | none
  | all (parent : Parent)
  | each (parents : List (String × Parent))
  deriving DecidableEq

def WeightsChoice.get : WeightsChoice → String → Option Parent
  | .none, _ => Option.none
  | .all parent, _ => some parent
  | .each parents, name => parents.lookup name

def normaliseItems (out : List (String × Parent)) :
    List (Json × Json) → Except PyError (List (String × Parent))
  | [] => .ok out
  | (.str rawName, parent) :: items =>
    let name := mapModuleKey rawName
    if (out.lookup name).isSome then .error .valueError
    else if (moduleWeightGroups.lookup name).isNone then .error .valueError
    else
      match parent with
      | .str s =>
        match parentOfText s with
        | some p => normaliseItems (out ++ [(name, p)]) items
        | none => .error .valueError
      | _ => .error .valueError
  | _ :: _ => .error .valueError

def normaliseWeightsChoice : WeightsArg → Except PyError WeightsChoice
  | .none => .ok .none
  | .text s =>
    match parentOfText s with
    | some p => .ok (.all p)
    | none => .error .valueError
  | .mapping items => (normaliseItems [] items).map .each
  | .other => .error .valueError

/-- The keys of a group that a state holds, none when it holds none of them. -/
def weightGroup (state : Json) (keys : List String) : Option Dict :=
  match state with
  | .obj d =>
    let group := keys.filterMap fun k => (d.lookup k).map fun v => (k, v)
    if group.isEmpty then none else some group
  | _ => none

def withoutGroup (state : Json) (keys : List String) : Json :=
  match state with
  | .obj d => .obj (d.filter fun kv => !keys.contains kv.1)
  | state => state

def serializeErrorKey : String := "_serialize_error"

def hasSerializeError (state : Json) : Bool :=
  match state with
  | .obj d => Dict.has d serializeErrorKey
  | _ => false

def withoutSerializeError (state : Json) : Json :=
  match state with
  | .obj d => .obj (Dict.erase d serializeErrorKey)
  | state => state

def hasParams (name : String) (group : Option Dict) : Bool :=
  ((moduleWeightParameters.lookup name).getD []).any fun k => group.any fun g => Dict.has g k

/-- The parents whose group holds learned parameters. -/
def holders (name : String) (groupA groupB : Option Dict) : List Parent :=
  (if hasParams name groupA then [.a] else []) ++ (if hasParams name groupB then [.b] else [])

/-- The bindings that both groups hold agree. -/
def bindingsAgree (name : String) (groupA groupB : Dict) : Bool :=
  let params := (moduleWeightParameters.lookup name).getD []
  groupA.all fun kv => params.contains kv.1 || !Dict.has groupB kv.1 ||
    Json.pyEq kv.2 (Dict.get groupB kv.1)

/-- The parent of a module's group and the reason, no parent where the caller must choose. -/
def weightSource (name : String) (groupA groupB : Option Dict) : Option Parent × String :=
  match groupA, groupB with
  | _, none => (some .a, "one-sided")
  | none, _ => (some .b, "one-sided")
  | some a, some b =>
    if Json.pyEq (.obj a) (.obj b) then (some .a, "equal")
    else
      match holders name groupA groupB with
      | [holder] =>
        if bindingsAgree name a b then (some holder, "one-sided") else (none, "chosen")
      | _ => (none, "chosen")

def pick {α : Type} (parent : Parent) (a b : α) : α :=
  match parent with
  | .a => a
  | .b => b

/-- A decided group: its parent, why, and the keys and values that parent holds. -/
structure Source where
  parent : Parent
  reason : String
  group : Option Dict

inductive Decision where
  | untouched
  | needsChoice (holders : List Parent)
  | taken (source : Source)

/-- Which parent a module's group comes from. -/
def decideGroup (choice : WeightsChoice) (name : String) (stateA stateB : Json) : Decision :=
  match moduleWeightGroups.lookup name with
  | none => .untouched
  | some keys =>
    let groupA := weightGroup stateA keys
    let groupB := weightGroup stateB keys
    if groupA.isNone && groupB.isNone then .untouched
    else
      let (parent, reason) := weightSource name groupA groupB
      match parent.or (choice.get name) with
      | none => .needsChoice (holders name groupA groupB)
      | some parent => .taken ⟨parent, reason, pick parent groupA groupB⟩

/-- The decisions over all names: what was decided, and what still needs a choice. -/
def decideAll (choice : WeightsChoice) (a b : Dict) :
    List String → List (String × Source) × List (String × List Parent)
  | [] => ([], [])
  | name :: names =>
    let (sources, needs) := decideAll choice a b names
    match decideGroup choice name (Dict.get a name) (Dict.get b name) with
    | .untouched => (sources, needs)
    | .needsChoice holders => (sources, (name, holders) :: needs)
    | .taken source => ((name, source) :: sources, needs)

def worldModelName : String := mapModuleKey "world_model"

/-- The parent that the world model's module state comes from. -/
def worldModelSource (aHas bHas : Bool) (worldModelFrom : Option Parent) (a b : Dict) :
    Parent × String :=
  let holder := if Dict.get a worldModelName ≠ .null then Parent.a else .b
  let source : Option Parent × String :=
    if aHas && bHas then (worldModelFrom, "chosen")
    else if aHas || bHas then (some (if aHas then .a else .b), "one-sided")
    else (none, "")
  match source with
  | (none, _) => (holder, "no world-model weights")
  | (some parent, reason) =>
    if Dict.get (pick parent a b) worldModelName = .null then
      (holder, "the weights' parent holds no module state")
    else (parent, reason)

/-- Two parent states, none of a parent without the module, to one state. -/
abbrev Strategy := Json → Json → Except PyError Dict

/-- A call of a module's strategy. -/
structure Call where
  module : String
  stateA : Json
  stateB : Json

/-- `d or {}`, for a state that is missing, false or a dict. -/
def orEmpty (state : Json) : Json := if state.truthy then state else .obj []

/-- The merged state of one module, and the calls its strategy saw. -/
def mergeModule (strategy : Strategy) (worldModel : Parent) (source : Option Source)
    (name : String) (stateA stateB : Json) : List Call × Except MergeError Json :=
  if name = worldModelName then ([], .ok (pick worldModel stateA stateB))
  else
    match moduleWeightGroups.lookup name with
    | none =>
      ([⟨name, stateA, stateB⟩],
        match strategy stateA stateB with
        | .ok state => .ok (.obj state)
        | .error _ => .ok (if stateA ≠ .null then stateA else orEmpty stateB))
    | some keys =>
      let restA := withoutGroup stateA keys
      let restB := withoutGroup stateB keys
      ([⟨name, restA, restB⟩],
        match strategy restA restB with
        | .error cause => .error (.moduleMergeStrategy name cause)
        | .ok state =>
          let rest := keys.foldl Dict.erase state
          match source with
          | none => .ok (.obj rest)
          | some ⟨_, _, some group⟩ => .ok (.obj (Dict.update rest group))
          | some ⟨_, _, none⟩ => .error (.raised .typeError))

/-- The loop over the sorted names; it stops at the first module that refuses. -/
def mergeModules (strategy : String → Strategy) (worldModel : Parent)
    (sources : List (String × Source)) (a b : Dict) :
    List String → List Call × Except MergeError Dict
  | [] => ([], .ok [])
  | name :: names =>
    match mergeModule (strategy name) worldModel (sources.lookup name) name (Dict.get a name)
      (Dict.get b name) with
    | (calls, .error e) => (calls, .error e)
    | (calls, .ok state) =>
      let (calls', modules) := mergeModules strategy worldModel sources a b names
      (calls ++ calls', modules.map fun modules => (name, state) :: modules)

end Kaine.Merge
