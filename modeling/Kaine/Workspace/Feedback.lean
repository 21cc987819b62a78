import Kaine.Cycle.Types
import Kaine.Lib.Balance
import Kaine.Lib.Transition

/-! The workspace feedback controller and the gains it moves (`kaine/workspace/feedback.py`).
The content level, which reads the gains and writes none, is left out; a call into it is an
argument that says whether it raises. -/
namespace Kaine.Feedback
open Py Bus

inductive FeedbackArm where
  | off
  | headOnly
  | headGain
  | full
  | matchedRandom
  deriving DecidableEq

inductive Processor where
  | vision
  | audition
  | interoception
  deriving DecidableEq

instance : Fintype Processor := ⟨{.vision, .audition, .interoception}, fun p => by cases p <;> simp⟩

def feedbackArms : List (String × FeedbackArm) :=
  [("off", .off), ("head_only", .headOnly), ("head_gain", .headGain), ("full", .full),
    ("matched_random", .matchedRandom)]

def processors : List Processor := [.vision, .audition, .interoception]

/-- The processors in the order of their names. -/
def sortedProcessors : List Processor := [.audition, .interoception, .vision]

def Processor.name : Processor → String
  | vision => "vision"
  | audition => "audition"
  | interoception => "interoception"

def reportType : Processor → String
  | .vision => "vision.report"
  | .audition => "audition.perception"
  | .interoception => "interoception.report"

def sequencePredictionDim : ℕ := 24

def allowedKeys : List String :=
  ["enabled", "arm", "pi_min", "pi_max", "disagreement_threshold", "conflict_error_ratio",
    "gain_step", "gain_relax_s", "refractory_s", "head_learning_rate"]

/-- What a `FeedbackSettingsError` is raised for. -/
inductive SettingsError where
  | notMapping
  | unknownKeys (keys : List String)
  | enabledNotBool
  | unknownArm
  | notNumber (name : String)
  | notFinite (name : String)
  | violates (constraint : String)
  deriving DecidableEq

structure Settings where
  arm : FeedbackArm
  piMin : ℚ := 4 / 5
  piMax : ℚ := 5 / 4
  disagreementThreshold : ℚ := 2
  conflictErrorRatio : ℚ := 2
  gainStep : ℚ := 1 / 10
  gainRelaxS : ℚ := 10
  refractoryS : ℚ := 10
  headLearningRate : ℚ := 1 / 1000
  deriving DecidableEq

/-- `str.strip`. -/
def strip (s : String) : String :=
  String.ofList (((s.toList.dropWhile isSpace).reverse.dropWhile isSpace).reverse)

/-- The arm by its stripped, lowered name; a value that is no string names none. -/
def readArm (v : Json) : Except SettingsError FeedbackArm :=
  match v with
  | .str s =>
    match feedbackArms.lookup (strip s).toLower with
    | some arm => .ok arm
    | none => .error .unknownArm
  | _ => .error .unknownArm

def readEnabled : Json → Except SettingsError Bool
  | .bool b => .ok b
  | _ => .error .enabledNotBool

def toFloat (name : String) : Json → Except SettingsError ℚ
  | .int n =>
    match PyFloat.ofInt n with
    | .ok _ => .ok n
    | .error _ => .error (.notNumber name)
  | .float (.fin q) => .ok q
  | .float _ => .error (.notFinite name)
  | _ => .error (.notNumber name)

/-- One numeric key, with its default. -/
def readNumber (sect : Dict) (name : String) (default : ℚ) : Except SettingsError ℚ :=
  toFloat name (Dict.getD sect name (.float (.fin default)))

def readNumbers (arm : FeedbackArm) (sect : Dict) : Except SettingsError Settings := do
  let piMin ← readNumber sect "pi_min" (4 / 5)
  let piMax ← readNumber sect "pi_max" (5 / 4)
  let disagreementThreshold ← readNumber sect "disagreement_threshold" 2
  let conflictErrorRatio ← readNumber sect "conflict_error_ratio" 2
  let gainStep ← readNumber sect "gain_step" (1 / 10)
  let gainRelaxS ← readNumber sect "gain_relax_s" 10
  let refractoryS ← readNumber sect "refractory_s" 10
  let headLearningRate ← readNumber sect "head_learning_rate" (1 / 1000)
  return { arm, piMin, piMax, disagreementThreshold, conflictErrorRatio, gainStep, gainRelaxS,
           refractoryS, headLearningRate }

/-- The constraints in the order they are checked. -/
def constraints (s : Settings) : List (String × Bool) :=
  [("pi_min must satisfy 0 < pi_min <= 1", 0 < s.piMin && s.piMin ≤ 1),
   ("pi_max must satisfy pi_max >= 1", 1 ≤ s.piMax),
   ("disagreement_threshold must be > 0", 0 < s.disagreementThreshold),
   ("conflict_error_ratio must be > 0", 0 < s.conflictErrorRatio),
   ("gain_step must be > 0", 0 < s.gainStep),
   ("gain_relax_s must be > 0", 0 < s.gainRelaxS),
   ("refractory_s must be >= 0", 0 ≤ s.refractoryS),
   ("head_learning_rate must be > 0", 0 < s.headLearningRate)]

def checkConstraints (s : Settings) : Except SettingsError Unit :=
  match (constraints s).find? fun c => !c.2 with
  | some c => .error (.violates c.1)
  | none => .ok ()

def checkKeys (sect : Dict) : Except SettingsError Unit :=
  let unknown := (sect.map Prod.fst).filter (· ∉ allowedKeys)
  if unknown = [] then .ok () else .error (.unknownKeys unknown)

def fromSection : Json → Except SettingsError (Option Settings)
  | .null => .ok none
  | .obj sect => do
    checkKeys sect
    let enabled ← readEnabled (Dict.getD sect "enabled" (.bool false))
    let arm ← readArm (Dict.getD sect "arm" (.str "full"))
    let settings ← readNumbers arm sect
    checkConstraints settings
    return if !enabled || arm = .off then none else some settings
  | _ => .error .notMapping

/-- `_is_usable_number`, with the number; `math.isfinite` raises on an integer too large. -/
def usableNumber : Json → Except PyError (Option ℚ)
  | .int n =>
    match PyFloat.ofInt n with
    | .ok _ => .ok (some n)
    | .error e => .error e
  | .float (.fin q) => .ok (some q)
  | _ => .ok none

/-- `all(usable)` over a list, with the numbers. -/
def usableNumbers : List Json → Except PyError (Option (List ℚ))
  | [] => .ok (some [])
  | v :: vs => do
    match ← usableNumber v with
    | none => return none
    | some q => return (← usableNumbers vs).map (q :: ·)

/-- A value under one processor's name in a preserved snapshot. -/
inductive GainValue (K : Type) where
  | int (n : ℤ)
  | float (x : K)
  /-- A missing key, a bool, a NaN or an infinity, or no number at all. -/
  | other

structure Info (K : Type) where
  pwe : K
  ratio : ℚ
  disagreement : Option ℚ
  gain : K

inductive EpisodeKind where
  | precision
  | conflict
  | random
  deriving DecidableEq

structure Episode (K : Type) where
  kind : EpisodeKind
  conflicting : Option Processor
  toward : Option Processor
  away : Option Processor
  delta : K

structure Controller (K ρ : Type) where
  settings : Settings
  /-- The generator, which only the matched random arm draws from. -/
  rng : ρ
  gains : Processor → K
  lastTime : Option K := none
  /-- None is minus infinity. -/
  refractoryUntil : Processor → Option K := fun _ => none
  seen : Finset Processor := ∅
  sequencePrediction : Option (List ℚ) := none

structure FeedbackResult (K : Type) where
  arm : FeedbackArm
  gains : Processor → K
  sequencePrediction : Option (List ℚ)
  episodes : List (Episode K)

section
variable {K ρ : Type} [Field K] [LinearOrder K]

/-- The constructor; `seeded` is the generator that a seed starts. -/
def init (seeded : Option ℤ → ρ) (settings : Settings) (seed : Option ℤ) :
    Except PyError (Controller K ρ) :=
  if settings.arm = .matchedRandom && seed.isNone then .error .valueError
  else .ok { settings, rng := seeded seed, gains := fun _ => 1 }

/-- The value that replaces a gain, none where the old gain stays. -/
def acceptGain (settings : Settings) : GainValue K → Except PyError (Option K)
  | .int n =>
    match PyFloat.ofInt n with
    | .ok _ => .ok (if settings.piMin ≤ n ∧ (n : ℚ) ≤ settings.piMax then some (n : K) else none)
    | .error e => .error e
  | .float x => .ok (if (settings.piMin : K) ≤ x ∧ x ≤ (settings.piMax : K) then some x else none)
  | .other => .ok none

/-- The loop of a restore, with the gains it has reached when it ends or raises. -/
def loadGains (settings : Settings) (values : Processor → GainValue K) :
    List Processor → (Processor → K) → Except PyError Unit × (Processor → K)
  | [], gains => (.ok (), gains)
  | p :: ps, gains =>
    match acceptGain settings (values p) with
    | .error e => (.error e, gains)
    | .ok none => loadGains settings values ps gains
    | .ok (some x) => loadGains settings values ps (Function.update gains p x)

/-- A restore; `none` is a `gains` entry that is no dict. -/
def loadStateDict (values : Option (Processor → GainValue K)) (content : Except PyError Unit)
    (c : Controller K ρ) : Except PyError Unit × Controller K ρ :=
  match values with
  | none => (.ok (), c)
  | some values =>
    let loaded := loadGains c.settings values processors c.gains
    (do loaded.1; content, { c with gains := loaded.2 })

/-- One candidate event. -/
def observeCandidate (event : Event) (c : Controller K ρ) :
    Except PyError Unit × Controller K ρ :=
  let c := match processors.find? fun p => event.source = p.name && event.type = reportType p with
    | some p => { c with seen := insert p c.seen }
    | none => c
  if event.source = "sequence" && event.type = "sequence.report" then
    match Dict.get event.payload "predicted_next_feature_vector" with
    | .arr prediction =>
      if prediction.length = sequencePredictionDim then
        match usableNumbers prediction with
        | .error e => (.error e, c)
        | .ok none => (.ok (), c)
        | .ok (some numbers) => (.ok (), { c with sequencePrediction := some numbers })
      else (.ok (), c)
    | _ => (.ok (), c)
  else (.ok (), c)

def observeCandidates : List (String × Event) → Controller K ρ →
    Except PyError Unit × Controller K ρ
  | [], c => (.ok (), c)
  | (_, event) :: events, c =>
    match observeCandidate event c with
    | (.error e, c) => (.error e, c)
    | (.ok (), c) => observeCandidates events c

/-- Relaxation towards one by the factor that the elapsed time gives. -/
def relax (factor now : K) (c : Controller K ρ) : Controller K ρ :=
  match c.lastTime with
  | none => { c with lastTime := some now }
  | some last =>
    if now - last ≤ 0 then c
    else { c with gains := Balance.contract 1 factor c.gains, lastTime := some now }

def shift (up down : Processor) (c : Controller K ρ) : K × Controller K ρ :=
  let delta := max 0 (min (min (c.settings.gainStep : K) ((c.settings.piMax : K) - c.gains up))
    (c.gains down - (c.settings.piMin : K)))
  (delta, { c with gains := Balance.transfer c.gains up down delta })

/-- The first selected report of a processor that reaches the access threshold. -/
def accessed (snapshot : WorkspaceSnapshot PyFloat) (p : Processor) : Option Event :=
  (snapshot.selectedEvents.find? fun (entryId, event) =>
    event.source = p.name && event.type = reportType p &&
      snapshot.metadata.accessThreshold.all fun threshold =>
        threshold.le ((snapshot.salienceScores.lookup entryId).getD (.fin event.salience))).map
    Prod.snd

def eligible (c : Controller K ρ) (snapshot : WorkspaceSnapshot PyFloat) (p : Processor) :
    Except PyError (Option (Info K)) :=
  match accessed snapshot p with
  | none => .ok none
  | some event =>
    match (Dict.get event.payload "workspace_feedback").asDict with
    | none => .ok none
    | some feedback => do
      match ← usableNumber (Dict.get feedback "error_ratio") with
      | none => return none
      | some ratio =>
        if ratio < 0 then return none
        else
          let reported ← usableNumber (Dict.get feedback "gain")
          let disagreement ← usableNumber (Dict.get feedback "disagreement")
          let gain := (reported.map fun g => (g : K)).getD (c.gains p)
          return some ⟨gain * (ratio : K), ratio, disagreement, gain⟩

/-- The eligible processors in their fixed order. -/
def eligibleSources (c : Controller K ρ) (snapshot : WorkspaceSnapshot PyFloat) :
    Except PyError (List (Processor × Info K)) := do
  let rows ← processors.mapM fun p => return (← eligible c snapshot p).map fun info => (p, info)
  return rows.reduceOption

/-- Whether a processor's refractory interval is over. -/
def refractoryOver (now : K) (c : Controller K ρ) (p : Processor) : Bool :=
  (c.refractoryUntil p).all fun until_ => until_ ≤ now

def startRefractory (now : K) (p : Processor) (c : Controller K ρ) : Controller K ρ :=
  { c with refractoryUntil :=
      Function.update c.refractoryUntil p (some (now + (c.settings.refractoryS : K))) }

/-- The precision arm: gain moves from the worst eligible processor to the best. -/
def precisionMove (now : K) (rows : List (Processor × Info K)) (c : Controller K ρ) :
    List (Episode K) × Controller K ρ :=
  if rows.length < 2 then ([], c)
  else
    match rows.argmin fun row => row.2.pwe, rows.argmax fun row => row.2.pwe with
    | some (winner, _), some (loser, _) =>
      if winner ≠ loser && refractoryOver now c loser then
        let (delta, c) := shift winner loser c
        ([⟨.precision, none, some winner, some loser, delta⟩], startRefractory now loser c)
      else ([], c)
    | _, _ => ([], c)

/-- Whether an eligible processor conflicts with the others. -/
def conflicts (now : K) (c : Controller K ρ) (row : Processor × Info K) : Bool :=
  row.2.disagreement.any (fun d => c.settings.disagreementThreshold ≤ d) &&
    c.settings.conflictErrorRatio ≤ row.2.ratio && refractoryOver now c row.1

variable (sample : ρ → List Processor → (Processor × Processor) × ρ)

/-- One conflicting processor, in the conflict arms. -/
def conflictMove (now : K) (rows : List (Processor × Info K)) (c : Controller K ρ)
    (j : Processor) : Episode K × Controller K ρ :=
  let c := startRefractory now j c
  match (rows.filter fun row => row.1 ≠ j).argmin fun row => row.2.pwe with
  | none => (⟨.conflict, some j, none, none, 0⟩, c)
  | some (winner, _) =>
    if c.settings.arm = .full then
      let (delta, c) := shift winner j c
      (⟨.conflict, some j, some winner, some j, delta⟩, c)
    else
      let pool := if 2 ≤ c.seen.card then sortedProcessors.filter (· ∈ c.seen) else processors
      let ((toward, away), rng) := sample c.rng pool
      let (delta, c) := shift toward away { c with rng }
      (⟨.random, some j, some toward, some away, delta⟩, c)

/-- The loop over the eligible processors in the conflict arms. -/
def conflictMoves (now : K) (rows : List (Processor × Info K)) :
    List (Processor × Info K) → Controller K ρ → List (Episode K) × Controller K ρ
  | [], c => ([], c)
  | row :: rest, c =>
    if conflicts now c row then
      let (episode, c) := conflictMove sample now rows c row.1
      let (episodes, c) := conflictMoves now rows rest c
      (episode :: episodes, c)
    else conflictMoves now rows rest c

/-- The gain moves of one broadcast, by arm. -/
def moves (now : K) (rows : List (Processor × Info K)) (c : Controller K ρ) :
    List (Episode K) × Controller K ρ :=
  match c.settings.arm with
  | .headGain => precisionMove now rows c
  | .full | .matchedRandom => conflictMoves sample now rows rows c
  | .off | .headOnly => ([], c)

/-- A broadcast. What raises, raises after the relaxation and before any move. -/
def onBroadcast (factor : K) (content : Except PyError Unit) (snapshot : WorkspaceSnapshot PyFloat)
    (now : K) (c : Controller K ρ) :
    Except PyError (Option (FeedbackResult K)) × Controller K ρ :=
  let c := relax factor now c
  if snapshot.inhibited then (.ok none, c)
  else
    match (do content; eligibleSources c snapshot) with
    | .error e => (.error e, c)
    | .ok rows =>
      let (episodes, c) := moves sample now rows c
      (.ok (some ⟨c.settings.arm, c.gains, c.sequencePrediction, episodes⟩), c)

/-- The calls that reach a controller, with the factor that a relaxation turns out to apply. -/
inductive FeedbackOp (K : Type) where
  | observeCandidates (events : List (String × Event))
  | relax (factor now : K)
  | onBroadcast (factor : K) (content : Except PyError Unit)
      (snapshot : WorkspaceSnapshot PyFloat) (now : K)
  | loadStateDict (values : Option (Processor → GainValue K)) (content : Except PyError Unit)

def perform (op : FeedbackOp K) (c : Controller K ρ) : Controller K ρ :=
  match op with
  | .observeCandidates events => (observeCandidates events c).2
  | .relax factor now => relax factor now c
  | .onBroadcast factor content snapshot now =>
    (onBroadcast sample factor content snapshot now c).2
  | .loadStateDict values content => (loadStateDict values content c).2

/-- A relaxation factor is a power of e with a negative exponent. -/
def FactorOk : FeedbackOp K → Prop
  | .relax factor _ | .onBroadcast factor _ _ _ => 0 < factor ∧ factor ≤ 1
  | _ => True

def Step (c : Controller K ρ) (op : FeedbackOp K) (c' : Controller K ρ) : Prop :=
  FactorOk op ∧ c' = perform sample op c

end
end Kaine.Feedback
