import Kaine.Bus.Schema
import Kaine.Effectors.Programme
import Mathlib.Data.Finset.Lattice.Basic

/-! The `[stimulus_control]` section: the bounds on the entity's control of its programme, and the
actions that it declares. The entity's control of its programme: the controller of the shared clock,
and the effector that takes the commands. `now` reads the entity clock, `mono` the clock of the
playlist, as rational seconds. -/
namespace Kaine.Effectors
open Py

def pauseAction : String := "pause"
def resumeAction : String := "resume"
def nextAction : String := "next"
def previousAction : String := "previous"
def louderAction : String := "louder"
def quieterAction : String := "quieter"
def channelPrefix : String := "channel:"

def baseActions : List String :=
  [pauseAction, resumeAction, nextAction, previousAction, louderAction, quieterAction]

def seekActions : List String := [nextAction, previousAction]

/-- The welfare bound on the programme gain. -/
def gainMaxBoundDb : ℚ := 6

/-- The welfare bound on the share of the trailing awake hour that the entity's pauses may hold. -/
def pauseShareMaxBound : ℚ := 1 / 4

def stageMinimal : String := "minimal"

def configKeys : List String :=
  ["enabled", "stage", "min_interval_s", "seeks_per_awake_hour", "pause_max_s", "gain_step_db",
    "gain_max_db", "pause_share_max", "channels"]

def channelAction (index : ℕ) : String := channelPrefix ++ toString index

/-- The channel index named by a declared action, whose digits are ASCII. -/
def parseChannelAction (action : String) : Option ℕ :=
  if channelPrefix.toList.isPrefixOf action.toList then
    let tail := action.toList.drop channelPrefix.toList.length
    if Bus.isDigits tail then some (Nat.ofDigitChars 10 tail 0) else none
  else none

inductive StimulusConfigError where
  | unknownKeys (extra : List String)
  | invalid (text : String)
deriving DecidableEq

def stageText : String :=
  "[stimulus_control].stage must be one of ['minimal']; the learned stage needs " ++
    "act-intent-derivation, drive-reduction-learning and learned-action-selection, " ++
      "which are not built"

def seeksText : String := "[stimulus_control].seeks_per_awake_hour must be an int >= 0"

def channelsText : String := "[stimulus_control].channels must be a list of manifest paths"

/-- A finite number above zero, in exact arithmetic. -/
def positive (name : String) (value : Json) : Except StimulusConfigError {q : ℚ // 0 < q} :=
  let mustBeNumber := .error (.invalid s!"[stimulus_control].{name} must be a number")
  let mustBePositive := .error (.invalid s!"[stimulus_control].{name} must be finite and > 0")
  match value with
  | .int n => if h : (0 : ℚ) < n then .ok ⟨n, h⟩ else mustBePositive
  | .float (.fin q) => if h : 0 < q then .ok ⟨q, h⟩ else mustBePositive
  | .float _ => mustBePositive
  | _ => mustBeNumber

/-- The configuration, with the bounds that its section is checked against. -/
structure StimulusControlConfig where
  enabled : Bool
  stage : String
  minIntervalS : ℚ
  seeksPerAwakeHour : ℕ
  pauseMaxS : ℚ
  gainStepDb : ℚ
  gainMaxDb : ℚ
  pauseShareMax : ℚ
  channels : List String
  minInterval_pos : 0 < minIntervalS
  pauseMax_pos : 0 < pauseMaxS
  gainStep_pos : 0 < gainStepDb
  gainStep_le : gainStepDb ≤ gainMaxDb
  gainMax_le : gainMaxDb ≤ gainMaxBoundDb
  pauseShare_pos : 0 < pauseShareMax
  pauseShare_le : pauseShareMax ≤ pauseShareMaxBound
  pauseMax_fits : pauseMaxS / 3600 ≤ pauseShareMax

/-- The text of a channel's manifest path, trimmed; none for what is not one. -/
def channelPath : Json → Option String
  | .str s =>
    let trimmed := ((s.toList.dropWhile Bus.isSpace).reverse.dropWhile Bus.isSpace).reverse
    if trimmed.isEmpty then none else some (String.ofList trimmed)
  | _ => none

namespace StimulusControlConfig

def fromSection (section_ : Option Dict) : Except StimulusConfigError StimulusControlConfig := do
  let data : Dict := (section_.getD []).filter fun kv => !("_".toList.isPrefixOf kv.1.toList)
  let extra := (data.map Prod.fst).filter fun key => !configKeys.contains key
  if extra ≠ [] then .error (.unknownKeys extra)
  let enabled ←
    match data.getD "enabled" (.bool false) with
    | .bool b => .ok b
    | _ => .error (.invalid "[stimulus_control].enabled must be a bool")
  let stage ←
    match data.getD "stage" (.str stageMinimal) with
    | .str s => if s = stageMinimal then .ok s else .error (.invalid stageText)
    | _ => .error (.invalid stageText)
  let seeks ←
    match data.getD "seeks_per_awake_hour" (.int 20) with
    | .int n => if n < 0 then .error (.invalid seeksText) else .ok n.toNat
    | _ => .error (.invalid seeksText)
  let gainStep ← positive "gain_step_db" (data.getD "gain_step_db" (.int 2))
  let gainMax ← positive "gain_max_db" (data.getD "gain_max_db" (.int 6))
  if hmax : ¬gainMax.1 ≤ gainMaxBoundDb then
    .error (.invalid "[stimulus_control].gain_max_db must be <= 6.0 (the welfare bound)")
  else if hstep : ¬gainStep.1 ≤ gainMax.1 then
    .error (.invalid "[stimulus_control].gain_step_db must be <= gain_max_db")
  else do
    let pauseShare ← positive "pause_share_max"
      (data.getD "pause_share_max" (.float (.fin pauseShareMaxBound)))
    if hshare : ¬pauseShare.1 ≤ pauseShareMaxBound then
      .error (.invalid "[stimulus_control].pause_share_max must be <= 0.25 (the welfare bound)")
    else do
      let pauseMax ← positive "pause_max_s" (data.getD "pause_max_s" (.int 120))
      if hfit : ¬pauseMax.1 / 3600 ≤ pauseShare.1 then
        .error (.invalid
          "[stimulus_control].pause_max_s must fit within pause_share_max of an awake hour")
      else do
        let channels ←
          match data.getD "channels" (.arr []) with
          | .arr items =>
            match items.mapM channelPath with
            | some paths => .ok paths
            | none => .error (.invalid channelsText)
          | _ => .error (.invalid channelsText)
        let minInterval ← positive "min_interval_s" (data.getD "min_interval_s" (.int 30))
        .ok
          { enabled, stage
            minIntervalS := minInterval
            seeksPerAwakeHour := seeks
            pauseMaxS := pauseMax
            gainStepDb := gainStep
            gainMaxDb := gainMax
            pauseShareMax := pauseShare
            channels
            minInterval_pos := minInterval.2
            pauseMax_pos := pauseMax.2
            gainStep_pos := gainStep.2
            gainStep_le := not_not.mp hstep
            gainMax_le := not_not.mp hmax
            pauseShare_pos := pauseShare.2
            pauseShare_le := not_not.mp hshare
            pauseMax_fits := not_not.mp hfit }

def channelCount (cfg : StimulusControlConfig) : ℕ := 1 + cfg.channels.length

/-- The declared actions: channels only when there are two or more. -/
def declaredActions (cfg : StimulusControlConfig) : List String :=
  if cfg.channelCount < 2 then baseActions
  else baseActions ++ (List.range cfg.channelCount).map channelAction

end StimulusControlConfig

def entityHolder : String := "entity"
def transitionHolder : String := "transition"

/-- Holders under which the entity is not awake. -/
def notAwakeHolders : Finset String := {"sleep", "freeze"}

/-- The trailing window of awake time over which the paused share is bounded. -/
def pauseShareWindowS : ℚ := 3600

/-- The slack of the gain bounds and of the share bound. -/
def eps : ℚ := 1 / 1000000000

/-- Why a command is refused. The messages carry the numbers given here. -/
inductive Refusal where
  | notDeclared
  | tooSoon (since : ℚ)
  | seekBudget (perHour : ℕ)
  | notStarted
  | ended
  | notAwake
  | alreadyPaused
  | pauseTooSoon (since : ℚ)
  | pauseShare (share : ℚ)
  | notPaused
  | gainAtUpper
  | gainAtLower
  | noChannel
  | alreadyOnChannel
  | notStimulusAction
  | clock (text : StimulusControlError)
deriving DecidableEq

/-- The counts of the welfare record. -/
structure StimulusTally where
  accepted : List (String × ℕ)
  refused : List (String × ℕ)
  autoReleases : ℕ := 0
  pauseShareRefusals : ℕ := 0
deriving DecidableEq

namespace StimulusTally

def otherAction : String := "other"

def new (cfg : StimulusControlConfig) : StimulusTally where
  accepted := cfg.declaredActions.map (·, 0)
  refused := cfg.declaredActions.map (·, 0) ++ [(otherAction, 0)]

def bump (counts : List (String × ℕ)) (key : String) : List (String × ℕ) :=
  counts.map fun kv => if kv.1 = key then (kv.1, kv.2 + 1) else kv

def noteAccepted (t : StimulusTally) (action : String) : StimulusTally :=
  { t with accepted := bump t.accepted action }

def noteRefused (cfg : StimulusControlConfig) (t : StimulusTally) (action : String) :
    StimulusTally :=
  { t with
    refused := bump t.refused (if action ∈ cfg.declaredActions then action else otherAction) }

end StimulusTally

/-- The entity's pause of the programme, in awake viewing seconds; the open one has no end. -/
abbrev PauseSpan := ℚ × Option ℚ

structure StimulusController where
  clock : ProgrammeClock
  gainDb : ℚ := 0
  entityPausedAt : Option ℚ := none
  entityPauseEndedAt : Option ℚ := none
  awakeS : ℚ := 0
  pauseSpans : List PauseSpan := []
  shareEpisode : Bool := false
  lastAccount : ℚ

namespace StimulusController

def new (clock : ProgrammeClock) (now : ℚ) : StimulusController := { clock, lastAccount := now }

/-- What a span holds of the trailing window that ends at `awake`. -/
def heldBy (awake : ℚ) (span : PauseSpan) : ℚ :=
  max 0 (span.2.getD awake - max span.1 (awake - pauseShareWindowS))

def pausedShare (c : StimulusController) : ℚ :=
  (c.pauseSpans.map (heldBy c.awakeS)).sum / pauseShareWindowS

/-- A pause is taken only if its full length fits under the share bound. -/
def pauseShareRefusal (cfg : StimulusControlConfig) (c : StimulusController) : Option Refusal :=
  let room := cfg.pauseShareMax - cfg.pauseMaxS / pauseShareWindowS
  if room + eps < c.pausedShare then some (.pauseShare c.pausedShare) else none

def awake (c : StimulusController) : Bool := decide (c.clock.holders ∩ notAwakeHolders = ∅)

def entityPaused (c : StimulusController) : Bool := decide (entityHolder ∈ c.clock.holders)

/-- The bounds on a pause: not twice, not too soon after the last one, not over the share. -/
def pauseRefusal (cfg : StimulusControlConfig) (c : StimulusController) (now : ℚ) :
    Option Refusal :=
  if c.entityPaused then some .alreadyPaused
  else
    match c.entityPauseEndedAt with
    | some endedAt =>
      if now - endedAt < cfg.minIntervalS then some (.pauseTooSoon (now - endedAt))
      else c.pauseShareRefusal cfg
    | none => c.pauseShareRefusal cfg

def channelRefusal (c : StimulusController) (action : String) : Option Refusal :=
  match parseChannelAction action with
  | some channel =>
    if ¬channel < c.clock.segments.length then some .noChannel
    else if channel = c.clock.channel then some .alreadyOnChannel
    else none
  | none => none

/-- Why the programme cannot take an action now, or none. -/
def refusal (cfg : StimulusControlConfig) (c : StimulusController) (action : String)
    (now mono : ℚ) : Option Refusal :=
  if !c.clock.started || decide (transitionHolder ∈ c.clock.holders) then some .notStarted
  else if c.clock.ended mono then some .ended
  else if !c.awake then some .notAwake
  else
    match if action = pauseAction then c.pauseRefusal cfg now else none with
    | some reason => some reason
    | none =>
      if action = resumeAction && !c.entityPaused then some .notPaused
      else if action = louderAction && decide (cfg.gainMaxDb + eps < c.gainDb + cfg.gainStepDb) then
        some .gainAtUpper
      else if action = quieterAction &&
        decide (c.gainDb - cfg.gainStepDb < -cfg.gainMaxDb - eps) then some .gainAtLower
      else c.channelRefusal action

/-- Close the open span, if the last one is open. -/
def closeLast (awake : ℚ) : List PauseSpan → List PauseSpan
  | [] => []
  | [(start, none)] => [(start, some awake)]
  | [span] => [span]
  | span :: rest => span :: closeLast awake rest

def endEntityPause (c : StimulusController) (now mono : ℚ) : StimulusController :=
  { c with
    entityPausedAt := none
    entityPauseEndedAt := some now
    pauseSpans := closeLast c.awakeS c.pauseSpans
    clock := c.clock.resume entityHolder mono }

/-- Apply one command that the programme can take; what raises leaves the controller as it was. -/
def apply (cfg : StimulusControlConfig) (c : StimulusController) (action : String) (now mono : ℚ) :
    Except Refusal StimulusController :=
  match c.refusal cfg action now mono with
  | some reason => .error reason
  | none =>
    if action = pauseAction then
      .ok
        { c with
          entityPausedAt := some now
          pauseSpans := c.pauseSpans ++ [(c.awakeS, none)]
          clock := c.clock.pause entityHolder mono }
    else if action = resumeAction then .ok (c.endEntityPause now mono)
    else if action = nextAction then
      match c.clock.seek 1 mono with
      | .ok (clock, _) => .ok { c with clock := clock }
      | .error e => .error (.clock e)
    else if action = previousAction then
      match c.clock.seek (-1) mono with
      | .ok (clock, _) => .ok { c with clock := clock }
      | .error e => .error (.clock e)
    else if action = louderAction then
      .ok { c with gainDb := min cfg.gainMaxDb (c.gainDb + cfg.gainStepDb) }
    else if action = quieterAction then
      .ok { c with gainDb := max (-cfg.gainMaxDb) (c.gainDb - cfg.gainStepDb) }
    else
      match parseChannelAction action with
      | none => .error .notStimulusAction
      | some channel =>
        match c.clock.switchChannel channel mono with
        | .ok (clock, _) => .ok { c with clock := clock }
        | .error e => .error (.clock e)

/-- Account awake viewing time up to `now`. -/
def account (c : StimulusController) (now mono : ℚ) : StimulusController :=
  let viewing := c.clock.started && decide (transitionHolder ∉ c.clock.holders) &&
    !c.clock.ended mono
  { c with
    awakeS := c.awakeS + if viewing && c.awake then max 0 (now - c.lastAccount) else 0
    lastAccount := now }

/-- The entity's pause is up: it has run its length, or holds the whole share. -/
def releaseDue (cfg : StimulusControlConfig) (c : StimulusController) (now : ℚ) : Bool :=
  c.entityPaused &&
    match c.entityPausedAt with
    | some at? => decide (cfg.pauseMaxS ≤ now - at?) || decide (cfg.pauseShareMax ≤ c.pausedShare)
    | none => false

/-- A span that is open, or ends inside the window. -/
def inWindow (awake : ℚ) (span : PauseSpan) : Bool :=
  span.2.all fun stop => awake - pauseShareWindowS < stop

/-- Drop the spans that the window has passed; a share below the bound ends the episode. -/
def prune (cfg : StimulusControlConfig) (c : StimulusController) : StimulusController :=
  let kept := { c with pauseSpans := c.pauseSpans.filter (inWindow c.awakeS) }
  { kept with
    shareEpisode := if (kept.pauseShareRefusal cfg).isNone then false else kept.shareEpisode }

/-- One poll, and whether it released the entity's pause. The clock is read before the lock is
taken, and again, as `ended`, where the pause ends. -/
def pollOnce (cfg : StimulusControlConfig) (c : StimulusController) (now ended mono : ℚ) :
    StimulusController × Bool :=
  let c := c.account now mono
  if c.releaseDue cfg now then ((c.endEntityPause ended mono).prune cfg, true)
  else (c.prune cfg, false)

end StimulusController

/-- What the effector remembers; no command accepted yet is minus infinity. -/
structure StimulusEffector where
  lastAcceptedAt : Option ℚ := none
  seeks : List ℚ := []
deriving DecidableEq

/-- Everything the entity's commands can change. -/
structure StimulusControl where
  controller : StimulusController
  effector : StimulusEffector := {}
  tally : StimulusTally

namespace StimulusControl

variable (cfg : StimulusControlConfig)

/-- Drop the seeks that the trailing awake hour has passed. -/
def dropOldSeeks (s : StimulusControl) : StimulusControl :=
  { s with
    effector := { s.effector with
      seeks := s.effector.seeks.dropWhile fun seek =>
        decide (pauseShareWindowS ≤ s.controller.awakeS - seek) } }

/-- The effector's checks of an action, and the state with old seeks dropped where it counts
them. -/
def refusal (s : StimulusControl) (action : String) (now mono : ℚ) :
    Option Refusal × StimulusControl :=
  if action ∉ cfg.declaredActions then (some .notDeclared, s)
  else
    match s.effector.lastAcceptedAt.filter fun last => now - last < cfg.minIntervalS with
    | some last => (some (.tooSoon (now - last)), s)
    | none =>
      if action ∈ seekActions then
        let counted := s.dropOldSeeks
        if counted.effector.seeks.length < cfg.seeksPerAwakeHour then
          (counted.controller.refusal cfg action now mono, counted)
        else (some (.seekBudget cfg.seeksPerAwakeHour), counted)
      else (s.controller.refusal cfg action now mono, s)

/-- A refused command is counted; the first refusal by the share bound opens an episode. -/
def refuse (s : StimulusControl) (action : String) (reason : Refusal) : StimulusControl :=
  let s := { s with tally := s.tally.noteRefused cfg action }
  match reason with
  | .pauseShare _ =>
    if action = pauseAction then
      { s with
        tally := { s.tally with pauseShareRefusals := s.tally.pauseShareRefusals + 1 }
        controller := { s.controller with shareEpisode := true } }
    else s
  | _ => s

/-- An accepted command sets the interval's start, and a seek is stamped with awake time. -/
def stamp (s : StimulusControl) (action : String) (now : ℚ) : StimulusControl :=
  { s with
    effector :=
      { lastAcceptedAt := some now
        seeks := if action ∈ seekActions then s.effector.seeks ++ [s.controller.awakeS]
          else s.effector.seeks }
    tally := s.tally.noteAccepted action }

/-- The effector's `act`, with nothing between its steps. -/
def act (s : StimulusControl) (action : String) (now mono : ℚ) : StimulusControl × Option Refusal :=
  match s.refusal cfg action now mono with
  | (some reason, s) => (s.refuse cfg action reason, some reason)
  | (none, s) =>
    match s.controller.apply cfg action now mono with
    | .error reason => (s.refuse cfg action reason, some reason)
    | .ok controller => ({ s with controller := controller }.stamp action now, none)

end StimulusControl

end Kaine.Effectors
