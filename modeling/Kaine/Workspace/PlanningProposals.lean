import Kaine.Workspace.DrivePolicy

/-! A source that realizes accessed planning proposals around another policy
(`kaine/workspace/planning_proposals.py`). -/
namespace Kaine.PlanningProposals
open Py Bus ActionSelection ReportPolicy DrivePolicy

def planningSource : String := "planning"
def planningProposalType : String := "planning.proposal"

def isProposal (event : Event) : Bool :=
  event.source = planningSource && event.type = planningProposalType

structure SourceSettings where
  driveActions : Bool := true
  thinkRefractoryS : ℚ := 3
  speakRefractoryS : ℚ := 8
  restMinIntervalS : ℚ := 1800
  aboutStyle : AboutStyle := .numeric

/-- What became of a proposal, for the planning module to learn from. -/
structure ProposalOutcome where
  proposalId : Json
  realized : Bool
  reason : String
  deriving DecidableEq

structure PlanningProposalSource (σ : Type) where
  inner : σ
  thinkInFlight : Bool := false
  speakInFlight : Bool := false
  thinkArmedAt : Option ℚ := none
  speakArmedAt : Option ℚ := none
  /-- A time that is none is minus infinity. -/
  lastSpeakAt : Option ℚ := none
  lastThinkAt : Option ℚ := none
  lastRestAt : ℚ
  lastOutcomes : List ProposalOutcome := []
  deriving DecidableEq

/-- The spoken kinds, which a policy may guard itself. -/
inductive SpokenKind where
  | speak
  | think
  deriving DecidableEq

def SpokenKind.kind : SpokenKind → Kind
  | .speak => .speak
  | .think => .think

/-- What a proposal asks for. -/
inductive Proposed where
  | spoken (kind : SpokenKind)
  | rest
  | unknown
  deriving DecidableEq

def proposedKind (event : Event) : Proposed :=
  match Dict.get event.payload "kind" with
  | .str "speak" => .spoken .speak
  | .str "think" => .spoken .think
  | .str "rest" => .rest
  | _ => .unknown

/-- The coalition as the wrapped policy sees it: without planning proposals. -/
def withoutProposals (snapshot : Snapshot) : Snapshot :=
  let kept := snapshot.selectedEvents.filter fun entry => !isProposal entry.2
  if kept.length = snapshot.selectedEvents.length then snapshot
  else
    { snapshot with
      selectedEvents := kept
      salienceScores := snapshot.salienceScores.filter fun entry =>
        entry.1 ∈ kept.map Prod.fst }

def findProposals (snapshot : Snapshot) : List (String × Event) :=
  snapshot.selectedEvents.filter fun entry => isProposal entry.2

/-- The first member that is neither planning's nor the entity's own speech. -/
def topNonPlanningMember (snapshot : Snapshot) : Option (String × Event) :=
  snapshot.selectedEvents.find? fun entry =>
    entry.2.source ≠ planningSource && entry.2.source ≠ ownExternalSpeechSource

def summarizeEventWithKind (phrases : Phrases) (style : AboutStyle) (event : Event) :
    String × String :=
  let text := strippedText phrases (Dict.get event.payload "text")
  let plain :=
    match style with
    | .felt => (phrases.feltEvent event.source none, "event")
    | .numeric => (event.source ++ ":" ++ event.type, "event")
  if event.source = userCommunicationSource ∧ event.type = userCommunicationType ∧ text ≠ "" then
    (text, "heard")
  else if event.source = affectDriveSource ∧ event.type = affectDriveType then
    match Dict.get event.payload "drive" with
    | .str name => (phrases.feltDrive name (Dict.get event.payload "value"), "felt")
    | _ => plain
  else plain

/-- The outcome of a proposal that carries an id. -/
def outcomeOf (event : Event) (reason : String) (realized : Bool) : List ProposalOutcome :=
  match Dict.get event.payload "proposal_id" with
  | .null => []
  | proposalId => [⟨proposalId, realized, reason⟩]

section
variable {σ : Type}

namespace PlanningProposalSource

def record (s : PlanningProposalSource σ) (event : Event) (reason : String) (realized : Bool) :
    PlanningProposalSource σ :=
  { s with lastOutcomes := s.lastOutcomes ++ outcomeOf event reason realized }

def recordAll (s : PlanningProposalSource σ) (events : List (String × Event)) (reason : String) :
    PlanningProposalSource σ :=
  events.foldl (fun s entry => s.record entry.2 reason false) s

def releaseSpeak (s : PlanningProposalSource σ) : PlanningProposalSource σ :=
  { s with speakInFlight := false, speakArmedAt := none }

def releaseThink (s : PlanningProposalSource σ) : PlanningProposalSource σ :=
  { s with thinkInFlight := false, thinkArmedAt := none }

def applyGuardTimeouts (s : PlanningProposalSource σ) (now : ℚ) : PlanningProposalSource σ :=
  let speak := guardAfter s.speakInFlight s.speakArmedAt now
  let think := guardAfter s.thinkInFlight s.thinkArmedAt now
  { s with
    speakInFlight := speak.1, speakArmedAt := speak.2
    thinkInFlight := think.1, thinkArmedAt := think.2 }

def clearGuardsOnOwnOutput (s : PlanningProposalSource σ) (snapshot : Snapshot) (now : ℚ) :
    PlanningProposalSource σ :=
  let s := s.applyGuardTimeouts now
  let s := if selects snapshot isExternalSpeech then s.releaseSpeak else s
  if selects snapshot isInternalSpeech then s.releaseThink else s

/-- The local guard of a spoken kind. -/
def localInFlight (s : PlanningProposalSource σ) : SpokenKind → Bool
  | .speak => s.speakInFlight
  | .think => s.thinkInFlight

/-- Drop the intents of a kind whose local guard is armed. -/
def passes (s : PlanningProposalSource σ) (intent : Intent) : Bool :=
  !(intent.kind = .speak && s.speakInFlight) && !(intent.kind = .think && s.thinkInFlight)

def updateLastAt (s : PlanningProposalSource σ) (intents : List Intent) (now : ℚ) :
    PlanningProposalSource σ :=
  { s with
    lastSpeakAt := if intents.any fun i => i.kind = .speak then some now else s.lastSpeakAt
    lastThinkAt := if intents.any fun i => i.kind = .think then some now else s.lastThinkAt }

def lastAt (s : PlanningProposalSource σ) : SpokenKind → Option ℚ
  | .speak => s.lastSpeakAt
  | .think => s.lastThinkAt

/-- Arm the guard of a realized proposal: the wrapped policy's where it has one. -/
def arm (guards : Guards σ) (s : PlanningProposalSource σ) (kind : SpokenKind) (r : Readings) :
    PlanningProposalSource σ :=
  match guards.noteExternalIntent, guards.inFlight kind.kind s.inner with
  | some note, some _ => { s with inner := note s.inner kind.kind r }
  | _, _ =>
    match kind with
    | .speak => { s with speakInFlight := true, speakArmedAt := some r.sourceNow }
    | .think => { s with thinkInFlight := true, thinkArmedAt := some r.sourceNow }

def startedAt (s : PlanningProposalSource σ) (kind : SpokenKind) (now : ℚ) :
    PlanningProposalSource σ :=
  match kind with
  | .speak => { s with lastSpeakAt := some now }
  | .think => { s with lastThinkAt := some now }

end PlanningProposalSource

def SourceSettings.refractory (settings : SourceSettings) : SpokenKind → ℚ
  | .speak => settings.speakRefractoryS
  | .think => settings.thinkRefractoryS

/-- Realize a proposal of a spoken kind, or record why not. -/
def realizeSpoken (phrases : Phrases) (settings : SourceSettings) (guards : Guards σ)
    (s : PlanningProposalSource σ) (kind : SpokenKind) (event : Event) (snapshot : Snapshot)
    (passed : List Intent) (r : Readings) : List Intent × PlanningProposalSource σ :=
  if s.localInFlight kind || (guards.inFlight kind.kind s.inner).getD false then
    (passed, s.record event "in_flight" false)
  else if !elapsed r.sourceNow (s.lastAt kind) (settings.refractory kind) then
    (passed, s.record event "refractory" false)
  else
    match topNonPlanningMember snapshot with
    | none => (passed, s.record event "self_response" false)
    | some (entryId, member) =>
      let about := summarizeEventWithKind phrases settings.aboutStyle member
      let armed := (s.arm guards kind r).startedAt kind r.sourceNow
      (passed ++ [{ kind := kind.kind, about := about.1, entryId := some entryId
                    origin := some "planning", aboutKind := some about.2 }],
        armed.record event "realized" true)

/-- Forward a proposal to rest, or record why not. -/
def forwardRest (settings : SourceSettings) (s : PlanningProposalSource σ) (event : Event)
    (passed : List Intent) (r : Readings) : List Intent × PlanningProposalSource σ :=
  if r.sourceRest - s.lastRestAt < settings.restMinIntervalS then
    (passed, s.record event "refractory" false)
  else
    (passed ++ [{ kind := .rest, about := "rest", origin := some "planning"
                  proposalId := Dict.get event.payload "proposal_id" }],
      { s with lastRestAt := r.sourceRest }.record event "forwarded" false)

def realizeProposal (phrases : Phrases) (settings : SourceSettings) (guards : Guards σ)
    (s : PlanningProposalSource σ) (event : Event) (snapshot : Snapshot) (passed : List Intent)
    (r : Readings) : List Intent × PlanningProposalSource σ :=
  match proposedKind event with
  | .spoken kind =>
    if passed.any fun intent => intent.kind = kind.kind then
      (passed, s.record event "superseded" false)
    else realizeSpoken phrases settings guards s kind event snapshot passed r
  | .rest => forwardRest settings s event passed r
  | .unknown => (passed, s.record event "disabled" false)

/-- What is done about the proposals once the wrapped policy has decided. -/
def considerProposals (phrases : Phrases) (settings : SourceSettings) (guards : Guards σ)
    (s : PlanningProposalSource σ) (snapshot : Snapshot) (passed : List Intent) (r : Readings) :
    List Intent × PlanningProposalSource σ :=
  match findProposals snapshot with
  | [] => (passed, s)
  | top :: others =>
    if settings.driveActions then
      realizeProposal phrases settings guards (s.recordAll others "superseded") top.2
        snapshot passed r
    else (passed, s.recordAll (top :: others) "disabled")

/-- `__call__`, which leaves it to its caller to look at the inhibition. -/
def call (phrases : Phrases) (settings : SourceSettings) (inner : Policy σ)
    (s : PlanningProposalSource σ) (snapshot : Snapshot) (r : Readings) :
    Except PyError (List Intent) × PlanningProposalSource σ :=
  let cleared := { s with lastOutcomes := [] }.clearGuardsOnOwnOutput snapshot r.sourceTimeout
  let called := inner.call cleared.inner (withoutProposals snapshot) r
  let s := { cleared with inner := called.2 }
  match called.1 with
  | .error e => (.error e, s)
  | .ok intents =>
    let passed := intents.filter s.passes
    let considered := considerProposals phrases settings inner.guards
      (s.updateLastAt passed r.sourcePassed) snapshot passed r
    (.ok considered.1, considered.2)

/-- An outcome for every proposal of an inhibited coalition. -/
def observeInhibited (settings : SourceSettings) (s : PlanningProposalSource σ)
    (snapshot : Snapshot) (r : Readings) : PlanningProposalSource σ :=
  let cleared := { s with lastOutcomes := [] }.clearGuardsOnOwnOutput snapshot r.sourceTimeout
  cleared.recordAll (findProposals snapshot)
    (if settings.driveActions then "inhibited" else "disabled")

/-- The source as a policy around another. It has no guards that a wrapper would look for. -/
def policy (phrases : Phrases) (settings : SourceSettings) (inner : Policy σ) :
    Policy (PlanningProposalSource σ) where
  call := call phrases settings inner
  observeInhibited := observeInhibited settings
  markRealized s := { s.releaseSpeak with inner := inner.markRealized s.inner }
  markThinkRealized s := { s.releaseThink with inner := inner.markThinkRealized s.inner }
  guards := ⟨fun _ _ => none, none⟩

end
end Kaine.PlanningProposals
