import Kaine.Cycle.Types

/-! The layer that decides what to do about a snapshot (`kaine/workspace/action_selection.py`), over
any policy. -/
namespace Kaine.ActionSelection
open Py Bus

inductive Kind where
  | speak
  | think
  | act
  | rest
  deriving DecidableEq, Repr

def Kind.name : Kind → String
  | .speak => "speak"
  | .think => "think"
  | .act => "act"
  | .rest => "rest"

def ownExternalSpeechSource : String := "language"
def ownExternalSpeechType : String := "external_speech"
def ownInternalSpeechType : String := "internal_speech"
def userCommunicationSource : String := "audition"
def userCommunicationType : String := "audition.transcription"

/-- Channels whose voices are treated as the operator. -/
def defaultOperatorSources : List String := ["live_mic", "microphone", "remote"]

/-- An explicit decision to act. -/
structure Intent where
  kind : Kind
  about : String := ""
  entryId : Option String := none
  effector : Option String := none
  params : Dict := []
  runId : Option String := none
  seq : Option ℤ := none
  sig : Option String := none
  interrupt : Bool := false
  origin : Option String := none
  proposalId : Json := .null
  aboutKind : Option String := none
  aboutValues : Option Dict := none
  deriving DecidableEq

/-- A coalition with the saliences of its members. -/
abbrev Snapshot := WorkspaceSnapshot PyFloat

/-- What the clocks of a stack say in one call, at each place that reads one. -/
structure Readings where
  now : ℚ
  guardNow : ℚ
  speakArmedAt : ℚ
  thinkArmedAt : ℚ
  /-- The clock of a proposal source: for its guard timeouts, for what it passes on, and for its
  own intent. -/
  sourceTimeout : ℚ := now
  sourcePassed : ℚ := now
  sourceNow : ℚ := now
  sourceRest : ℚ := now
  /-- The clocks of a policy that is told of an intent. -/
  notedNow : ℚ := now
  notedGuard : ℚ := guardNow
  deriving DecidableEq

/-- How a policy's guard answers: it has one for a kind, and what it then says. -/
structure Guards (σ : Type) where
  inFlight : Kind → σ → Option Bool
  noteExternalIntent : Option (σ → Kind → Readings → σ)

/-- A policy with the hooks that callers look for. A hook it lacks does nothing. -/
structure Policy (σ : Type) where
  call : σ → Snapshot → Readings → Except PyError (List Intent) × σ
  observeInhibited : σ → Snapshot → Readings → σ := fun s _ _ => s
  markRealized : σ → σ := id
  markThinkRealized : σ → σ := id
  guards : Guards σ

def isOwnSpeech (event : Event) : Bool := event.source = ownExternalSpeechSource

def isExternalSpeech (event : Event) : Bool :=
  isOwnSpeech event && event.type = ownExternalSpeechType

def isInternalSpeech (event : Event) : Bool :=
  isOwnSpeech event && event.type = ownInternalSpeechType

/-- Whether one of the selected events passes a test. -/
def selects (snapshot : Snapshot) (p : Event → Bool) : Bool :=
  snapshot.selectedEvents.any fun entry => p entry.2

/-- `entry_id or None`. -/
def orNone (entryId : String) : Option String := if entryId = "" then none else some entryId

/-- Signs the intents to act, each with the next number of its run. -/
structure Signer (ν : Type) where
  sign : ν → String → Dict → (String × ℤ × String) × ν

section
variable {σ ν : Type}

def signIntent (signer : Option (Signer ν)) (n : ν) (intent : Intent) : Intent × ν :=
  match signer with
  | none => (intent, n)
  | some signer =>
    if intent.kind = .act then
      let signed := signer.sign n (intent.effector.getD "") intent.params
      ({ intent with
          runId := some signed.1.1, seq := some signed.1.2.1, sig := some signed.1.2.2 }, signed.2)
    else (intent, n)

def signAll (signer : Option (Signer ν)) : ν → List Intent → List Intent × ν
  | n, [] => ([], n)
  | n, intent :: intents =>
    let first := signIntent signer n intent
    let rest := signAll signer first.2 intents
    (first.1 :: rest.1, rest.2)

/-- The state of a selection: its policy's, and its signer's. -/
structure Selection (σ ν : Type) where
  policy : σ
  signer : ν

/-- An inhibited snapshot yields no intent; a policy that raises produces none. -/
def select (policy : Policy σ) (signer : Option (Signer ν)) (s : Selection σ ν)
    (snapshot : Snapshot) (r : Readings) : List Intent × Selection σ ν :=
  if snapshot.inhibited then
    ([], { s with policy := policy.observeInhibited s.policy snapshot r })
  else
    let called := policy.call s.policy snapshot r
    match called.1 with
    | .error _ => ([], { s with policy := called.2 })
    | .ok intents =>
      let signed := signAll signer s.signer intents
      (signed.1, ⟨called.2, signed.2⟩)

/-- The guard that the organ's published output realizes is released. -/
def observeOwnOutput (policy : Policy σ) (s : Selection σ ν) (event : Event) : Selection σ ν :=
  if isExternalSpeech event then { s with policy := policy.markRealized s.policy }
  else if isInternalSpeech event then { s with policy := policy.markThinkRealized s.policy }
  else s

end
end Kaine.ActionSelection
