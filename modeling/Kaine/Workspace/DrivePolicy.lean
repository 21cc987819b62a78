import Kaine.Workspace.ReportPolicy

/-! Answers to a user and initiatives of the drives (`kaine/workspace/drive_policy.py`). -/
namespace Kaine.DrivePolicy
open Py Bus ActionSelection ReportPolicy

def affectDriveSource : String := "affect"
def affectDriveType : String := "affect.drive"

/-- The drives and the intents that they may become. -/
def driveIntentKinds : List (String × Kind) :=
  [("social_drive", .speak), ("curiosity", .think), ("boredom", .think), ("restlessness", .think)]

structure DriveBiasedPolicy where
  speakInFlight : Bool := false
  thinkInFlight : Bool := false
  speakArmedAt : Option ℚ := none
  thinkArmedAt : Option ℚ := none
  deriving DecidableEq

/-- One guard after its timeout is looked at: one that was armed at no time is armed now. -/
def guardAfter (inFlight : Bool) (armedAt : Option ℚ) (now : ℚ) : Bool × Option ℚ :=
  if inFlight then
    match armedAt with
    | none => (true, some now)
    | some armed => if guardTimeoutS ≤ now - armed then (false, none) else (true, some armed)
  else (inFlight, armedAt)

/-- `str(v or "").strip()`. -/
def strippedText (phrases : Phrases) (v : Json) : String :=
  let text :=
    if v.truthy then
      match v with
      | .str s => s
      | v => phrases.str v
    else ""
  String.ofList ((text.toList.dropWhile isSpace).reverse.dropWhile isSpace).reverse

/-- The text of a user's utterance. A label that no set can look up raises. -/
def userUtterance (phrases : Phrases) (operatorSources : List String) (event : Event) :
    Except PyError (Option String) :=
  if event.source = userCommunicationSource ∧ event.type = userCommunicationType then
    let text := strippedText phrases (Dict.get event.payload "text")
    let said := if text = "" then none else some text
    match Dict.get event.payload "source_label" with
    | .null => .ok said
    | .str label => .ok (if label ∈ operatorSources then said else none)
    | .arr _ | .obj _ => .error .typeError
    | .bool _ | .int _ | .float _ => .ok none
  else .ok none

/-- The drive of a crossing. -/
def driveName (event : Event) : Option String :=
  if event.source = affectDriveSource ∧ event.type = affectDriveType then
    match Dict.get event.payload "drive" with
    | .str name => if (driveIntentKinds.lookup name).isSome then some name else none
    | _ => none
  else none

def userResponseIntent (phrases : Phrases) (operatorSources : List String) :
    List (String × Event) → Except PyError (Option Intent)
  | [] => .ok none
  | (entryId, event) :: entries =>
    if isOwnSpeech event then userResponseIntent phrases operatorSources entries
    else
      match userUtterance phrases operatorSources event with
      | .error e => .error e
      | .ok (some text) =>
        .ok (some { kind := .speak, about := text, entryId := orNone entryId
                    aboutKind := some "heard" })
      | .ok none => userResponseIntent phrases operatorSources entries

/-- The intent of the first crossing of a drive that passes a test. -/
def driveIntent (phrases : Phrases) (kind : Kind) (p : String → Bool) (snapshot : Snapshot) :
    Option Intent :=
  snapshot.selectedEvents.findSome? fun (entryId, event) =>
    if isOwnSpeech event then none
    else
      match driveName event with
      | some name =>
        if p name then
          some { kind, about := phrases.feltDrive name (Dict.get event.payload "value")
                 aboutKind := some "felt", entryId := orNone entryId }
        else none
      | none => none

/-- A speak intent from a crossing of the social drive. -/
def socialDriveSpeak (phrases : Phrases) (snapshot : Snapshot) : Option Intent :=
  driveIntent phrases .speak (fun name => name = "social_drive") snapshot

/-- A think intent from a crossing of a deliberative drive. -/
def deliberativeDriveThink (phrases : Phrases) (snapshot : Snapshot) : Option Intent :=
  driveIntent phrases .think (fun name => driveIntentKinds.lookup name = some .think) snapshot

namespace DriveBiasedPolicy

def markRealized (s : DriveBiasedPolicy) : DriveBiasedPolicy :=
  { s with speakInFlight := false, speakArmedAt := none }

def markThinkRealized (s : DriveBiasedPolicy) : DriveBiasedPolicy :=
  { s with thinkInFlight := false, thinkArmedAt := none }

/-- Arm a guard as if the intent had been emitted here. -/
def noteExternalIntent (s : DriveBiasedPolicy) (kind : Kind) (r : Readings) : DriveBiasedPolicy :=
  match kind with
  | .speak => { s with speakInFlight := true, speakArmedAt := some r.notedGuard }
  | .think => { s with thinkInFlight := true, thinkArmedAt := some r.notedGuard }
  | .act | .rest => s

def applyGuardTimeouts (s : DriveBiasedPolicy) (now : ℚ) : DriveBiasedPolicy :=
  let speak := guardAfter s.speakInFlight s.speakArmedAt now
  let think := guardAfter s.thinkInFlight s.thinkArmedAt now
  ⟨speak.1, think.1, speak.2, think.2⟩

def clearGuardsOnOwnOutput (s : DriveBiasedPolicy) (snapshot : Snapshot) (now : ℚ) :
    DriveBiasedPolicy :=
  let s := s.applyGuardTimeouts now
  let s := if selects snapshot isExternalSpeech then s.markRealized else s
  if selects snapshot isInternalSpeech then s.markThinkRealized else s

/-- The one spoken intent of a call: a user outranks the social drive. -/
def speakIntent (phrases : Phrases) (operatorSources : List String) (s : DriveBiasedPolicy)
    (snapshot : Snapshot) : Except PyError (Option Intent) :=
  if s.speakInFlight then .ok none
  else
    match userResponseIntent phrases operatorSources snapshot.selectedEvents with
    | .error e => .error e
    | .ok (some intent) => .ok (some intent)
    | .ok none => .ok (socialDriveSpeak phrases snapshot)

/-- `__call__`, which leaves it to its caller to look at the inhibition. -/
def call (phrases : Phrases) (operatorSources : List String) (s : DriveBiasedPolicy)
    (snapshot : Snapshot) (r : Readings) : Except PyError (List Intent) × DriveBiasedPolicy :=
  let s := s.clearGuardsOnOwnOutput snapshot r.guardNow
  match s.speakIntent phrases operatorSources snapshot with
  | .error e => (.error e, s)
  | .ok speak =>
    let s :=
      if speak.isSome then { s with speakInFlight := true, speakArmedAt := some r.speakArmedAt }
      else s
    let think := if s.thinkInFlight then none else deliberativeDriveThink phrases snapshot
    let s :=
      if think.isSome then { s with thinkInFlight := true, thinkArmedAt := some r.thinkArmedAt }
      else s
    (.ok (speak.toList ++ think.toList), s)

end DriveBiasedPolicy

def guards : Guards DriveBiasedPolicy where
  inFlight kind s :=
    match kind with
    | .speak => some s.speakInFlight
    | .think => some s.thinkInFlight
    | .act | .rest => none
  noteExternalIntent := some DriveBiasedPolicy.noteExternalIntent

def policy (phrases : Phrases) (operatorSources : List String) : Policy DriveBiasedPolicy where
  call := DriveBiasedPolicy.call phrases operatorSources
  markRealized := DriveBiasedPolicy.markRealized
  markThinkRealized := DriveBiasedPolicy.markThinkRealized
  guards := guards

end Kaine.DrivePolicy
