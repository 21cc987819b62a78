import Kaine.Workspace.ActionSelection

/-! Reports that the entity makes of its own state (`kaine/workspace/report_policy.py`). A time that
is none is minus infinity. -/
namespace Kaine.ReportPolicy
open Py Bus ActionSelection

inductive AboutStyle where
  | numeric
  | felt
  deriving DecidableEq

/-- The texts that an intent's cause is given in (`kaine/faithful`). -/
structure Phrases where
  /-- A number with three places. -/
  surprise : PyFloat → String
  feltEvent : String → Option PyFloat → String
  feltDrive : String → Json → String
  /-- `str(v)` of a value that is no text. -/
  str : Json → String

def guardTimeoutS : ℚ := 48

/-- The parameters, checked as the source checks them. -/
structure ReportSettings where
  reportThreshold : ℚ := 3 / 5
  thinkThreshold : ℚ := 9 / 20
  interruptThreshold : Option ℚ := none
  speakRefractoryS : ℚ := 8
  thinkRefractoryS : ℚ := 3
  sigExpiryS : Option ℚ := none
  aboutStyle : AboutStyle := .numeric
  thresholds : 0 ≤ thinkThreshold ∧ thinkThreshold ≤ reportThreshold ∧ reportThreshold ≤ 1
  interrupt_mem : ∀ bar, interruptThreshold = some bar → reportThreshold < bar ∧ bar ≤ 1
  refractory_nonneg : 0 ≤ speakRefractoryS ∧ 0 ≤ thinkRefractoryS

abbrev Signature := String × String

structure SelfInitiatedReportPolicy where
  speakInFlight : Bool := false
  thinkInFlight : Bool := false
  speakArmedAt : Option ℚ := none
  thinkArmedAt : Option ℚ := none
  lastSpeakAt : Option ℚ := none
  lastThinkAt : Option ℚ := none
  lastReportSig : Option Signature := none
  sigSetAt : Option ℚ := none
  deriving DecidableEq

/-- `now - since >= least`. -/
def elapsed (now : ℚ) (since : Option ℚ) (least : ℚ) : Bool := since.all fun t => least ≤ now - t

namespace SelfInitiatedReportPolicy

/-- True while the remembered signature still suppresses a signature. -/
def sigBlocks (settings : ReportSettings) (s : SelfInitiatedReportPolicy) (signature : Signature)
    (now : ℚ) : Bool :=
  s.lastReportSig = some signature &&
    match settings.sigExpiryS with
    | none => true
    | some expiry => s.sigSetAt.any fun t => now - t < expiry

/-- The organ published external speech. -/
def markRealized (s : SelfInitiatedReportPolicy) : SelfInitiatedReportPolicy :=
  { s with speakInFlight := false, speakArmedAt := none }

/-- The organ published internal speech. -/
def markThinkRealized (s : SelfInitiatedReportPolicy) : SelfInitiatedReportPolicy :=
  { s with thinkInFlight := false, thinkArmedAt := none }

/-- Arm a guard and its refractory as if the intent had been emitted here. -/
def noteExternalIntent (s : SelfInitiatedReportPolicy) (kind : Kind) (r : Readings) :
    SelfInitiatedReportPolicy :=
  match kind with
  | .speak =>
    { s with
      speakInFlight := true
      lastSpeakAt := some r.notedNow
      speakArmedAt := some r.notedGuard }
  | .think =>
    { s with
      thinkInFlight := true
      lastThinkAt := some r.notedNow
      thinkArmedAt := some r.notedGuard }
  | .act | .rest => s

/-- Clear each guard when the entity's matching output is now accessed. -/
def observeOutputs (s : SelfInitiatedReportPolicy) (snapshot : Snapshot) :
    SelfInitiatedReportPolicy :=
  let s := if selects snapshot isExternalSpeech then s.markRealized else s
  if selects snapshot isInternalSpeech then s.markThinkRealized else s

/-- Whether the speak guard has been armed for the whole timeout. -/
def speakTimedOut (s : SelfInitiatedReportPolicy) (guardNow : ℚ) : Bool :=
  s.speakInFlight && elapsed guardNow s.speakArmedAt guardTimeoutS

def thinkTimedOut (s : SelfInitiatedReportPolicy) (guardNow : ℚ) : Bool :=
  s.thinkInFlight && elapsed guardNow s.thinkArmedAt guardTimeoutS

def applyTimeouts (s : SelfInitiatedReportPolicy) (guardNow : ℚ) : SelfInitiatedReportPolicy :=
  let s := if s.speakTimedOut guardNow then s.markRealized else s
  if s.thinkTimedOut guardNow then s.markThinkRealized else s

def clearGuardsOnOwnOutput (s : SelfInitiatedReportPolicy) (snapshot : Snapshot) (guardNow : ℚ) :
    SelfInitiatedReportPolicy :=
  (s.observeOutputs snapshot).applyTimeouts guardNow

end SelfInitiatedReportPolicy

/-- The salience of a member, zero where none is given. -/
def score (snapshot : Snapshot) (entryId : String) : PyFloat :=
  (snapshot.salienceScores.lookup entryId).getD (.fin 0)

/-- The member that the report is about: the first of the greatest score, own speech aside. -/
def topCandidate (snapshot : Snapshot) : Option (String × Event) :=
  (snapshot.selectedEvents.filter fun entry => !isOwnSpeech entry.2).foldl
    (fun best entry =>
      match best with
      | none => some entry
      | some best =>
        if (score snapshot best.1).lt (score snapshot entry.1) then some entry else best)
    none

def signatureOf (event : Event) : Signature := (event.source, event.type)

def aboutOf (phrases : Phrases) (style : AboutStyle) (event : Event) (surprise : PyFloat) :
    String × Option Dict :=
  match style with
  | .felt =>
    (phrases.feltEvent event.source (some surprise),
      some [("source", .str event.source), ("type", .str event.type),
        ("surprise", .float surprise)])
  | .numeric => (event.source ++ " (surprise=" ++ phrases.surprise surprise ++ ")", none)

/-- The intent of a kind about a member. -/
def intentOf (phrases : Phrases) (settings : ReportSettings) (kind : Kind) (interrupt : Bool)
    (entry : String × Event) (surprise : PyFloat) : Intent :=
  let about := aboutOf phrases settings.aboutStyle entry.2 surprise
  { kind, about := about.1, entryId := orNone entry.1, interrupt, aboutKind := some "event"
    aboutValues := about.2 }

namespace SelfInitiatedReportPolicy

/-- A spoken report is emitted: the guard, the refractory and the memory start from it. -/
def speak (s : SelfInitiatedReportPolicy) (signature : Signature) (r : Readings) :
    SelfInitiatedReportPolicy :=
  { s with
    speakInFlight := true
    speakArmedAt := some r.speakArmedAt
    lastSpeakAt := some r.now
    lastReportSig := some signature
    sigSetAt := some r.now }

def think (s : SelfInitiatedReportPolicy) (r : Readings) : SelfInitiatedReportPolicy :=
  { s with
    thinkInFlight := true, thinkArmedAt := some r.thinkArmedAt, lastThinkAt := some r.now }

/-- An urgent surprise preempts an utterance in flight. -/
def mayInterrupt (settings : ReportSettings) (s : SelfInitiatedReportPolicy) (signature : Signature)
    (surprise : PyFloat) (now : ℚ) : Bool :=
  settings.interruptThreshold.any (fun bar => PyFloat.le (.fin bar) surprise) && s.speakInFlight &&
    !s.sigBlocks settings signature now

def maySpeak (settings : ReportSettings) (s : SelfInitiatedReportPolicy) (signature : Signature)
    (surprise : PyFloat) (now : ℚ) : Bool :=
  PyFloat.le (.fin settings.reportThreshold) surprise && !s.speakInFlight &&
    elapsed now s.lastSpeakAt settings.speakRefractoryS && !s.sigBlocks settings signature now

def mayThink (settings : ReportSettings) (s : SelfInitiatedReportPolicy) (surprise : PyFloat)
    (now : ℚ) : Bool :=
  PyFloat.le (.fin settings.thinkThreshold) surprise && !s.thinkInFlight &&
    elapsed now s.lastThinkAt settings.thinkRefractoryS

/-- The decision about a member, once the guards are cleared. -/
def choose (phrases : Phrases) (settings : ReportSettings) (s : SelfInitiatedReportPolicy)
    (entry : String × Event) (surprise : PyFloat) (r : Readings) :
    List Intent × SelfInitiatedReportPolicy :=
  let signature := signatureOf entry.2
  if s.mayInterrupt settings signature surprise r.now then
    ([intentOf phrases settings .speak true entry surprise], s.speak signature r)
  else if s.maySpeak settings signature surprise r.now then
    ([intentOf phrases settings .speak false entry surprise], s.speak signature r)
  else if s.mayThink settings surprise r.now then
    ([intentOf phrases settings .think false entry surprise], s.think r)
  else ([], s)

/-- `__call__`. -/
def call (phrases : Phrases) (settings : ReportSettings) (s : SelfInitiatedReportPolicy)
    (snapshot : Snapshot) (r : Readings) : List Intent × SelfInitiatedReportPolicy :=
  if snapshot.inhibited then ([], s)
  else
    let cleared := s.clearGuardsOnOwnOutput snapshot r.guardNow
    match topCandidate snapshot with
    | none => ([], cleared)
    | some entry => cleared.choose phrases settings entry (score snapshot entry.1) r

end SelfInitiatedReportPolicy

def guards : Guards SelfInitiatedReportPolicy where
  inFlight kind s :=
    match kind with
    | .speak => some s.speakInFlight
    | .think => some s.thinkInFlight
    | .act | .rest => none
  noteExternalIntent := some SelfInitiatedReportPolicy.noteExternalIntent

def policy (phrases : Phrases) (settings : ReportSettings) : Policy SelfInitiatedReportPolicy where
  call s snapshot r :=
    let called := s.call phrases settings snapshot r
    (.ok called.1, called.2)
  markRealized := SelfInitiatedReportPolicy.markRealized
  markThinkRealized := SelfInitiatedReportPolicy.markThinkRealized
  guards := guards

end Kaine.ReportPolicy
