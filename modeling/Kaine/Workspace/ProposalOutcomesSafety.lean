import Kaine.Workspace.PlanningProposals

/-! One outcome for each proposal, and a source that drives nothing. -/
namespace Kaine.PlanningProposals
open Py Bus ActionSelection ReportPolicy DrivePolicy

/-- What a call makes of one proposal: its outcome, and the intent that was emitted for it. -/
structure LedgerEntry where
  event : Event
  reason : String
  realized : Bool := false
  emitted : Option Intent := none

/-- An intent of the kind that a proposal asks for. -/
def Answers (event : Event) (intent : Intent) : Prop :=
  intent.origin = some "planning" ∧
  match proposedKind event with
  | .spoken kind => intent.kind = kind.kind
  | .rest => intent.kind = .rest ∧ intent.proposalId = Dict.get event.payload "proposal_id"
  | .unknown => False

/-- The outcome says what was emitted. -/
structure LedgerEntry.Fits (entry : LedgerEntry) : Prop where
  answers : ∀ intent, entry.emitted = some intent → Answers entry.event intent
  realized : entry.realized = true ↔ ∃ intent, entry.emitted = some intent ∧
    (intent.kind = .speak ∨ intent.kind = .think)
  forwarded : entry.reason = "forwarded" ↔ ∃ intent, entry.emitted = some intent ∧
    intent.kind = .rest

/-- A proposal for which nothing is emitted. -/
def refused (reason : String) (event : Event) : LedgerEntry := { event, reason }

theorem fits_refused (event : Event) {reason : String} (h : reason ≠ "forwarded") :
    (refused reason event).Fits where
  answers _ h := by cases h
  realized := by simp [refused]
  forwarded := by simp [refused, h]

def outcomesOf (ledger : List LedgerEntry) : List ProposalOutcome :=
  ledger.flatMap fun entry => outcomeOf entry.event entry.reason entry.realized

def emittedOf (ledger : List LedgerEntry) : List Intent := ledger.filterMap LedgerEntry.emitted

section
variable {σ : Type}

/-- A call accounts for a coalition: each of its proposals has one entry in a ledger that holds no
other, the outcomes are those of the ledger, and the intents are some of the wrapped policy's and
then the ledger's. -/
def Accounts (snapshot : Snapshot) (inner : Except PyError (List Intent))
    (called : Except PyError (List Intent) × PlanningProposalSource σ) : Prop :=
  ∃ ledger : List LedgerEntry,
    (ledger.map LedgerEntry.event).Perm ((findProposals snapshot).map Prod.snd) ∧
    (∀ entry ∈ ledger, entry.Fits) ∧
    called.2.lastOutcomes = outcomesOf ledger ∧
    ∀ intents, called.1 = .ok intents →
      ∃ own passed, inner = .ok own ∧ passed.Sublist own ∧ intents = passed ++ emittedOf ledger

variable {s : PlanningProposalSource σ} {snapshot : Snapshot} {passed : List Intent} {r : Readings}
  {settings : SourceSettings} {guards : Guards σ} {event : Event}

theorem recordAll_outcomes (s : PlanningProposalSource σ) (events : List (String × Event))
    (reason : String) : (s.recordAll events reason).lastOutcomes =
      s.lastOutcomes ++ outcomesOf (events.map fun entry => refused reason entry.2) := by
  unfold PlanningProposalSource.recordAll
  induction events generalizing s with
  | nil => simp [outcomesOf]
  | cons entry events ih =>
    have hsplit : outcomesOf ((entry :: events).map fun entry => refused reason entry.2) =
        outcomeOf entry.2 reason false ++ outcomesOf (events.map fun entry =>
          refused reason entry.2) := rfl
    rw [List.foldl_cons, ih, hsplit, ← List.append_assoc]
    rfl

theorem armed_outcomes (guards : Guards σ) (s : PlanningProposalSource σ) (kind : SpokenKind)
    (r : Readings) : ((s.arm guards kind r).startedAt kind r.sourceNow).lastOutcomes =
      s.lastOutcomes := by
  cases kind <;>
  · unfold PlanningProposalSource.startedAt PlanningProposalSource.arm
    dsimp only
    split <;> rfl

/-- What is done about one proposal: an entry that fits, its outcome, and its intent if it has
one. -/
def Settled (s : PlanningProposalSource σ) (event : Event) (passed : List Intent)
    (result : List Intent × PlanningProposalSource σ) : Prop :=
  ∃ entry : LedgerEntry, entry.event = event ∧ entry.Fits ∧
    result.2.lastOutcomes = s.lastOutcomes ++ outcomesOf [entry] ∧
      result.1 = passed ++ emittedOf [entry]

theorem settled_refused (s : PlanningProposalSource σ) (event : Event) (passed : List Intent)
    {reason : String} (h : reason ≠ "forwarded") :
    Settled s event passed (passed, s.record event reason false) :=
  ⟨refused reason event, rfl,
    fits_refused event h, by simp [outcomesOf, refused, PlanningProposalSource.record],
    by simp [emittedOf, refused]⟩

theorem settled_realizeSpoken (phrases : Phrases) {kind : SpokenKind}
    (hkind : proposedKind event = .spoken kind) :
    Settled s event passed (realizeSpoken phrases settings guards s kind event
      snapshot passed r) := by
  unfold realizeSpoken
  split
  · exact settled_refused s event passed (by decide)
  split
  · exact settled_refused s event passed (by decide)
  cases topNonPlanningMember snapshot with
  | none => exact settled_refused s event passed (by decide)
  | some entry =>
    refine ⟨⟨event, "realized", true, some _⟩, rfl, ⟨?_, ?_, ?_⟩, ?_, rfl⟩
    · intro intent h
      cases h
      refine ⟨rfl, ?_⟩
      rw [hkind]
    · refine ⟨fun _ => ⟨_, rfl, ?_⟩, fun _ => rfl⟩
      cases kind with
      | speak => exact .inl rfl
      | think => exact .inr rfl
    · have hreason : "realized" ≠ "forwarded" := by decide
      refine ⟨fun h => absurd h hreason, fun ⟨intent, h, hrest⟩ => ?_⟩
      cases h
      cases kind <;> cases hrest
    · show _ ++ _ = _
      rw [armed_outcomes]
      simp [outcomesOf]

theorem settled_forwardRest (hkind : proposedKind event = .rest) :
    Settled s event passed (forwardRest settings s event passed r) := by
  unfold forwardRest
  split
  · exact settled_refused s event passed (by decide)
  · refine ⟨⟨event, "forwarded", false, some _⟩, rfl,
      ⟨?_, ?_, ?_⟩, by simp [outcomesOf, PlanningProposalSource.record], rfl⟩
    · intro intent h
      cases h
      refine ⟨rfl, ?_⟩
      rw [hkind]
      exact ⟨rfl, rfl⟩
    · refine ⟨fun h => (by cases h), fun ⟨intent, h, hspoken⟩ => ?_⟩
      cases h
      rcases hspoken with h | h <;> cases h
    · exact ⟨fun _ => ⟨_, rfl, rfl⟩, fun _ => rfl⟩

theorem settled_realizeProposal (phrases : Phrases) :
    Settled s event passed (realizeProposal phrases settings guards s event snapshot passed r) := by
  unfold realizeProposal
  cases hkind : proposedKind event with
  | spoken kind =>
    dsimp only
    split
    · exact settled_refused s event passed (by decide)
    · exact settled_realizeSpoken phrases hkind
  | rest => exact settled_forwardRest hkind
  | unknown => exact settled_refused s event passed (by decide)

/-- The ledger of a coalition whose wrapped policy has decided. -/
theorem ledger_considerProposals (phrases : Phrases) (settings : SourceSettings) (guards : Guards σ)
    (hnew : s.lastOutcomes = []) (snapshot : Snapshot) (passed : List Intent) (r : Readings) :
    ∃ ledger : List LedgerEntry,
      (ledger.map LedgerEntry.event).Perm ((findProposals snapshot).map Prod.snd) ∧
      (∀ entry ∈ ledger, entry.Fits) ∧
      (considerProposals phrases settings guards s snapshot passed r).2.lastOutcomes =
        outcomesOf ledger ∧
      (considerProposals phrases settings guards s snapshot passed r).1 =
        passed ++ emittedOf ledger := by
  have hrefused {reason : String} (h : reason ≠ "forwarded") (events : List (String × Event)) :
      ∀ entry ∈ events.map fun e => refused reason e.2, entry.Fits := by
    intro entry hentry
    obtain ⟨e, -, rfl⟩ := List.mem_map.mp hentry
    exact fits_refused e.2 h
  have hsilent (reason : String) (events : List (String × Event)) :
      emittedOf (events.map fun e => refused reason e.2) = [] := by
    unfold emittedOf
    rw [List.filterMap_eq_nil_iff]
    intro entry hentry
    obtain ⟨e, -, rfl⟩ := List.mem_map.mp hentry
    rfl
  have hevents (reason : String) (events : List (String × Event)) :
      (events.map fun e => refused reason e.2).map LedgerEntry.event = events.map Prod.snd :=
        List.map_map
  unfold considerProposals
  cases hfound : findProposals snapshot with
  | nil => exact ⟨[], .refl _, fun _ h => (by cases h), hnew, (List.append_nil _).symm⟩
  | cons top others =>
    dsimp only
    split
    · -- The others are superseded before the top is considered, whose entry comes last.
      obtain ⟨entry, hevent, hfits, houtcomes, hemitted⟩ :
        Settled (s.recordAll others "superseded") top.2 passed _ :=
        settled_realizeProposal phrases
      refine ⟨(others.map fun e => refused "superseded" e.2) ++ [entry], ?_, ?_, houtcomes.trans ?_,
        hemitted.trans ?_⟩
      · rw [List.map_append, hevents, List.map_singleton, hevent]
        exact List.perm_append_singleton _ _
      · intro other hother
        rcases List.mem_append.mp hother with hother | hother
        · exact hrefused (by decide) others other hother
        · rw [List.mem_singleton.mp hother]
          exact hfits
      · rw [recordAll_outcomes, hnew, List.nil_append, outcomesOf, outcomesOf, outcomesOf,
          List.flatMap_append]
      · unfold emittedOf
        rw [List.filterMap_append]
        exact congrArg _ (congrArg (· ++ _) (hsilent "superseded" others).symm)
    · refine ⟨(top :: others).map fun e => refused "disabled" e.2, ?_,
        hrefused (by decide) _, ?_, ?_⟩
      · rw [hevents]
      · rw [recordAll_outcomes, hnew, List.nil_append]
      · rw [hsilent, List.append_nil]

/-- The clearing of the guards looks at nothing else. -/
theorem cleared_eq (s : PlanningProposalSource σ) (snapshot : Snapshot) (now : ℚ) :
    (s.clearGuardsOnOwnOutput snapshot now).inner = s.inner ∧
    (s.clearGuardsOnOwnOutput snapshot now).lastOutcomes = s.lastOutcomes ∧
    (s.speakInFlight = false → (s.clearGuardsOnOwnOutput snapshot now).speakInFlight = false) ∧
    (s.thinkInFlight = false → (s.clearGuardsOnOwnOutput snapshot now).thinkInFlight = false) := by
  unfold PlanningProposalSource.clearGuardsOnOwnOutput PlanningProposalSource.applyGuardTimeouts
  split <;> split <;>
  · refine ⟨rfl, rfl, fun h => ?_, fun h => ?_⟩ <;>
      simp [PlanningProposalSource.releaseSpeak, PlanningProposalSource.releaseThink, guardAfter, h]

/-- The wrapped policy returns on the call, or no proposal of the coalition carries an id. -/
def Accountable (inner : Policy σ) (s : PlanningProposalSource σ) (snapshot : Snapshot)
    (r : Readings) : Prop :=
  (∃ intents, (inner.call s.inner (withoutProposals snapshot) r).1 = .ok intents) ∨
    ∀ entry ∈ findProposals snapshot, Dict.get entry.2.payload "proposal_id" = .null

theorem outcomeOf_eq_nil {reason : String} {realized : Bool} :
    outcomeOf event reason realized = [] ↔ Dict.get event.payload "proposal_id" = .null := by
  unfold outcomeOf
  cases Dict.get event.payload "proposal_id" <;> simp

theorem accounts_iff (phrases : Phrases) (settings : SourceSettings) (inner : Policy σ)
    (s : PlanningProposalSource σ) (snapshot : Snapshot) (r : Readings) :
    Accounts snapshot (inner.call s.inner (withoutProposals snapshot) r).1
      (call phrases settings inner s snapshot r) ↔ Accountable inner s snapshot r := by
  obtain ⟨hinner, hnew, -, -⟩ := cleared_eq { s with lastOutcomes := [] } snapshot r.sourceTimeout
  unfold call Accountable
  dsimp only
  generalize PlanningProposalSource.clearGuardsOnOwnOutput { s with lastOutcomes := [] } snapshot
    r.sourceTimeout = cleared at hinner hnew ⊢
  rw [hinner]
  dsimp only
  generalize inner.call s.inner (withoutProposals snapshot) r = called
  obtain ⟨returned, next⟩ := called
  cases returned with
  | error e =>
    dsimp only
    constructor
    · rintro ⟨ledger, hperm, -, houtcomes, -⟩
      refine .inr fun entry hentry => ?_
      obtain ⟨other, hother, heq⟩ :=
        List.mem_map.mp (hperm.mem_iff.mpr (List.mem_map_of_mem hentry))
      have hnone := List.flatMap_eq_nil_iff.mp (houtcomes.symm.trans hnew) other hother
      rw [← heq]
      exact outcomeOf_eq_nil.mp hnone
    · rintro (⟨intents, h⟩ | hnone)
      · cases h
      · refine ⟨(findProposals snapshot).map fun entry => refused "" entry.2, ?_, ?_, ?_,
          fun _ h => (by cases h)⟩
        · rw [List.map_map]
          exact .refl _
        · intro entry hentry
          obtain ⟨e, -, rfl⟩ := List.mem_map.mp hentry
          exact fits_refused e.2 (by decide)
        · refine hnew.trans (Eq.symm (List.flatMap_eq_nil_iff.mpr fun entry hentry => ?_))
          obtain ⟨e, he, rfl⟩ := List.mem_map.mp hentry
          exact outcomeOf_eq_nil.mpr (hnone e he)
  | ok intents =>
    dsimp only
    refine ⟨fun _ => .inl ⟨intents, rfl⟩, fun _ => ?_⟩
    let passed := intents.filter { cleared with inner := next }.passes
    let updated := PlanningProposalSource.updateLastAt { cleared with inner := next } passed
      r.sourcePassed
    have hupdated : updated.lastOutcomes = [] := hnew
    obtain ⟨ledger, hperm, hfits, houtcomes, hemitted⟩ :=
      ledger_considerProposals phrases settings inner.guards hupdated snapshot passed r
    refine ⟨ledger, hperm, hfits, houtcomes, fun returned h => ?_⟩
    cases h
    exact ⟨intents, _, rfl, List.filter_sublist, hemitted⟩

/-- What is done with a source between two readings of its outcomes. -/
inductive Use where
  | call (snapshot : Snapshot) (r : Readings)
  | inhibited (snapshot : Snapshot) (r : Readings)
  | markRealized
  | markThinkRealized

/-- The intents that the calls of a source pass on. -/
def passedOn (phrases : Phrases) (settings : SourceSettings) (inner : Policy σ) :
    PlanningProposalSource σ → List Use → List (Except PyError (List Intent))
  | _, [] => []
  | s, .call snapshot r :: uses =>
    let called := call phrases settings inner s snapshot r
    called.1 :: passedOn phrases settings inner called.2 uses
  | s, .inhibited snapshot r :: uses =>
    passedOn phrases settings inner (observeInhibited settings s snapshot r) uses
  | s, .markRealized :: uses =>
    passedOn phrases settings inner ((policy phrases settings inner).markRealized s) uses
  | s, .markThinkRealized :: uses =>
    passedOn phrases settings inner ((policy phrases settings inner).markThinkRealized s) uses

/-- What the wrapped policy returns by itself, on the same snapshots without their proposals. -/
def returnedAlone (inner : Policy σ) : σ → List Use → List (Except PyError (List Intent))
  | _, [] => []
  | s, .call snapshot r :: uses =>
    let called := inner.call s (withoutProposals snapshot) r
    called.1 :: returnedAlone inner called.2 uses
  | s, .inhibited _ _ :: uses => returnedAlone inner s uses
  | s, .markRealized :: uses => returnedAlone inner (inner.markRealized s) uses
  | s, .markThinkRealized :: uses => returnedAlone inner (inner.markThinkRealized s) uses

/-- No local guard is armed. -/
def Unarmed (s : PlanningProposalSource σ) : Prop :=
  s.speakInFlight = false ∧ s.thinkInFlight = false

theorem recordAll_eq (s : PlanningProposalSource σ) (events : List (String × Event))
    (reason : String) : (s.recordAll events reason).inner = s.inner ∧
      (Unarmed s → Unarmed (s.recordAll events reason)) := by
  unfold PlanningProposalSource.recordAll
  induction events generalizing s with
  | nil => exact ⟨rfl, id⟩
  | cons entry events ih =>
    obtain ⟨hinner, hunarmed⟩ := ih (s.record entry.2 reason false)
    exact ⟨hinner, fun h => hunarmed h⟩

/-- A call that drives nothing is one of the wrapped policy. -/
theorem call_undriven (phrases : Phrases) (hoff : settings.driveActions = false) (inner : Policy σ)
    (hs : Unarmed s) (snapshot : Snapshot) (r : Readings) :
    (call phrases settings inner s snapshot r).1 =
      (inner.call s.inner (withoutProposals snapshot) r).1 ∧
    (call phrases settings inner s snapshot r).2.inner =
      (inner.call s.inner (withoutProposals snapshot) r).2 ∧
    Unarmed (call phrases settings inner s snapshot r).2 := by
  obtain ⟨hinner, -, hspeak, hthink⟩ :=
    cleared_eq { s with lastOutcomes := [] } snapshot r.sourceTimeout
  have hspeak := hspeak hs.1
  have hthink := hthink hs.2
  unfold call
  dsimp only
  rw [hinner]
  dsimp only
  generalize inner.call s.inner (withoutProposals snapshot) r = called
  obtain ⟨returned, next⟩ := called
  cases returned with
  | error e => exact ⟨rfl, rfl, hspeak, hthink⟩
  | ok intents =>
    dsimp only
    rw [List.filter_eq_self.mpr fun intent _ => by
      simp [PlanningProposalSource.passes, hspeak, hthink]]
    unfold considerProposals
    cases findProposals snapshot with
    | nil => exact ⟨rfl, rfl, hspeak, hthink⟩
    | cons top others =>
      dsimp only
      rw [hoff, if_neg Bool.false_ne_true]
      obtain ⟨hsame, hunarmed⟩ := recordAll_eq (PlanningProposalSource.updateLastAt
        { PlanningProposalSource.clearGuardsOnOwnOutput { s with lastOutcomes := [] } snapshot
          r.sourceTimeout with
          inner := next } intents r.sourcePassed) (top :: others) "disabled"
      exact ⟨rfl, hsame, hunarmed ⟨hspeak, hthink⟩⟩

theorem passedOn_undriven (phrases : Phrases) (hoff : settings.driveActions = false)
    (inner : Policy σ) (hs : Unarmed s) (uses : List Use) :
    passedOn phrases settings inner s uses = returnedAlone inner s.inner uses := by
  induction uses generalizing s with
  | nil => rfl
  | cons use uses ih =>
    cases use with
    | call snapshot r =>
      obtain ⟨hreturned, hinner, hunarmed⟩ := call_undriven phrases hoff inner hs snapshot r
      rw [passedOn, returnedAlone, hreturned, ih hunarmed, hinner]
    | inhibited snapshot r =>
      obtain ⟨hinner, -, hspeak, hthink⟩ :=
        cleared_eq { s with lastOutcomes := [] } snapshot r.sourceTimeout
      obtain ⟨hsame, hunarmed⟩ := recordAll_eq
        (PlanningProposalSource.clearGuardsOnOwnOutput { s with lastOutcomes := [] } snapshot
          r.sourceTimeout)
        (findProposals snapshot) (if settings.driveActions then "inhibited" else "disabled")
      have hobserved : (observeInhibited settings s snapshot r).inner = s.inner :=
        hsame.trans hinner
      have hunarmed' : Unarmed (observeInhibited settings s snapshot r) :=
        hunarmed ⟨hspeak hs.1, hthink hs.2⟩
      rw [passedOn, returnedAlone, ih hunarmed', hobserved]
    | markRealized => exact ih ⟨rfl, hs.2⟩
    | markThinkRealized => exact ih ⟨hs.1, rfl⟩

/-- A call accounts for its coalition exactly when the wrapped policy returns or there is no id to
account for; and a source that drives nothing passes on what the wrapped policy returns by
itself. -/
theorem proposals_accounted (phrases : Phrases) (settings : SourceSettings) (inner : Policy σ) :
    (∀ (s : PlanningProposalSource σ) snapshot r,
      Accounts snapshot (inner.call s.inner (withoutProposals snapshot) r).1
        (call phrases settings inner s snapshot r) ↔ Accountable inner s snapshot r) ∧
    (settings.driveActions = false → ∀ (s : PlanningProposalSource σ) uses, Unarmed s →
      passedOn phrases settings inner s uses = returnedAlone inner s.inner uses) :=
  ⟨accounts_iff phrases settings inner,
    fun hoff _ uses hs => passedOn_undriven phrases hoff inner hs uses⟩

end

section Example

/-- A policy that counts its calls, and raises on those up to the given one. -/
def counting (raises : ℕ) : Policy ℕ where
  call n _ _ := (if n < raises then .error .valueError else .ok [], n + 1)
  guards := ⟨fun _ _ => none, none⟩

def plainPhrases : Phrases := ⟨fun _ => "", fun source _ => source, fun drive _ => drive,
      fun _ => ""⟩

def thinkProposal : Event where
  source := "planning"
  type := "planning.proposal"
  payload := [("proposal_id", .str "p1"), ("kind", .str "think")]
  salience := 0
  timestamp := 0
  salience_valid := zero_salience

def heardEvent : Event where
  source := "audition"
  type := "audition.report"
  salience := 0
  timestamp := 0
  salience_valid := zero_salience

def proposalSnapshot : Snapshot where
  tickIndex := 1
  selectedEvents := [("1-0", thinkProposal), ("1-1", heardEvent)]

def someReadings : Readings := ⟨0, 0, 0, 0, 0, 0, 0, 0, 0, 0⟩

def newSource : PlanningProposalSource ℕ := { inner := 0, lastRestAt := 0 }

theorem proposal_accounted :
    Accounts proposalSnapshot (.ok []) (call plainPhrases {} (counting 0) newSource proposalSnapshot
      someReadings) ∧
    passedOn plainPhrases { driveActions := false } (counting 1) newSource
        [.call proposalSnapshot someReadings, .markRealized, .call proposalSnapshot someReadings] =
      [.error .valueError, .ok []] := by
  refine ⟨((proposals_accounted plainPhrases {} (counting 0)).1 newSource proposalSnapshot
    someReadings).mpr (.inl ⟨[], rfl⟩), ?_⟩
  exact (proposals_accounted plainPhrases { driveActions := false } (counting 1)).2 rfl newSource _
    ⟨rfl, rfl⟩

/-- A proposal for which the wrapped policy raises has no outcome. -/
theorem raising_policy_unaccounted :
    findProposals proposalSnapshot = [("1-0", thinkProposal)] ∧
    (call plainPhrases {} (counting 1) newSource proposalSnapshot someReadings).2.lastOutcomes =
      [] ∧
    ¬ Accounts proposalSnapshot (.error .valueError)
      (call plainPhrases {} (counting 1) newSource proposalSnapshot someReadings) := by
  have hfound : findProposals proposalSnapshot = [("1-0", thinkProposal)] := by decide
  refine ⟨hfound, by decide, fun h => ?_⟩
  rcases (accounts_iff plainPhrases {} (counting 1) newSource proposalSnapshot someReadings).mp
    h with ⟨_, h⟩ | h
  · cases h
  · have hnone := h ("1-0", thinkProposal) (by rw [hfound]; exact List.mem_cons_self)
    cases hnone

end Example

end Kaine.PlanningProposals
