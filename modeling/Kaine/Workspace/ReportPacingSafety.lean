import Kaine.Workspace.PlanningProposals
import Kaine.Lib.Pacing
import Mathlib.Tactic.Linarith

/-! How the reports of a whole selection stack are paced over any run, and what inhibition stops. -/
namespace Kaine.ReportPacing
open Py Bus ActionSelection ReportPolicy PlanningProposals Transition

abbrev Event := Pacing.Event Signature ℚ

def rules (settings : ReportSettings) : Pacing.Rules ℚ where
  rest := settings.speakRefractoryS
  expiry := settings.sigExpiryS
  timeout := guardTimeoutS

/-- The report policy as a speaker. -/
def view (s : SelfInitiatedReportPolicy) : Pacing.State Signature ℚ where
  inFlight := s.speakInFlight
  lastAt := s.lastSpeakAt
  armedAt := s.speakArmedAt
  said := s.lastReportSig.bind fun signature => s.sigSetAt.map (signature, ·)

/-- The releases at the start of a call. -/
def releases (s : SelfInitiatedReportPolicy) (snapshot : Snapshot) (guardNow : ℚ) : List Event :=
  (if selects snapshot isExternalSpeech then [.release .output] else []) ++
    if (s.observeOutputs snapshot).speakTimedOut guardNow then [.release (.timeout guardNow)]
      else []

/-- A spoken intent as an event: the report's own is about the top of what the policy saw. -/
def spoken (seen : Snapshot) (r : Readings) (intent : Intent) : Option Event :=
  if intent.kind = .speak then
    if intent.origin = some "planning" then some (.other r.notedNow r.notedGuard)
    else (topCandidate seen).map fun entry =>
      .speak (signatureOf entry.2) r.now r.speakArmedAt intent.interrupt
  else none

variable {phrases : Phrases} {settings : ReportSettings} {s : SelfInitiatedReportPolicy}
  {snapshot : Snapshot} {r : Readings} {signature : Signature} {surprise : PyFloat}

/-- A speaker has no part in the thoughts. -/
theorem view_thinkRealized (c : Bool) (s : SelfInitiatedReportPolicy) :
    view (if c then s.markThinkRealized else s) = view s := by
  cases c <;> rfl

theorem view_observeOutputs (s : SelfInitiatedReportPolicy) (snapshot : Snapshot) :
    Run (Pacing.Step (rules settings)) (view s)
      (if selects snapshot isExternalSpeech then [.release .output] else [])
      (view (s.observeOutputs snapshot)) := by
  have hthink : view (s.observeOutputs snapshot) =
      view (if selects snapshot isExternalSpeech then s.markRealized else s) :=
    view_thinkRealized _ _
  rw [hthink]
  split
  · exact .single (.output (view s))
  · exact .refl _

theorem le_of_elapsed {now least t : ℚ} {since : Option ℚ} (h : elapsed now since least = true)
    (ht : since = some t) : least ≤ now - t := by
  simpa [elapsed, ht] using h

theorem view_applyTimeouts (s : SelfInitiatedReportPolicy) (guardNow : ℚ) :
    Run (Pacing.Step (rules settings)) (view s)
      (if s.speakTimedOut guardNow then [.release (.timeout guardNow)] else [])
      (view (s.applyTimeouts guardNow)) := by
  have hthink : view (s.applyTimeouts guardNow) =
      view (if s.speakTimedOut guardNow then s.markRealized else s) :=
    view_thinkRealized _ _
  rw [hthink]
  split
  · rename_i htimedOut
    obtain ⟨hflight, helapsed⟩ := Bool.and_eq_true_iff.mp htimedOut
    exact .single (.timeout hflight fun _ => le_of_elapsed helapsed)
  · exact .refl _

theorem cleared_run (settings : ReportSettings) (s : SelfInitiatedReportPolicy)
    (snapshot : Snapshot) (guardNow : ℚ) :
    Run (Pacing.Step (rules settings)) (view s) (releases s snapshot guardNow)
      (view (s.clearGuardsOnOwnOutput snapshot guardNow)) :=
  (view_observeOutputs s snapshot).append (view_applyTimeouts _ guardNow)

/-- A signature that the memory does not block was not said last, or has expired. -/
theorem fresh_of_not_blocked {now : ℚ} (h : s.sigBlocks settings signature now = false) :
    Pacing.Fresh (rules settings) (view s) signature now := by
  intro t hsaid
  obtain ⟨signature', hsig, hset⟩ := Option.bind_eq_some_iff.mp hsaid
  obtain ⟨t', ht', hpair⟩ := Option.map_eq_some_iff.mp hset
  obtain ⟨rfl, rfl⟩ := Prod.mk.inj hpair
  unfold SelfInitiatedReportPolicy.sigBlocks at h
  cases hexpiry : settings.sigExpiryS with
  | none => simp [hsig, hexpiry] at h
  | some expiry =>
    refine ⟨expiry, hexpiry, ?_⟩
    simpa [hsig, hexpiry, ht'] using h

theorem rested_of_elapsed {now : ℚ}
    (h : elapsed now s.lastSpeakAt settings.speakRefractoryS = true) :
    Pacing.Rested (rules settings) (view s) now := fun _ => le_of_elapsed h

theorem view_speak (s : SelfInitiatedReportPolicy) (signature : Signature) (r : Readings) :
    view (s.speak signature r) = .spoken signature r.now r.speakArmedAt := rfl

/-- What is decided about the top of a coalition keeps the rules of a speaker. -/
theorem choose_run (s : SelfInitiatedReportPolicy) {entry : String × Bus.Event}
    (htop : topCandidate snapshot = some entry) (surprise : PyFloat) (r : Readings) :
    Run (Pacing.Step (rules settings)) (view s)
      ((s.choose phrases settings entry surprise r).1.filterMap (spoken snapshot r))
      (view (s.choose phrases settings entry surprise r).2) := by
  have hevent : ∀ interrupt, spoken snapshot r
      (intentOf phrases settings .speak interrupt entry surprise) =
        some (.speak (signatureOf entry.2) r.now r.speakArmedAt interrupt) := by
    intro interrupt
    simp [spoken, intentOf, htop]
  unfold SelfInitiatedReportPolicy.choose
  dsimp only
  split
  · rename_i hinterrupt
    simp only [SelfInitiatedReportPolicy.mayInterrupt, Bool.and_eq_true, Bool.not_eq_true']
      at hinterrupt
    rw [view_speak, List.filterMap_cons_some (hevent true), List.filterMap_nil]
    exact .single (.interrupt hinterrupt.1.2 (fresh_of_not_blocked hinterrupt.2))
  · split
    · rename_i hspeak
      simp only [SelfInitiatedReportPolicy.maySpeak, Bool.and_eq_true, Bool.not_eq_true'] at hspeak
      rw [view_speak, List.filterMap_cons_some (hevent false), List.filterMap_nil]
      exact .single (.report hspeak.1.1.2 (rested_of_elapsed hspeak.1.2)
        (fresh_of_not_blocked hspeak.2))
    · split
      · have hthink : spoken snapshot r (intentOf phrases settings .think false entry surprise) =
            none := rfl
        rw [List.filterMap_cons_none hthink]
        exact .refl _
      · exact .refl _

/-- A call on a snapshot that is not inhibited is a run of the speaker. -/
theorem call_run (phrases : Phrases) (settings : ReportSettings)
    (s : SelfInitiatedReportPolicy) (hfree : snapshot.inhibited = false)
    (r : Readings) :
    Run (Pacing.Step (rules settings)) (view s)
      (releases s snapshot r.guardNow ++
        (s.call phrases settings snapshot r).1.filterMap (spoken snapshot r))
      (view (s.call phrases settings snapshot r).2) := by
  have hcleared := cleared_run settings s snapshot r.guardNow
  unfold SelfInitiatedReportPolicy.call
  simp only [hfree, Bool.false_eq_true, if_false]
  cases htop : topCandidate snapshot with
  | none => simpa using hcleared
  | some entry => exact hcleared.append (choose_run _ htop _ r)

/-- A policy around a report policy, which it calls on what it lets it see. -/
structure Hosts {σ : Type} (settings : ReportSettings) (policy : Policy σ)
    (inner : σ → SelfInitiatedReportPolicy) (seen : Snapshot → Snapshot) (good : σ → Prop) :
    Prop where
  call : ∀ s snapshot r, good s → snapshot.inhibited = false → ∃ intents,
    (policy.call s snapshot r).1 = .ok intents ∧ good (policy.call s snapshot r).2 ∧
    Run (Pacing.Step (rules settings)) (view (inner s))
      (releases (inner s) (seen snapshot) r.guardNow ++ intents.filterMap
        (spoken (seen snapshot) r))
      (view (inner (policy.call s snapshot r).2))
  inhibited : ∀ s snapshot r, good s → good (policy.observeInhibited s snapshot r) ∧
    inner (policy.observeInhibited s snapshot r) = inner s
  realized : ∀ s, good s → good (policy.markRealized s) ∧
    inner (policy.markRealized s) = (inner s).markRealized
  thinkRealized : ∀ s, good s → good (policy.markThinkRealized s) ∧
    inner (policy.markThinkRealized s) = (inner s).markThinkRealized

theorem hosts_report (phrases : Phrases) (settings : ReportSettings) :
    Hosts settings (ReportPolicy.policy phrases settings) id id fun _ => True where
  call := fun s _ r _ hfree => ⟨_, rfl, trivial, call_run phrases settings s hfree r⟩
  inhibited := fun _ _ _ _ => ⟨trivial, rfl⟩
  realized := fun _ _ => ⟨trivial, rfl⟩
  thinkRealized := fun _ _ => ⟨trivial, rfl⟩

/-- A proposal source whose wrapped policy guards both kinds keeps its own guards down. -/
def GuardsDown (s : PlanningProposalSource SelfInitiatedReportPolicy) : Prop :=
  s.speakInFlight = false ∧ s.thinkInFlight = false

section
variable {p : PlanningProposalSource SelfInitiatedReportPolicy} {intents : List Intent}

theorem guardsDown_cleared (h : GuardsDown p) (snapshot : Snapshot) (now : ℚ) :
    GuardsDown (p.clearGuardsOnOwnOutput snapshot now) ∧
      (p.clearGuardsOnOwnOutput snapshot now).inner = p.inner := by
  obtain ⟨hspeak, hthink⟩ := h
  unfold PlanningProposalSource.clearGuardsOnOwnOutput
  split <;> split <;>
    simp [GuardsDown, PlanningProposalSource.applyGuardTimeouts, DrivePolicy.guardAfter, hspeak,
      hthink, PlanningProposalSource.releaseSpeak, PlanningProposalSource.releaseThink]

theorem recordAll_eq (p : PlanningProposalSource SelfInitiatedReportPolicy)
    (events : List (String × Bus.Event)) (reason : String) :
    (GuardsDown p → GuardsDown (p.recordAll events reason)) ∧
      (p.recordAll events reason).inner = p.inner := by
  unfold PlanningProposalSource.recordAll
  induction events generalizing p with
  | nil => exact ⟨id, rfl⟩
  | cons entry events ih =>
    obtain ⟨hguards, hinner⟩ := ih (p.record entry.2 reason false)
    exact ⟨fun h => hguards h, hinner⟩

/-- What a realized proposal is to the speaker: nothing, or an utterance of another. -/
theorem realizeSpoken_run (h : GuardsDown p) {sourceSettings : SourceSettings} (kind : SpokenKind)
    (event : Bus.Event) (snapshot seen : Snapshot) (passed : List Intent) (r : Readings) :
    ∃ added : List Intent,
      (realizeSpoken phrases sourceSettings ReportPolicy.guards p kind event snapshot passed r).1 =
        passed ++ added ∧
      GuardsDown
        (realizeSpoken phrases sourceSettings ReportPolicy.guards p kind event snapshot
          passed r).2 ∧
      Run (Pacing.Step (rules settings)) (view p.inner) (added.filterMap (spoken seen r))
        (view (realizeSpoken phrases sourceSettings ReportPolicy.guards p kind event snapshot passed
          r).2.inner) := by
  unfold realizeSpoken
  split
  · exact ⟨[], by simp, h, .refl _⟩
  · split
    · exact ⟨[], by simp, h, .refl _⟩
    · cases topNonPlanningMember snapshot with
      | none => exact ⟨[], by simp, h, .refl _⟩
      | some entry =>
        refine ⟨_, rfl, ?_, ?_⟩
        · cases kind <;> exact h
        · cases kind with
          | speak => exact .single (.other (view p.inner) r.notedNow r.notedGuard)
          | think => exact .refl _

theorem considerProposals_run (h : GuardsDown p) (phrases : Phrases) (settings : ReportSettings)
    (sourceSettings : SourceSettings) (snapshot seen : Snapshot) (passed : List Intent)
    (r : Readings) :
    ∃ added : List Intent,
      (considerProposals phrases sourceSettings ReportPolicy.guards p snapshot passed r).1 =
        passed ++ added ∧
      GuardsDown
        (considerProposals phrases sourceSettings ReportPolicy.guards p snapshot passed r).2 ∧
      Run (Pacing.Step (rules settings)) (view p.inner) (added.filterMap (spoken seen r))
        (view (considerProposals phrases sourceSettings ReportPolicy.guards p snapshot passed
          r).2.inner) := by
  unfold considerProposals
  cases findProposals snapshot with
  | nil => exact ⟨[], by simp, h, .refl _⟩
  | cons top others =>
    dsimp only
    split
    · obtain ⟨hguards, hinner⟩ := recordAll_eq p others "superseded"
      have hdown := hguards h
      rw [← hinner]
      generalize p.recordAll others "superseded" = q at hdown ⊢
      unfold realizeProposal
      cases proposedKind top.2 with
      | spoken kind =>
        dsimp only
        split
        · exact ⟨[], by simp, hdown, .refl _⟩
        · exact realizeSpoken_run hdown kind top.2 snapshot seen passed r
      | rest =>
        dsimp only
        unfold forwardRest
        split
        · exact ⟨[], by simp, hdown, .refl _⟩
        · exact ⟨_, rfl, hdown, .refl _⟩
      | unknown => exact ⟨[], by simp, hdown, .refl _⟩
    · obtain ⟨hguards, hinner⟩ := recordAll_eq p (top :: others) "disabled"
      refine ⟨[], by simp, hguards h, ?_⟩
      rw [hinner]
      exact .refl _

end

theorem inhibited_withoutProposals (snapshot : Snapshot) :
    (withoutProposals snapshot).inhibited = snapshot.inhibited := by
  unfold withoutProposals
  dsimp only
  split <;> rfl

theorem hosts_planning (phrases : Phrases) (settings : ReportSettings)
    (sourceSettings : SourceSettings) :
    Hosts settings
      (PlanningProposals.policy phrases sourceSettings (ReportPolicy.policy phrases settings))
      PlanningProposalSource.inner withoutProposals GuardsDown where
  call := by
    intro s snapshot r hdown hfree
    obtain ⟨hcleared, hinner⟩ := guardsDown_cleared (p := { s with lastOutcomes := [] }) hdown
      snapshot r.sourceTimeout
    have hseen : (withoutProposals snapshot).inhibited = false :=
      (inhibited_withoutProposals snapshot).trans hfree
    have hcall := call_run phrases settings s.inner hseen r
    simp only [PlanningProposals.policy, PlanningProposals.call, ReportPolicy.policy, hinner]
    generalize s.inner.call phrases settings (withoutProposals snapshot) r = called at hcall ⊢
    obtain ⟨intents, inner⟩ := called
    have hpasses : ∀ intent ∈ intents,
        ({ (PlanningProposalSource.clearGuardsOnOwnOutput { s with lastOutcomes := [] } snapshot
            r.sourceTimeout) with inner := inner }).passes intent = true := by
      intro intent _
      simp [PlanningProposalSource.passes, hcleared.1, hcleared.2]
    rw [List.filter_eq_self.mpr hpasses]
    have hupdated : GuardsDown (PlanningProposalSource.updateLastAt
        { (PlanningProposalSource.clearGuardsOnOwnOutput { s with lastOutcomes := [] } snapshot
          r.sourceTimeout) with inner := inner } intents r.sourcePassed) := hcleared
    obtain ⟨added, hadded, hdown', hrun⟩ := considerProposals_run hupdated phrases settings
      sourceSettings snapshot (withoutProposals snapshot) intents r
    refine ⟨intents ++ added, congrArg Except.ok hadded, hdown', ?_⟩
    rw [List.filterMap_append, ← List.append_assoc]
    exact hcall.append hrun
  inhibited := by
    intro s snapshot r hdown
    obtain ⟨hcleared, hinner⟩ := guardsDown_cleared (p := { s with lastOutcomes := [] }) hdown
      snapshot r.sourceTimeout
    obtain ⟨hguards, hall⟩ := recordAll_eq (PlanningProposalSource.clearGuardsOnOwnOutput
      { s with lastOutcomes := [] } snapshot r.sourceTimeout) (findProposals snapshot)
      (if sourceSettings.driveActions then "inhibited" else "disabled")
    exact ⟨hguards hcleared, hall.trans hinner⟩
  realized := fun _ hdown => ⟨⟨rfl, hdown.2⟩, rfl⟩
  thinkRealized := fun _ hdown => ⟨⟨hdown.1, rfl⟩, rfl⟩

/-- What happens to a selection: a snapshot is handed to it, or an output of the organ. -/
inductive Move where
  | select (snapshot : Snapshot) (r : Readings)
  | observe (event : Bus.Event)

section
variable {σ ν : Type}

/-- A move of a selection, with what it is to the speaker inside. -/
def step (policy : Policy σ) (signer : Option (Signer ν)) (inner : σ → SelfInitiatedReportPolicy)
    (seen : Snapshot → Snapshot) (s : Selection σ ν) : Move → Option (List Event) × Selection σ ν
  | .select snapshot r =>
    let selected := select policy signer s snapshot r
    (some (if snapshot.inhibited then []
        else releases (inner s.policy) (seen snapshot) r.guardNow ++
          selected.1.filterMap (spoken (seen snapshot) r)),
      selected.2)
  | .observe event =>
    (some (if isExternalSpeech event then [.release .output] else []),
      observeOwnOutput policy s event)

/-- The speaker's events over a run. -/
def log (policy : Policy σ) (signer : Option (Signer ν)) (inner : σ → SelfInitiatedReportPolicy)
    (seen : Snapshot → Snapshot) (s : Selection σ ν) (moves : List Move) : List Event :=
  (outputs (step policy signer inner seen) s moves).1.flatten

/-- Signing touches no spoken intent. -/
theorem spoken_signAll (signer : Option (Signer ν)) (seen : Snapshot) (r : Readings) (n : ν)
    (intents : List Intent) :
    (signAll signer n intents).1.filterMap (spoken seen r) = intents.filterMap (spoken seen r) := by
  induction intents generalizing n with
  | nil => rfl
  | cons intent intents ih =>
    have hsame : spoken seen r (signIntent signer n intent).1 = spoken seen r intent := by
      cases signer with
      | none => rfl
      | some signer =>
        by_cases hact : intent.kind = .act
        · simp [signIntent, hact, spoken]
        · simp [signIntent, hact]
    simp only [signAll, List.filterMap_cons, hsame, ih]

/-- A move of a selection around a report policy is a run of the speaker inside. -/
theorem step_run {policy : Policy σ} {inner : σ → SelfInitiatedReportPolicy}
    {seen : Snapshot → Snapshot} {good : σ → Prop} (h : Hosts settings policy inner seen good)
    (signer : Option (Signer ν)) (s : Selection σ ν) (move : Move) (hs : good s.policy) :
    Run (Pacing.Step (rules settings)) (view (inner s.policy))
      ((step policy signer inner seen s move).1.getD [])
      (view (inner (step policy signer inner seen s move).2.policy)) ∧
    good (step policy signer inner seen s move).2.policy := by
  cases move with
  | select snapshot r =>
    cases hinhibited : snapshot.inhibited with
    | true =>
      obtain ⟨hgood, hinner⟩ := h.inhibited s.policy snapshot r hs
      simp only [step, select, hinhibited, if_true, Option.getD_some, hinner]
      exact ⟨.refl _, hgood⟩
    | false =>
      obtain ⟨intents, hintents, hgood, hrun⟩ := h.call s.policy snapshot r hs hinhibited
      simp only [step, select, hinhibited, Bool.false_eq_true, if_false, hintents,
        Option.getD_some, spoken_signAll]
      exact ⟨hrun, hgood⟩
  | observe event =>
    obtain ⟨hgood, hinner⟩ := h.realized s.policy hs
    obtain ⟨hgood', hinner'⟩ := h.thinkRealized s.policy hs
    simp only [step, observeOwnOutput, Option.getD_some]
    split
    · simp only [hinner]
      exact ⟨.single (.output _), hgood⟩
    · split
      · simp only [hinner']
        exact ⟨.refl _, hgood'⟩
      · exact ⟨.refl _, hs⟩

theorem log_run {policy : Policy σ} {inner : σ → SelfInitiatedReportPolicy}
    {seen : Snapshot → Snapshot} {good : σ → Prop} (h : Hosts settings policy inner seen good)
    (signer : Option (Signer ν)) (s : Selection σ ν) (hs : good s.policy) (moves : List Move) :
    ∃ t, Run (Pacing.Step (rules settings)) (view (inner s.policy))
      (log policy signer inner seen s moves) t :=
  ⟨_, run_outputs (fun s => view (inner s.policy)) (P := fun s => good s.policy)
    (fun s move hs => step_run h signer s move hs) s hs moves⟩

end

/-- The laws of a speaker's events. -/
structure Paced (settings : ReportSettings) (events : List Event) : Prop where
  /-- Between two reports the first is released: by an output, or by a timeout the guard's whole
  time after it was last armed. -/
  released : ∀ pre a ta ga mid b tb gb post,
    events = pre ++ .speak a ta ga false :: (mid ++ .speak b tb gb false :: post) →
    ∃ before why after, mid = before ++ .release why :: after ∧
      (∀ e ∈ before, e.isRelease = false) ∧
      ∀ reading, why = .timeout reading →
        guardTimeoutS ≤ reading - Pacing.latest Pacing.Event.armedAt ga before ∧
        ((ga :: before.filterMap Pacing.Event.armedAt).Pairwise (· ≤ ·) →
          guardTimeoutS ≤ reading - ga)
  /-- The refractory interval lies before a report, since the latest utterance whoever's it was. -/
  rested : ∀ pre a ta ga mid b tb gb post,
    events = pre ++ .speak a ta ga false :: (mid ++ .speak b tb gb false :: post) →
    settings.speakRefractoryS ≤ tb - Pacing.latest Pacing.Event.startedAt ta mid ∧
    ((ta :: mid.filterMap Pacing.Event.startedAt).Pairwise (· ≤ ·) →
      settings.speakRefractoryS ≤ tb - ta)
  /-- One signature is not reported twice in a row before it expires. -/
  fresh : ∀ pre a ta ga i mid tb gb j post,
    events = pre ++ .speak a ta ga i :: (mid ++ .speak a tb gb j :: post) →
    (∀ e ∈ mid, e.isSpeak = false) →
    ∃ expiry, settings.sigExpiryS = some expiry ∧ expiry ≤ tb - ta

theorem paced_of_run {s t : Pacing.State Signature ℚ} {events : List Event}
    (h : Run (Pacing.Step (rules settings)) s events t) : Paced settings events := by
  have hpart : ∀ pre (first : Event) mid second post,
      events = pre ++ first :: (mid ++ second :: post) →
      ∃ v w, Run (Pacing.Step (rules settings)) v (first :: (mid ++ [second])) w := by
    intro pre first mid second post heq
    have hsplit : events = pre ++ ((first :: (mid ++ [second])) ++ post) := by simp [heq]
    rw [hsplit] at h
    obtain ⟨v, -, hrest⟩ := h.split
    obtain ⟨w, hrun, -⟩ := hrest.split
    exact ⟨v, w, hrun⟩
  refine ⟨?_, ?_, ?_⟩
  · intro pre a ta ga mid b tb gb post heq
    obtain ⟨v, w, hrun⟩ := hpart _ _ _ _ _ heq
    obtain ⟨before, why, after, hmid, hbefore, htimeout⟩ := Pacing.release_between hrun
    refine ⟨before, why, after, hmid, hbefore, fun reading hwhy => ?_⟩
    have hsince : guardTimeoutS ≤ reading - Pacing.latest Pacing.Event.armedAt ga before :=
      htimeout reading hwhy
    refine ⟨hsince, fun hordered => ?_⟩
    have hle := Pacing.le_latest hordered
    linarith
  · intro pre a ta ga mid b tb gb post heq
    obtain ⟨v, w, hrun⟩ := hpart _ _ _ _ _ heq
    have hrested : settings.speakRefractoryS ≤
        tb - Pacing.latest Pacing.Event.startedAt ta mid := Pacing.rested_between hrun
    refine ⟨hrested, fun hordered => ?_⟩
    have hle := Pacing.le_latest hordered
    linarith
  · intro pre a ta ga i mid tb gb j post heq hmid
    obtain ⟨v, w, hrun⟩ := hpart _ _ _ _ _ heq
    exact Pacing.expired_between hrun hmid

/-- A selection around any policy says nothing on an inhibited snapshot; nor does a report policy
by itself. In every run of a selection around a report policy, alone or inside a source of
proposals, the reports are paced. -/
theorem selection_paced (phrases : Phrases) (settings : ReportSettings)
    (sourceSettings : SourceSettings) :
    (∀ {σ ν : Type} (policy : Policy σ) (signer : Option (Signer ν)) s snapshot r,
      snapshot.inhibited = true → (select policy signer s snapshot r).1 = []) ∧
    (∀ s snapshot r, snapshot.inhibited = true →
      SelfInitiatedReportPolicy.call phrases settings s snapshot r = ([], s)) ∧
    (∀ {ν : Type} (signer : Option (Signer ν)) n s moves,
      Paced settings
        (log (ReportPolicy.policy phrases settings) signer id id ⟨s, n⟩ moves)) ∧
    ∀ {ν : Type} (signer : Option (Signer ν)) n s rest moves,
      Paced settings
        (log (PlanningProposals.policy phrases sourceSettings
          (ReportPolicy.policy phrases settings)) signer PlanningProposalSource.inner
            withoutProposals
          ⟨{ inner := s, lastRestAt := rest }, n⟩ moves) := by
  refine ⟨?_, ?_, ?_, ?_⟩
  · intro σ ν policy signer s snapshot r hinhibited
    simp [select, hinhibited]
  · intro s snapshot r hinhibited
    simp [SelfInitiatedReportPolicy.call, hinhibited]
  · intro ν signer n s moves
    obtain ⟨t, hrun⟩ := log_run (hosts_report phrases settings) signer ⟨s, n⟩ trivial moves
    exact paced_of_run hrun
  · intro ν signer n s rest moves
    obtain ⟨t, hrun⟩ := log_run (hosts_planning phrases settings sourceSettings) signer
      ⟨{ inner := s, lastRestAt := rest }, n⟩ ⟨rfl, rfl⟩ moves
    exact paced_of_run hrun

section
def noPhrases : Phrases := ⟨fun _ => "", fun _ _ => "", fun _ _ => "", fun _ => ""⟩

def interrupting : ReportSettings where
  interruptThreshold := some (19 / 20)
  thresholds := by norm_num
  interrupt_mem := by
    intro bar hbar
    obtain rfl := Option.some.inj hbar
    norm_num
  refractory_nonneg := by norm_num

theorem planning_valid : validName 64 "planning" = true := by decide
theorem proposal_valid : validName 128 "planning.proposal" = true := by decide
theorem affect_valid : validName 64 "affect" = true := by decide
theorem drive_valid : validName 128 "affect.drive" = true := by decide
theorem language_valid : validName 64 "language" = true := by decide
theorem externalSpeech_valid : validName 128 "external_speech" = true := by decide
theorem report_valid : validName 128 "report" = true := by decide
theorem silent_valid : (0 : ℚ) ≤ 0 ∧ (0 : ℚ) ≤ 1 := by norm_num

def restProposal : Bus.Event where
  source := "planning"
  type := "planning.proposal"
  payload := [("kind", .str "rest")]
  salience := 0
  timestamp := 0
  source_valid := planning_valid
  type_valid := proposal_valid
  salience_valid := silent_valid

def curiosityCrossing : Bus.Event where
  source := "affect"
  type := "affect.drive"
  payload := [("drive", .str "curiosity")]
  salience := 0
  timestamp := 0
  source_valid := affect_valid
  type_valid := drive_valid
  salience_valid := silent_valid

def ownSpeech : Bus.Event where
  source := "language"
  type := "external_speech"
  salience := 0
  timestamp := 0
  source_valid := language_valid
  type_valid := externalSpeech_valid
  salience_valid := silent_valid

/-- Something of the affect module's, and the same of planning's. -/
def felt : Bus.Event := { ownSpeech with
  source := "affect", type := "report", source_valid := affect_valid, type_valid := report_valid }

def planned : Bus.Event := { felt with source := "planning", source_valid := planning_valid }

/-- An inhibited snapshot of one event. -/
def inhibitedWith (event : Bus.Event) : Snapshot where
  tickIndex := 0
  selectedEvents := [("e", event)]
  inhibited := true

/-- A snapshot of one event with the greatest salience. -/
def salient (event : Bus.Event) : Snapshot where
  tickIndex := 0
  selectedEvents := [("e", event)]
  salienceScores := [("e", .fin 1)]

/-- All clocks agree. -/
def readingsAt (t : ℚ) : Readings := ⟨t, t, t, t, t, t, t, t, t, t⟩

/-- The clock runs back between a report and the interruption of it. -/
def clockRunsBack : List Move :=
  [.select (salient felt) (readingsAt 100), .select (salient planned) (readingsAt 0),
    .observe ownSpeech, .select (salient felt) (readingsAt 8)]

theorem log_clockRunsBack :
    log (ReportPolicy.policy noPhrases interrupting) (none : Option (Signer Unit)) id id ⟨{}, ()⟩
      clockRunsBack =
      [.speak ("affect", "report") 100 100 false, .speak ("planning", "report") 0 0 true,
        .release .output, .speak ("affect", "report") 8 8 false] := by decide +kernel

end

/-- Neither a source of proposals nor the policy of the drives looks at the inhibition itself; and a
clock that runs back between two reports brings them closer than the refractory interval. -/
theorem inner_layers_ungated :
    (¬ ∀ s snapshot r, snapshot.inhibited = true →
      (PlanningProposals.call noPhrases {} (ReportPolicy.policy noPhrases interrupting) s snapshot
        r).1 = .ok []) ∧
    (¬ ∀ s snapshot r, snapshot.inhibited = true →
      (DrivePolicy.DriveBiasedPolicy.call noPhrases defaultOperatorSources s snapshot r).1 =
        .ok []) ∧
    ¬ ∀ (signer : Option (Signer Unit)) s moves pre a ta ga mid b tb gb post,
      log (ReportPolicy.policy noPhrases interrupting) signer id id s moves =
        pre ++ .speak a ta ga false :: (mid ++ .speak b tb gb false :: post) →
      interrupting.speakRefractoryS ≤ tb - ta := by
  refine ⟨?_, ?_, ?_⟩
  · intro hall
    have hrest := hall { inner := {}, lastRestAt := 0 } (inhibitedWith restProposal)
      (readingsAt 1800) rfl
    revert hrest
    decide +kernel
  · intro hall
    have hthink := hall {} (inhibitedWith curiosityCrossing) (readingsAt 0) rfl
    revert hthink
    decide
  · intro hall
    have hclose := hall none ⟨{}, ()⟩ clockRunsBack [] ("affect", "report") 100 100
      [.speak ("planning", "report") 0 0 true, .release .output] ("affect", "report") 8 8 []
      log_clockRunsBack
    revert hclose
    decide +kernel

end Kaine.ReportPacing
