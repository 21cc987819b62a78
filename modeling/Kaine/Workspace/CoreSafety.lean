import Kaine.Workspace.Core
import Mathlib.Analysis.Complex.Exponential

/-! When the live ablation twin differs from the primary selection only by the coherence layer. -/
namespace Kaine.GlobalWorkspace
open Py Bus

/-- The same workspace in the same state, with only the coherence scorer removed. -/
def Workspace.withoutCoherence {σ κ φ ρ F : Type} (ws : Workspace σ κ φ ρ F) :
    Workspace σ κ φ ρ F := { ws with coherence := none }

variable {σ κ φ ρ P X F B : Type} {parts : Parts σ κ φ ρ P X F B} {clock : ℕ → F}
  {events : List (String × Event)} {context : Context P X} {ws ws' : Workspace σ κ φ ρ F}
  {k : κ} {scored : List (Scored F)} {scores : List (String × F)} {metadata : Metadata F}

theorem scoreTable_keys (scored : List (Scored F)) :
    (scoreTable scored).map Prod.fst = (scored.map Prod.snd).map Prod.fst := by
  simp [scoreTable]

theorem coherence_observePhases (context : Context P X) (hk : ws.coherence = some k) :
    (observePhases parts context ws).coherence =
      some ((observePhases parts context ws).coherence.getD k) := by
  unfold observePhases
  split <;> simp_all

theorem observePhases_none (context : Context P X) (hk : ws.coherence = none) :
    observePhases parts context ws = ws := by
  simp [observePhases, hk]

/-- Observing phases moves the coherence state and nothing else. -/
theorem observePhases_eq (context : Context P X) (ws : Workspace σ κ φ ρ F) :
    observePhases parts context ws =
      { ws with coherence := (observePhases parts context ws).coherence } := by
  unfold observePhases
  split <;> rfl

theorem emptySnapshot_observePhases (context : Context P X) (ws : Workspace σ κ φ ρ F) :
    emptySnapshot context.tickIndex (observePhases parts context ws) =
      emptySnapshot context.tickIndex ws := by
  rw [observePhases_eq]
  rfl

variable [Floats F]

/-- The primary and the state it leaves are those of a plain selection, and the counterfactual
is the plain selection of the workspace without its coherence scorer. -/
def Twin (parts : Parts σ κ φ ρ P X F B) (clock : ℕ → F) (events : List (String × Event))
    (context : Context P X) (ws : Workspace σ κ φ ρ F) : Prop :=
  ∃ primary counterfactual ws',
    selectDual parts clock events context ws = (.ok (primary, some counterfactual), ws') ∧
    (select parts clock events context ws).1 = .ok primary ∧
    (select parts clock events context ws).2.strategy = ws'.strategy ∧
    (select parts clock events context ws).2.coherence = ws'.coherence ∧
    (select parts clock events context ws.withoutCoherence).1 = .ok counterfactual

/-- Two consecutive clock readings describe the regulation bias alike. -/
def SameDescription (clock : ℕ → F) (ws : Workspace σ κ φ ρ F) : Prop :=
  ∀ r, ws.regulationBias = some r →
    r.describe (clock ws.clockReads) = r.describe (clock (ws.clockReads + 1))

theorem requireUnseen_ok {seen : List String} (hids : (events.map Prod.fst).Nodup)
    (hseen : ∀ entryId ∈ events.map Prod.fst, entryId ∉ seen) :
    requireUnseen seen events = .ok () := by
  induction events generalizing seen with
  | nil => rfl
  | cons head events ih =>
    obtain ⟨entryId, event⟩ := head
    obtain ⟨hhead, hids⟩ := List.nodup_cons.mp hids
    have hnew : entryId ∉ seen := hseen entryId List.mem_cons_self
    have hrest : ∀ other ∈ events.map Prod.fst, other ∉ entryId :: seen := by
      intro other hother hmem
      rcases List.mem_cons.mp hmem with rfl | hmem
      · exact hhead hother
      · exact hseen other (List.mem_cons_of_mem _ hother) hmem
    simpa [requireUnseen, hnew] using ih hids hrest

/-- Distinct ids pass the check, so it never fires on them. -/
theorem requireUniqueIds_ok (hids : (events.map Prod.fst).Nodup) :
    requireUniqueIds events = .ok () :=
  requireUnseen_ok hids (by simp)

/-- Scoring keeps the candidates and their order. -/
theorem scoreAll_items (context : Context P X) (events : List (String × Event)) (strategy : σ) :
    (scoreAll parts context events strategy).1.map Prod.snd = events := by
  induction events generalizing strategy with
  | nil => rfl
  | cons head events ih =>
    obtain ⟨entryId, event⟩ := head
    simp [scoreAll, ih]

theorem coherenceScores_items (k : κ) (scored : List (Scored F)) :
    (coherenceScores parts k scored).map Prod.snd = scored.map Prod.snd := by
  simp [coherenceScores]

/-- Overwriting the raw table gives the table that is built afresh. -/
theorem assignAll_coherenceScores (k : κ) (hids : ((scored.map Prod.snd).map Prod.fst).Nodup) :
    Assoc.assignAll (scoreTable scored) (scoreTable (coherenceScores parts k scored)) =
      Assoc.assignAll [] (scoreTable (coherenceScores parts k scored)) := by
  have hkeys : (scoreTable (coherenceScores parts k scored)).map Prod.fst =
      (scored.map Prod.snd).map Prod.fst := by
    rw [scoreTable_keys, coherenceScores_items]
  have hnodup : ((scoreTable (coherenceScores parts k scored)).map Prod.fst).Nodup := by
    rw [hkeys]
    exact hids
  rw [Assoc.assignAll_nil hnodup, Assoc.assignAll_same_keys _ hnodup]
  rw [hkeys, scoreTable_keys]

theorem describe_fst (clock : ℕ → F) (ws : Workspace σ κ φ ρ F) :
    (describe clock ws).1 = ws.regulationBias.bind fun r => r.describe (clock ws.clockReads) := by
  unfold describe
  split <;> simp_all

/-- A description moves the clock and nothing else. -/
theorem describe_snd (clock : ℕ → F) (ws : Workspace σ κ φ ρ F) :
    (describe clock ws).2 = { ws with clockReads := (describe clock ws).2.clockReads } := by
  unfold describe
  split
  · rfl
  · dsimp only
    split <;> rfl

@[simp] theorem describe_strategy (clock : ℕ → F) (ws : Workspace σ κ φ ρ F) :
    (describe clock ws).2.strategy = ws.strategy := by rw [describe_snd]

@[simp] theorem describe_coherence (clock : ℕ → F) (ws : Workspace σ κ φ ρ F) :
    (describe clock ws).2.coherence = ws.coherence := by rw [describe_snd]

/-- The table, list and metadata that a description leads to. -/
def biased (description : Option (String × F)) (scored : List (Scored F))
    (scores : List (String × F)) (metadata : Metadata F) :
    List (Scored F) × List (String × F) × Metadata F :=
  match description with
  | none => (scored, scores, metadata)
  | some description =>
    let adjusted := biasedScores description scored
    let applied := adjusted.filter fun item => item.2.2.source = description.1
    (adjusted, Assoc.assignAll scores (scoreTable applied),
      { metadata with regulationBias := some description })

theorem applyRegulationBias_eq (clock : ℕ → F) (scored : List (Scored F))
    (scores : List (String × F)) (metadata : Metadata F) (ws : Workspace σ κ φ ρ F) :
    applyRegulationBias clock scored scores metadata ws =
      (biased (describe clock ws).1 scored scores metadata, (describe clock ws).2) := by
  unfold applyRegulationBias
  split
  · rename_i h
    simp [h, biased]
  · rename_i h
    simp [h, biased]

/-- The snapshot of a competitive selection, which no draw enters. -/
def competitiveSnapshot (tickIndex : ℤ) (ws : Workspace σ κ φ ρ F)
    (b : List (Scored F) × List (String × F) × Metadata F) : WorkspaceSnapshot F :=
  let top := (Floats.ranked b.1).take ws.topK
  { tickIndex, selectedEvents := top.map Prod.snd,
    inhibited := Floats.lt ((top.head?.map Prod.fst).getD 0) ws.threshold,
    salienceScores := b.2.1,
    metadata := { b.2.2 with
      accessThreshold := some ws.threshold, arm := some ws.arm
      coalitionCapacity := some ws.topK } }

theorem compose_competitive (harm : ws.arm = .competitive) (tickIndex : ℤ)
    (b : List (Scored F) × List (String × F) × Metadata F) (draw : Bool) :
    compose parts tickIndex b.1 b.2.1 b.2.2 draw ws = (competitiveSnapshot tickIndex ws b, ws) := by
  simp [compose, competitiveSnapshot, harm]

/-- The layer moves the coherence state and nothing else. -/
theorem applyCoherence_snd (context : Context P X) (scored : List (Scored F))
    (scores : List (String × F)) (ws : Workspace σ κ φ ρ F) :
    (applyCoherence parts context scored scores ws).2 =
      { ws with coherence := (observePhases parts context ws).coherence } := by
  rw [← observePhases_eq]
  unfold applyCoherence
  dsimp only
  split <;> rfl

/-- A competitive selection without feedback is one snapshot of what the layers leave. -/
theorem select_competitive (clock : ℕ → F) (hids : (events.map Prod.fst).Nodup) (hne : events ≠ [])
    (harm : ws.arm = .competitive) (hfeedback : ws.feedback = none) {raw : List (Scored F) × σ}
    (hraw : scoreAll parts context events ws.strategy = raw)
    {coherent : (List (Scored F) × List (String × F) × Metadata F) × Workspace σ κ φ ρ F}
    (hcoherent : applyCoherence parts context raw.1 (Assoc.assignAll [] (scoreTable raw.1))
      { ws with strategy := raw.2 } = coherent) :
    select parts clock events context ws =
      (.ok ⟨competitiveSnapshot context.tickIndex ws
          (biased (describe clock ws).1 coherent.1.1 coherent.1.2.1 coherent.1.2.2), none⟩,
        (describe clock coherent.2).2) := by
  have hempty : events.isEmpty = false := by simpa using hne
  have hstate : coherent.2 = { ws with
      strategy := raw.2, coherence := coherent.2.coherence } := by
    simp only [← hcoherent, applyCoherence_snd]
  have hfst : (describe clock coherent.2).1 = (describe clock ws).1 := by
    rw [describe_fst, describe_fst, hstate]
  have hsnd := describe_snd clock coherent.2
  have harm' : (describe clock coherent.2).2.arm = .competitive := by
    rw [hsnd, hstate]
    exact harm
  have hfeedback' : (describe clock coherent.2).2.feedback = none := by
    rw [hsnd, hstate]
    exact hfeedback
  have hsnapshot : ∀ b, competitiveSnapshot context.tickIndex (describe clock coherent.2).2 b =
      competitiveSnapshot context.tickIndex ws b := by
    intro b
    rw [hsnd, hstate]
    rfl
  have hpooled : ¬ ws.arm = .pooled := by simp [harm]
  have hmatched : ¬ (decide (ws.arm = .matched) && context.isExperiential.isNone) = true := by
    simp [harm]
  have hobserve : observeFeedback parts events ws = (.ok (), ws) := by
    simp [observeFeedback, hfeedback]
  have hbias := applyRegulationBias_eq clock coherent.1.1 coherent.1.2.1 coherent.1.2.2 coherent.2
  unfold select
  rw [requireUniqueIds_ok hids]
  dsimp only [andThen]
  rw [if_neg hpooled, if_neg hmatched, hobserve]
  dsimp only
  rw [hempty]
  simp only [Bool.false_eq_true, if_false, hraw, hcoherent]
  rw [hbias, compose_competitive harm']
  simp only [attachFeedback, hfeedback', hsnapshot, hfst]

/-- The layer on: the table is rebuilt from the multiplied scores. -/
theorem applyCoherence_on (parts : Parts σ κ φ ρ P X F B) (context : Context P X)
    (ws : Workspace σ κ φ ρ F) (hk : ws.coherence = some k)
    (hids : ((scored.map Prod.snd).map Prod.fst).Nodup) :
    let k' := (observePhases parts context ws).coherence.getD k
    applyCoherence parts context scored (Assoc.assignAll [] (scoreTable scored)) ws =
      ((coherenceScores parts k' scored,
        Assoc.assignAll [] (scoreTable (coherenceScores parts k' scored)),
        { coherence := some (parts.plv k' (cohort scored)) }), observePhases parts context ws) := by
  intro k'
  have hsome : (observePhases parts context ws).coherence = some k' :=
    coherence_observePhases context hk
  have htable : Assoc.assignAll [] (scoreTable scored) = scoreTable scored := by
    apply Assoc.assignAll_nil
    rw [scoreTable_keys]
    exact hids
  unfold applyCoherence
  simp only
  rw [hsome]
  simp only [htable, assignAll_coherenceScores _ hids, k']

theorem applyCoherence_off (hk : ws.coherence = none) :
    applyCoherence parts context scored scores ws = ((scored, scores, {}), ws) := by
  simp [applyCoherence, observePhases_none context hk, hk]

/-- The second description of a tick is the first exactly when the clock tells no difference. -/
theorem second_description :
    (describe clock (describe clock ws).2).1 = (describe clock ws).1 ↔
      SameDescription clock ws := by
  rw [describe_fst, describe_fst, describe_snd]
  cases hr : ws.regulationBias with
  | none => simp [SameDescription, hr]
  | some r =>
    cases hs : r.source with
    | none =>
      have hnone : ∀ now, r.describe now = none := fun now => by simp [RegulationBias.describe, hs]
      simp [SameDescription, hr, hnone]
    | some source => simp [SameDescription, hr, describe, hs, eq_comm]

theorem regulationBias_biased {description : Option (String × F)} (scored : List (Scored F))
    (scores : List (String × F)) :
    (biased description scored scores {}).2.2.regulationBias = description := by
  cases description <;> rfl

theorem select_nil (harm : ws.arm = .competitive) (hfeedback : ws.feedback = none) :
    select parts clock [] context ws =
      (.ok ⟨emptySnapshot context.tickIndex ws, none⟩, observePhases parts context ws) := by
  simp [select, andThen, requireUniqueIds, requireUnseen, harm, observeFeedback, hfeedback,
    emptySnapshot_observePhases]

theorem selectDual_nil (hk : ws.coherence = some k) :
    selectDual parts clock [] context ws =
      (.ok (⟨emptySnapshot context.tickIndex ws, none⟩,
        some ⟨emptySnapshot context.tickIndex ws, none⟩), observePhases parts context ws) := by
  simp [selectDual, hk, andThen, requireUniqueIds, requireUnseen, emptySnapshot_observePhases]

/-- Without candidates both arms return the same empty snapshot. -/
theorem twin_nil (hk : ws.coherence = some k) (harm : ws.arm = .competitive)
    (hfeedback : ws.feedback = none) : Twin parts clock [] context ws := by
  refine ⟨_, _, _, selectDual_nil hk, ?_, ?_, ?_, ?_⟩
  · rw [select_nil harm hfeedback]
  · rw [select_nil harm hfeedback]
  · rw [select_nil harm hfeedback]
  · have harm' : ws.withoutCoherence.arm = .competitive := harm
    have hfeedback' : ws.withoutCoherence.feedback = none := hfeedback
    rw [select_nil harm' hfeedback']
    rfl

/-- The dual selection as two snapshots, the second under the second description. -/
theorem selectDual_competitive (clock : ℕ → F) (hids : (events.map Prod.fst).Nodup)
    (hne : events ≠ []) (hk : ws.coherence = some k) (harm : ws.arm = .competitive)
    {raw : List (Scored F) × σ} (hraw : scoreAll parts context events ws.strategy = raw)
    {observed : Workspace σ κ φ ρ F}
    (hobs : observePhases parts context { ws with strategy := raw.2 } = observed) :
    let k' := observed.coherence.getD k
    let first := describe clock observed
    let second := describe clock first.2
    selectDual parts clock events context ws =
      (.ok (⟨competitiveSnapshot context.tickIndex ws (biased first.1
            (coherenceScores parts k' raw.1)
            (Assoc.assignAll [] (scoreTable (coherenceScores parts k' raw.1)))
            { coherence := some (parts.plv k' (cohort raw.1)) }), none⟩,
          some ⟨competitiveSnapshot context.tickIndex ws (biased second.1 raw.1
            (Assoc.assignAll [] (scoreTable raw.1)) {}), none⟩), second.2) := by
  intro k' first second
  have hempty : events.isEmpty = false := by simpa using hne
  have hobserved : observed = { ws with
      strategy := raw.2, coherence := observed.coherence } := by
    rw [← hobs]
    exact observePhases_eq context _
  have hsecond : second.2 = { ws with
      strategy := raw.2, coherence := observed.coherence,
      clockReads := second.2.clockReads } := by
    rw [describe_snd clock first.2, describe_snd clock observed, hobserved]
  have harm' : second.2.arm = .competitive := by
    rw [hsecond]
    exact harm
  have hsnapshot : ∀ b, competitiveSnapshot context.tickIndex second.2 b =
      competitiveSnapshot context.tickIndex ws b := by
    intro b
    rw [hsecond]
    rfl
  unfold selectDual
  rw [hk]
  dsimp only
  rw [requireUniqueIds_ok hids]
  dsimp only [andThen]
  rw [hempty]
  simp only [Bool.false_eq_true, if_false, hraw, hobs, applyRegulationBias_eq]
  rw [compose_competitive harm', compose_competitive harm', hsnapshot, hsnapshot]

/-- With candidates, everything but the second description is as a plain selection has it. -/
theorem twin_cons_iff (hids : (events.map Prod.fst).Nodup) (hne : events ≠ [])
    (hk : ws.coherence = some k) (harm : ws.arm = .competitive) (hfeedback : ws.feedback = none) :
    Twin parts clock events context ws ↔ SameDescription clock ws := by
  obtain ⟨raw, hraw⟩ : ∃ raw, scoreAll parts context events ws.strategy = raw := ⟨_, rfl⟩
  obtain ⟨observed, hobs⟩ :
      ∃ observed, observePhases parts context { ws with strategy := raw.2 } = observed := ⟨_, rfl⟩
  have hobserved : observed = { ws with strategy := raw.2, coherence := observed.coherence } := by
    rw [← hobs]
    exact observePhases_eq context _
  have hitems : ((raw.1.map Prod.snd).map Prod.fst).Nodup := by
    rw [← hraw, scoreAll_items]
    exact hids
  have hfirst : (describe clock observed).1 = (describe clock ws).1 := by
    rw [describe_fst, describe_fst, hobserved]
  have hoff : (describe clock ws.withoutCoherence).1 = (describe clock ws).1 := by
    rw [describe_fst, describe_fst]
    rfl
  have hsecond : (describe clock (describe clock observed).2).1 = (describe clock ws).1 ↔
      SameDescription clock ws := by
    rw [← hfirst, second_description, hobserved]
    rfl
  have hon := applyCoherence_on parts context { ws with strategy := raw.2 } hk hitems
  have harm' : ws.withoutCoherence.arm = .competitive := harm
  have hfeedback' : ws.withoutCoherence.feedback = none := hfeedback
  have hraw' : scoreAll parts context events ws.withoutCoherence.strategy = raw := hraw
  have hprimary := select_competitive clock hids hne harm hfeedback hraw hon
  have hcounter := select_competitive clock hids hne harm' hfeedback' hraw' (applyCoherence_off rfl)
  have hdual := selectDual_competitive clock hids hne hk harm hraw hobs
  dsimp only at hprimary hcounter hdual
  rw [hobs] at hprimary
  rw [hoff] at hcounter
  constructor
  · rintro ⟨primary, counterfactual, ws', hd, _, _, _, hc⟩
    rw [hdual] at hd
    rw [hcounter] at hc
    simp only [Prod.mk.injEq, Except.ok.injEq, Option.some.injEq] at hd hc
    obtain ⟨⟨_, rfl⟩, _⟩ := hd
    have hdesc := congrArg (fun sel => sel.snapshot.metadata.regulationBias) hc
    simp only [competitiveSnapshot, regulationBias_biased] at hdesc
    exact hsecond.mp hdesc.symm
  · intro hs
    have hd := hsecond.mpr hs
    rw [hd, hfirst] at hdual
    refine ⟨_, _, _, hdual, ?_, ?_, ?_, ?_⟩
    · rw [hprimary]
    · simp [hprimary]
    · simp [hprimary]
    · rw [hcounter]
      rfl

/-- The live ablation is a twin on every batch and state exactly when the two descriptions of the
regulation bias agree, or there is no candidate to apply them to. -/
theorem select_dual_twin (parts : Parts σ κ φ ρ P X F B) (clock : ℕ → F)
    (events : List (String × Event)) (context : Context P X) (ws : Workspace σ κ φ ρ F)
    (hvalid : ws.Valid) (hk : ws.coherence = some k) (hids : (events.map Prod.fst).Nodup) :
    Twin parts clock events context ws ↔ events = [] ∨ SameDescription clock ws := by
  have harm : ws.arm = .competitive := hvalid.coherence_arm (by simp [hk])
  have hfeedback : ws.feedback = none := by
    by_contra hne
    have hnone := hvalid.feedback_coherence (Option.isSome_iff_ne_none.mpr hne)
    simp [hk] at hnone
  by_cases hne : events = []
  · subst hne
    simpa using twin_nil hk harm hfeedback
  · rw [twin_cons_iff hids hne hk harm hfeedback]
    simp [hne]

/-- Exact real arithmetic as the floats of a selection. -/
noncomputable instance : Floats ℝ where
  exp := Real.exp
  lt x y := decide (x < y)
  le x y := decide (x ≤ y)
  ofSalience q := q
  ranked scored := scored.mergeSort fun a b => decide (b.1 ≤ a.1)

/-- Parts without a state of their own, whose every score and factor is one. -/
noncomputable def plainParts : Parts Unit Unit Unit Unit Unit Unit ℝ Unit where
  score _ _ _ := (some 1, ())
  observe _ _ := ()
  factorForSource _ _ _ := 1
  plv _ _ := 1
  observeCandidates _ _ := (.ok (), ())
  onBroadcast _ _ := (.ok none, ())
  sample _ _ k := (List.range k, ())

local instance two_atLeastTwo : Nat.AtLeastTwo 2 := ⟨le_rfl⟩

/-- A workspace with the layer on that holds half a unit of bias against vision since time zero. -/
noncomputable def biasedWorkspace : Workspace Unit Unit Unit Unit ℝ where
  topK := 5
  threshold := 0
  arm := .competitive
  strategy := ()
  coherence := some ()
  regulationBias := some ⟨some "vision", 1 / 2, 1, 0⟩
  feedback := none
  rng := ()
  clockReads := 0

def visionReport : Event :=
  { source := "vision", type := "vision.report", salience := 1, timestamp := 0 }

theorem biasedWorkspace_valid : biasedWorkspace.Valid :=
  ⟨by simp [biasedWorkspace], fun _ => rfl, fun _ => rfl, fun h => by simp [biasedWorkspace] at h⟩

/-- With a clock that stands still the dual selection of that workspace is a twin. -/
theorem select_dual_twin_still : Twin plainParts (fun _ => 0) [("vision.out:1-0", visionReport)]
    { tickIndex := 0, rest := () } biasedWorkspace :=
  (select_dual_twin plainParts (fun _ => 0) [("vision.out:1-0", visionReport)]
    { tickIndex := 0, rest := () } biasedWorkspace biasedWorkspace_valid rfl (by simp)).mpr
    (Or.inr fun _ _ => rfl)

/-- A second between the two readings of the clock, and the arms differ by the bias too. -/
theorem twin_differs : ¬ Twin plainParts (fun n => n) [("vision.out:1-0", visionReport)]
    { tickIndex := 0, rest := () } biasedWorkspace := by
  rw [twin_cons_iff (k := ()) (by simp) (by simp) rfl rfl rfl]
  intro h
  have hsame := h _ rfl
  simp [RegulationBias.describe, RegulationBias.decayed, Floats.le, Floats.lt, Floats.exp,
    biasedWorkspace] at hsame
  have hlater : ¬ (2 : ℝ)⁻¹ * Real.exp (-1) ≤ 0 := not_le.mpr (by positivity)
  rw [if_neg (by norm_num), if_neg hlater] at hsame
  simp at hsame

end Kaine.GlobalWorkspace
