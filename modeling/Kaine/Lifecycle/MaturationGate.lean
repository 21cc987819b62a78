import Kaine.Lib.Json

/-! The readiness predicate of the maturation gate and the decision it feeds
(`kaine/lifecycle/maturation_gate.py`). Which evidence stands behind a ready verdict, and when
undefined evidence is refused. -/
namespace Kaine.MaturationGate
open Py

/-- The thresholds of the first condition, with the defaults the gate ships. -/
structure RegulationThresholds where
  endogenousSelfSustain : Bool := true
  entrainThenAutonomy : Bool := true
  hrvVariabilityFloor : PyFloat := .fin (1 / 50)
  stimulusSourcePredictionErrorCeiling : PyFloat := .fin (3 / 10)
  returnToBaselineSecondsCeiling : PyFloat := .fin 30

/-- The part of the `[developmental_stage]` block that readiness reads. -/
structure MaturationConfig where
  minSleepCycles : ℤ := 5
  minConsolidationPasses : ℤ := 3
  regulationThresholds : RegulationThresholds := {}

structure Faculties where
  sleep : Bool := true
  worldModel : Bool := true
  embodiment : Bool := true

structure ConditionResult where
  name : String
  met : Bool
  detail : String
  applicable : Bool := true
  deriving DecidableEq

structure Readiness where
  c1 : ConditionResult
  c2 : ConditionResult
  c3 : ConditionResult
  deriving DecidableEq

def Readiness.ready (r : Readiness) : Bool := r.c1.met && r.c2.met && r.c3.met

def Readiness.unmet (r : Readiness) : List String :=
  ([r.c1, r.c2, r.c3].filter fun c => !c.met).map ConditionResult.name

/-- Best-effort numeric read; none on a missing or bad value. -/
def num : Json → Except PyError (Option PyFloat)
  | .int n => (PyFloat.ofInt n).map some
  | .float x => .ok (some x)
  | _ => .ok none

def regulationBaseline (met : Bool) (detail : String) : ConditionResult :=
  { name := "C1_regulation_baseline", met, detail }

/-- One measured marker: a missing value and one that the comparison rejects end the
evaluation, any other goes on to the rest. -/
def checkMeasure (readout : Dict) (key : String) (rejects : PyFloat → Bool) (detail : String)
    (rest : Except PyError ConditionResult) : Except PyError ConditionResult := do
  let value ← num (Dict.get readout key)
  if value.all rejects then return regulationBaseline false detail else rest

def evaluateC1 (readout : Option Dict) (t : RegulationThresholds) :
    Except PyError ConditionResult :=
  match readout with
  | none => .ok (regulationBaseline false "readout absent/stale")
  | some readout =>
    if t.endogenousSelfSustain && !(Dict.get readout "endogenous_self_sustain").truthy then
      .ok (regulationBaseline false "endogenous rhythm not self-sustaining")
    else if t.entrainThenAutonomy && !(Dict.get readout "entrain_then_autonomy").truthy then
      .ok (regulationBaseline false "entrain-then-autonomy not demonstrated")
    else
      checkMeasure readout "hrv_variability" (fun x => x.lt t.hrvVariabilityFloor)
        "HRV-analog below floor" <|
      checkMeasure readout "stimulus_source_prediction_error"
        (fun x => t.stimulusSourcePredictionErrorCeiling.lt x)
        "stimulus source prediction error above ceiling" <|
      checkMeasure readout "return_to_baseline_seconds"
        (fun x => t.returnToBaselineSecondsCeiling.lt x) "return-to-baseline too slow" <|
      .ok (regulationBaseline true "all markers crossed")

/-- An optional count as an f-string prints it. -/
def showCount : Option ℤ → String
  | none => "None"
  | some n => toString n

def evaluateC2 (sleepCount consolidationPasses : Option ℤ) (cfg : MaturationConfig)
    (faculties : Faculties) : ConditionResult :=
  let name := "C2_reality_model_consolidated"
  let sleepRequired := faculties.sleep
  let consolidationRequired := faculties.sleep && faculties.worldModel
  if !sleepRequired && !consolidationRequired then
    ⟨name, true, "not applicable: no sleep or consolidation faculty", false⟩
  else
    let requiredText := " + ".intercalate
      ((if sleepRequired then ["sleep"] else []) ++
        if consolidationRequired then ["consolidation"] else [])
    if sleepRequired && sleepCount.all fun n => n < cfg.minSleepCycles then
      ⟨name, false, "sleep cycles " ++ showCount sleepCount ++ " < " ++
        toString cfg.minSleepCycles ++ " (" ++ requiredText ++ " required)", true⟩
    else if consolidationRequired &&
        consolidationPasses.all fun n => n < cfg.minConsolidationPasses then
      ⟨name, false, "consolidation passes " ++ showCount consolidationPasses ++ " < " ++
        toString cfg.minConsolidationPasses ++ " (" ++ requiredText ++ " required)", true⟩
    else ⟨name, true, requiredText ++ " required; evidence present", true⟩

def evaluateC3 (sensorySchedule : Option (ℤ × ℤ)) : ConditionResult :=
  let name := "C3_sensory_schedule_complete"
  match sensorySchedule with
  | none => ⟨name, false, "no sensory schedule reading: the hearing schedule runs only with the " ++
      "local stimulus source, so an external stimulus provider cannot satisfy C3", true⟩
  | some (stage, finalStage) =>
    if stage < finalStage then
      ⟨name, false, "hearing stage " ++ toString stage ++ " of " ++ toString finalStage, true⟩
    else ⟨name, true, "sensory schedule complete", true⟩

def evaluateReadiness (readinessReadout : Option Dict) (sleepCount consolidationPasses : Option ℤ)
    (sensorySchedule : Option (ℤ × ℤ)) (config : MaturationConfig) (faculties : Faculties) :
    Except PyError Readiness := do
  let c1 ← evaluateC1 readinessReadout config.regulationThresholds
  return ⟨c1, evaluateC2 sleepCount consolidationPasses config faculties,
    evaluateC3 sensorySchedule⟩

inductive MaturationAction where
  | developing
  | holdAwaitingEmbodiment
  | holdAwaitingAck
  | maturation
  deriving DecidableEq

structure MaturationDecision where
  action : MaturationAction
  reason : String
  readiness : Readiness

def decideMaturation (readiness : Readiness) (embodimentReady operatorAck requireOperatorAck : Bool)
    (faculties : Faculties) : MaturationDecision :=
  if !readiness.ready then
    ⟨.developing, "unmet: " ++ ",".intercalate readiness.unmet, readiness⟩
  else if faculties.embodiment && !embodimentReady then
    ⟨.holdAwaitingEmbodiment, "awaiting_embodiment", readiness⟩
  else if requireOperatorAck && !operatorAck then
    ⟨.holdAwaitingAck, "awaiting_operator_ack", readiness⟩
  else
    let reason :=
      if !faculties.embodiment then "born_into_perceptual_world" else "ready_and_available"
    ⟨.maturation, reason, readiness⟩

variable {readout : Option Dict} {sleepCount consolidationPasses : Option ℤ}
  {schedule : Option (ℤ × ℤ)} {config : MaturationConfig} {faculties : Faculties}
  {t : RegulationThresholds} {d : Dict} {r : Readiness} {x : PyFloat}

/-- The threshold of one measured marker. -/
inductive Bound where
  | floor (value : PyFloat)
  | ceiling (value : PyFloat)

namespace Bound

def value : Bound → PyFloat
  | floor value | ceiling value => value

/-- The comparison that the code makes, written as a rejection. -/
def rejects (b : Bound) (x : PyFloat) : Bool :=
  match b with
  | floor value => x.lt value
  | ceiling value => value.lt x

def holds (b : Bound) (x : PyFloat) : Bool :=
  match b with
  | floor value => value.le x
  | ceiling value => x.le value

/-- Off the NaNs, what is not rejected holds. -/
theorem holds_iff {b : Bound} (hx : x ≠ .nan) (hb : b.value ≠ .nan) :
    b.holds x = true ↔ b.rejects x = false := by
  cases b with
  | floor value => exact (PyFloat.lt_false_iff_le hx hb).symm
  | ceiling value => exact (PyFloat.lt_false_iff_le hb hx).symm

theorem value_of_holds {b : Bound} (h : b.holds x = true) : b.value ≠ .nan := by
  rintro hb
  cases b <;> simp_all [value, holds]

end Bound

/-- The measured markers and their thresholds. -/
def measures (t : RegulationThresholds) : List (String × Bound) :=
  [("hrv_variability", .floor t.hrvVariabilityFloor),
   ("stimulus_source_prediction_error", .ceiling t.stimulusSourcePredictionErrorCeiling),
   ("return_to_baseline_seconds", .ceiling t.returnToBaselineSecondsCeiling)]

/-- Every enabled boolean marker holds. -/
def Marked (d : Dict) (t : RegulationThresholds) : Prop :=
  (t.endogenousSelfSustain = true → (Dict.get d "endogenous_self_sustain").truthy = true) ∧
  (t.entrainThenAutonomy = true → (Dict.get d "entrain_then_autonomy").truthy = true)

/-- The counts that the present faculties require, and a completed schedule. -/
structure Counted (sleepCount consolidationPasses : Option ℤ) (schedule : Option (ℤ × ℤ))
    (config : MaturationConfig) (faculties : Faculties) : Prop where
  sleep : faculties.sleep = true → ∃ n, sleepCount = some n ∧ config.minSleepCycles ≤ n
  consolidation : faculties.sleep = true → faculties.worldModel = true →
    ∃ n, consolidationPasses = some n ∧ config.minConsolidationPasses ≤ n
  schedule : ∃ stage finalStage, schedule = some (stage, finalStage) ∧ finalStage ≤ stage

/-- The evidence of a ready verdict: each measure a finite number within its threshold. -/
def Evidence (readout : Option Dict) (sleepCount consolidationPasses : Option ℤ)
    (schedule : Option (ℤ × ℤ)) (config : MaturationConfig) (faculties : Faculties) : Prop :=
  Counted sleepCount consolidationPasses schedule config faculties ∧
  ∃ d, readout = some d ∧ Marked d config.regulationThresholds ∧
    ∀ m ∈ measures config.regulationThresholds,
      ∃ q, num (Dict.get d m.1) = .ok (some (.fin q)) ∧ m.2.holds (.fin q) = true

/-- Nothing else refuses: each measure is some float that its comparison does not reject. -/
def Unrefused (readout : Option Dict) (sleepCount consolidationPasses : Option ℤ)
    (schedule : Option (ℤ × ℤ)) (config : MaturationConfig) (faculties : Faculties) : Prop :=
  Counted sleepCount consolidationPasses schedule config faculties ∧
  ∃ d, readout = some d ∧ Marked d config.regulationThresholds ∧
    ∀ m ∈ measures config.regulationThresholds,
      ∃ x, num (Dict.get d m.1) = .ok (some x) ∧ m.2.rejects x = false

/-- No measure of the readout is a NaN or an infinity, and no threshold is a NaN. -/
def Defined (readout : Option Dict) (config : MaturationConfig) : Prop :=
  ∀ d, readout = some d → ∀ m ∈ measures config.regulationThresholds,
    m.2.value ≠ .nan ∧ ∀ x, num (Dict.get d m.1) = .ok (some x) → x.isFinite = true

/-- A ready verdict, and so the maturation action, has the evidence behind it. -/
def FailsClosed (readout : Option Dict) (sleepCount consolidationPasses : Option ℤ)
    (schedule : Option (ℤ × ℤ)) (config : MaturationConfig) (faculties : Faculties) : Prop :=
  ∀ r, evaluateReadiness readout sleepCount consolidationPasses schedule config faculties = .ok r →
    (r.ready = true → Evidence readout sleepCount consolidationPasses schedule config faculties) ∧
    ∀ embodimentReady operatorAck requireOperatorAck,
      (decideMaturation r embodimentReady operatorAck requireOperatorAck faculties).action =
          .maturation →
        Evidence readout sleepCount consolidationPasses schedule config faculties

section
variable {key detail : String} {rejects : PyFloat → Bool} {rest : Except PyError ConditionResult}
  {c : ConditionResult}

theorem checkMeasure_of_passes (hx : num (Dict.get d key) = .ok (some x))
    (hr : rejects x = false) : checkMeasure d key rejects detail rest = rest := by
  simp [checkMeasure, hx, hr, bind, Except.bind]

/-- A marker that ends the evaluation reports the condition unmet. -/
theorem passes_of_met (h : checkMeasure d key rejects detail rest = .ok c) (hc : c.met = true) :
    (∃ x, num (Dict.get d key) = .ok (some x) ∧ rejects x = false) ∧ rest = .ok c := by
  cases hn : num (Dict.get d key) with
  | error e => simp [checkMeasure, hn, bind, Except.bind] at h
  | ok value =>
    by_cases hr : value.all rejects = true
    · have he : regulationBaseline false detail = c := by
        simpa [checkMeasure, hn, hr, bind, Except.bind, pure, Except.pure] using h
      subst c
      cases hc
    · cases value with
      | none => simp at hr
      | some x =>
        have hx : rejects x = false := by simpa using hr
        rw [checkMeasure_of_passes hn hx] at h
        exact ⟨⟨x, rfl, hx⟩, h⟩

end

/-- What nothing refuses is met, without an error on the way. -/
theorem evaluateC1_of_marked (hm : Marked d t) (hall : ∀ m ∈ measures t,
    ∃ x, num (Dict.get d m.1) = .ok (some x) ∧ m.2.rejects x = false) :
    evaluateC1 (some d) t = .ok (regulationBaseline true "all markers crossed") := by
  obtain ⟨hendo, hentrain⟩ := hm
  simp only [measures, List.forall_mem_cons, Bound.rejects] at hall
  obtain ⟨⟨x, hx, hrx⟩, ⟨y, hy, hry⟩, ⟨z, hz, hrz⟩, _⟩ := hall
  simp only [evaluateC1]
  rw [if_neg (by simp_all), if_neg (by simp_all), checkMeasure_of_passes hx hrx,
    checkMeasure_of_passes hy hry, checkMeasure_of_passes hz hrz]

theorem evaluateC1_met {c : ConditionResult} (h : evaluateC1 readout t = .ok c) :
    c.met = true ↔ ∃ d, readout = some d ∧ Marked d t ∧ ∀ m ∈ measures t,
      ∃ x, num (Dict.get d m.1) = .ok (some x) ∧ m.2.rejects x = false := by
  constructor
  · intro hc
    cases readout with
    | none =>
      cases h
      cases hc
    | some d =>
      simp only [evaluateC1] at h
      split at h
      · cases h
        cases hc
      · split at h
        · cases h
          cases hc
        · obtain ⟨hhrv, h⟩ := passes_of_met h hc
          obtain ⟨hpe, h⟩ := passes_of_met h hc
          obtain ⟨hrtb, _⟩ := passes_of_met h hc
          have hmarked : Marked d t := by
            constructor
            · intro
              simp_all
            · intro
              simp_all
          refine ⟨d, rfl, hmarked, ?_⟩
          simpa [measures, Bound.rejects] using ⟨hhrv, hpe, hrtb⟩
  · rintro ⟨d, rfl, hm, hall⟩
    rw [evaluateC1_of_marked hm hall] at h
    cases h
    rfl

theorem all_lt_iff {count : Option ℤ} {least : ℤ} :
    (count.all fun n => n < least) = false ↔ ∃ n, count = some n ∧ least ≤ n := by
  cases count <;> simp

theorem evaluateC2_met :
    (evaluateC2 sleepCount consolidationPasses config faculties).met = true ↔
      (faculties.sleep = true → ∃ n, sleepCount = some n ∧ config.minSleepCycles ≤ n) ∧
      (faculties.sleep = true → faculties.worldModel = true →
        ∃ n, consolidationPasses = some n ∧ config.minConsolidationPasses ≤ n) := by
  simp only [evaluateC2, ← all_lt_iff]
  cases hs : faculties.sleep with
  | false => simp
  | true =>
    cases hw : faculties.worldModel with
    | false => by_cases h : (sleepCount.all fun n => n < config.minSleepCycles) = true <;> simp [h]
    | true =>
      by_cases h : (sleepCount.all fun n => n < config.minSleepCycles) = true
      · simp [h]
      · by_cases h' : (consolidationPasses.all fun n => n < config.minConsolidationPasses) =
          true <;>
          simp [h, h']

theorem evaluateC3_met : (evaluateC3 schedule).met = true ↔
    ∃ stage finalStage, schedule = some (stage, finalStage) ∧ finalStage ≤ stage := by
  rcases schedule with _ | ⟨stage, finalStage⟩
  · simp [evaluateC3]
  · by_cases h : stage < finalStage <;> simp [evaluateC3, h]
    omega

/-- A verdict is ready exactly when nothing refuses. -/
theorem ready_iff (h : evaluateReadiness readout sleepCount consolidationPasses schedule config
    faculties = .ok r) :
    r.ready = true ↔ Unrefused readout sleepCount consolidationPasses schedule
      config faculties := by
  cases hc : evaluateC1 readout config.regulationThresholds with
  | error e => simp [evaluateReadiness, hc, bind, Except.bind] at h
  | ok c1 =>
    have hr : ⟨c1, evaluateC2 sleepCount consolidationPasses config faculties,
        evaluateC3 schedule⟩ = r := by
      simpa [evaluateReadiness, hc, bind, Except.bind, pure, Except.pure] using h
    subst r
    simp only [Readiness.ready, Bool.and_eq_true, evaluateC1_met hc, evaluateC2_met, evaluateC3_met]
    constructor
    · rintro ⟨⟨hd, hsleep, hcons⟩, hsched⟩
      exact ⟨⟨hsleep, hcons, hsched⟩, hd⟩
    · rintro ⟨⟨hsleep, hcons, hsched⟩, hd⟩
      exact ⟨⟨hd, hsleep, hcons⟩, hsched⟩

/-- The evaluation returns a verdict wherever nothing refuses. -/
theorem evaluates_of_unrefused
    (h : Unrefused readout sleepCount consolidationPasses schedule config faculties) :
    ∃ r, evaluateReadiness readout sleepCount consolidationPasses schedule config faculties =
      .ok r := by
  obtain ⟨_, d, rfl, hm, hall⟩ := h
  simp [evaluateReadiness, evaluateC1_of_marked hm hall, bind, Except.bind, pure, Except.pure]

theorem ready_of_maturation {embodimentReady operatorAck requireOperatorAck : Bool}
    (h : (decideMaturation r embodimentReady operatorAck requireOperatorAck faculties).action =
      .maturation) : r.ready = true := by
  cases hr : r.ready with
  | true => rfl
  | false => simp [decideMaturation, hr] at h

theorem evidence_iff_defined
    (h : Unrefused readout sleepCount consolidationPasses schedule config faculties) :
    Evidence readout sleepCount consolidationPasses schedule config faculties ↔
      Defined readout config := by
  obtain ⟨hcount, d, rfl, hmarked, hall⟩ := h
  constructor
  · rintro ⟨_, _, hd, _, hev⟩ _ hd' m hm
    cases hd
    cases hd'
    obtain ⟨q, hq, hholds⟩ := hev m hm
    refine ⟨Bound.value_of_holds hholds, ?_⟩
    intro x hx
    rw [hq] at hx
    cases hx
    rfl
  · intro hdef
    refine ⟨hcount, d, rfl, hmarked, ?_⟩
    intro m hm
    obtain ⟨hb, hfin⟩ := hdef d rfl m hm
    obtain ⟨x, hx, hr⟩ := hall m hm
    obtain ⟨q, rfl⟩ := PyFloat.isFinite_iff.mp (hfin x hx)
    exact ⟨q, hx, (Bound.holds_iff (by simp) hb).mpr hr⟩

/-- Readiness fails closed exactly where undefined evidence meets another refusal. -/
theorem readiness_fails_closed (readout : Option Dict) (sleepCount consolidationPasses : Option ℤ)
    (schedule : Option (ℤ × ℤ)) (config : MaturationConfig) (faculties : Faculties) :
    FailsClosed readout sleepCount consolidationPasses schedule config faculties ↔
      (Unrefused readout sleepCount consolidationPasses schedule config faculties →
        Defined readout config) := by
  constructor
  · intro h hu
    obtain ⟨r, hr⟩ := evaluates_of_unrefused hu
    exact (evidence_iff_defined hu).mp ((h r hr).1 ((ready_iff hr).mpr hu))
  · intro h r hr
    have hev : r.ready = true →
        Evidence readout sleepCount consolidationPasses schedule config faculties := by
      intro hready
      have hu := (ready_iff hr).mp hready
      exact (evidence_iff_defined hu).mpr (h hu)
    exact ⟨hev, fun _ _ _ hm => hev (ready_of_maturation hm)⟩

/-- A NaN heart-rate measure and otherwise sufficient evidence mature the entity. -/
theorem nan_matures : ¬ FailsClosed
    (some [("endogenous_self_sustain", .bool true), ("entrain_then_autonomy", .bool true),
      ("hrv_variability", .float .nan), ("stimulus_source_prediction_error", .float (.fin 0)),
      ("return_to_baseline_seconds", .int 5)]) (some 5) (some 3) (some (4, 4)) {} {} := by
  intro h
  obtain ⟨_, hmature⟩ := h ⟨regulationBaseline true "all markers crossed",
    evaluateC2 (some 5) (some 3) {} {}, evaluateC3 (some (4, 4))⟩ (by decide +kernel)
  obtain ⟨_, d, hd, _, hall⟩ := hmature true true true rfl
  cases hd
  obtain ⟨q, hq, _⟩ := hall ("hrv_variability", .floor (.fin (1 / 50))) (by simp [measures])
  cases hq

end Kaine.MaturationGate
