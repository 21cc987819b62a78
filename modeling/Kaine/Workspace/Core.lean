import Kaine.Cycle.Types
import Kaine.Lib.SortBy

/-! Workspace selection, its live ablation twin and the regulation bias they apply
(`kaine/workspace/core.py`, `kaine/workspace/regulation_bias.py`). -/
namespace Kaine.GlobalWorkspace
open Py Bus

/-- A scored candidate: its score, its key and the event. -/
abbrev Scored (F : Type) := F × String × Event

/-- The float operations that selection uses. Nothing is assumed of them, so rounding, NaN
scores and their sort order are as Python has them. -/
class Floats (F : Type) extends Zero F, One F, Mul F, Sub F, Neg F, Div F where
  exp : F → F
  lt : F → F → Bool
  le : F → F → Bool
  ofSalience : ℚ → F
  /-- `sorted(scored, key=lambda item: item[0], reverse=True)`. -/
  ranked : List (Scored F) → List (Scored F)

structure RegulationBias (F : Type) where
  source : Option String
  bias : F
  decayS : F
  t1 : F

section
variable {F : Type} [Floats F]

/-- The bias at a clock reading, for a held source. -/
def RegulationBias.decayed (r : RegulationBias F) (now : F) : F :=
  let elapsed := if Floats.lt 0 (now - r.t1) then now - r.t1 else 0
  r.bias * Floats.exp (-elapsed / r.decayS)

/-- The active source and factor at a clock reading, none when inactive. -/
def RegulationBias.describe (r : RegulationBias F) (now : F) : Option (String × F) :=
  match r.source with
  | none => none
  | some source =>
    let b := r.decayed now
    if Floats.le b 0 then none else some (source, 1 - b)

end

/-- The context of one tick: what selection reads of it, and the rest, which the strategy may
read. Phases are none where the context holds no dict. -/
structure Context (P X : Type) where
  tickIndex : ℤ
  phases : Option P := none
  isExperiential : Option Bool := none
  rest : X

/-- The parts that a workspace is wired with. A strategy may raise and may change its own state. -/
structure Parts (σ κ φ ρ P X F B : Type) where
  score : σ → Event → Context P X → Option F × σ
  observe : κ → P → κ
  factorForSource : κ → String → List String → F
  plv : κ → List String → F
  observeCandidates : φ → List (String × Event) → Except PyError Unit × φ
  onBroadcast : φ → WorkspaceSnapshot F → Except PyError (Option B) × φ
  /-- `rng.sample(range(n), k)`. -/
  sample : ρ → ℕ → ℕ → List ℕ × ρ

structure Workspace (σ κ φ ρ F : Type) where
  topK : ℕ
  threshold : F
  arm : Arm
  strategy : σ
  coherence : Option κ
  regulationBias : Option (RegulationBias F)
  feedback : Option φ
  rng : ρ
  /-- How often the injected clock has been read. -/
  clockReads : ℕ

/-- What the constructor checks of the wiring. -/
structure Workspace.Valid {σ κ φ ρ F : Type} (ws : Workspace σ κ φ ρ F) : Prop where
  topK : 0 < ws.topK
  coherence_arm : ws.coherence.isSome = true → ws.arm = .competitive
  feedback_arm : ws.feedback.isSome = true → ws.arm = .competitive
  feedback_coherence : ws.feedback.isSome = true → ws.coherence = none

/-- A snapshot, and what selection adds to its metadata under the feedback key. -/
structure Selection (F B : Type) where
  snapshot : WorkspaceSnapshot F
  feedback : Option B

/-- Refuse a repeated candidate id; `seen` are the ids so far. -/
def requireUnseen (seen : List String) : List (String × Event) → Except PyError Unit
  | [] => .ok ()
  | (entryId, _) :: events =>
    if entryId ∈ seen then .error .valueError else requireUnseen (entryId :: seen) events

def requireUniqueIds (events : List (String × Event)) : Except PyError Unit :=
  requireUnseen [] events

/-- Go on with a result and the state it left, or stop where it raised. -/
def andThen {W α β : Type} (r : Except PyError α × W) (f : α → W → Except PyError β × W) :
    Except PyError β × W :=
  match r with
  | (.error e, w) => (.error e, w)
  | (.ok a, w) => f a w

section
variable {σ κ φ ρ P X F B : Type} [Floats F] (parts : Parts σ κ φ ρ P X F B) (clock : ℕ → F)

/-- Score every candidate; a strategy that raises scores zero. -/
def scoreAll (context : Context P X) : List (String × Event) → σ → List (Scored F) × σ
  | [], strategy => ([], strategy)
  | (entryId, event) :: events, strategy =>
    let (value, strategy) := parts.score strategy event context
    let (scored, strategy) := scoreAll context events strategy
    ((value.getD 0, entryId, event) :: scored, strategy)

/-- The score table entries of a scored list. -/
def scoreTable (scored : List (Scored F)) : List (String × F) :=
  scored.map fun item => (item.2.1, item.1)

/-- `sorted({event.source ...})`. -/
def cohort (scored : List (Scored F)) : List String :=
  SortBy.sortBy id (scored.map fun item => item.2.2.source).dedup

def coherenceScores (k : κ) (scored : List (Scored F)) : List (Scored F) :=
  scored.map fun item =>
    (item.1 * parts.factorForSource k item.2.2.source (cohort scored), item.2)

def observePhases (context : Context P X) (ws : Workspace σ κ φ ρ F) : Workspace σ κ φ ρ F :=
  match ws.coherence, context.phases with
  | some k, some phases => { ws with coherence := some (parts.observe k phases) }
  | _, _ => ws

/-- `describe()`: the clock is read exactly when a source is held. -/
def describe (ws : Workspace σ κ φ ρ F) : Option (String × F) × Workspace σ κ φ ρ F :=
  match ws.regulationBias with
  | none => (none, ws)
  | some r =>
    (r.describe (clock ws.clockReads),
      if r.source.isSome then { ws with clockReads := ws.clockReads + 1 } else ws)

/-- The scores of the biased source multiplied by its factor. -/
def biasedScores (description : String × F) (scored : List (Scored F)) : List (Scored F) :=
  scored.map fun item =>
    if item.2.2.source ≠ description.1 then item else (item.1 * description.2, item.2)

def applyRegulationBias (scored : List (Scored F)) (scores : List (String × F))
    (metadata : Metadata F) (ws : Workspace σ κ φ ρ F) :
    (List (Scored F) × List (String × F) × Metadata F) × Workspace σ κ φ ρ F :=
  match describe clock ws with
  | (none, ws) => ((scored, scores, metadata), ws)
  | (some description, ws) =>
    let adjusted := biasedScores description scored
    let applied := adjusted.filter fun item => item.2.2.source = description.1
    ((adjusted, Assoc.assignAll scores (scoreTable applied),
      { metadata with regulationBias := some description }), ws)

/-- Sort, take the top of the list, flag inhibition and compose; `draw` asks for the random
coalition of the matched arm. -/
def compose (tickIndex : ℤ) (scored : List (Scored F)) (scores : List (String × F))
    (metadata : Metadata F) (draw : Bool) (ws : Workspace σ κ φ ρ F) :
    WorkspaceSnapshot F × Workspace σ κ φ ρ F :=
  let metadata := { metadata with
    accessThreshold := some ws.threshold, arm := some ws.arm, coalitionCapacity := some ws.topK }
  let snapshot (top : List (Scored F)) (inhibited : Bool) : WorkspaceSnapshot F :=
    { tickIndex, selectedEvents := top.map Prod.snd, inhibited, salienceScores := scores, metadata }
  if ws.arm = .matched && draw then
    let (picks, rng) := parts.sample ws.rng scored.length (min ws.topK scored.length)
    let drawn := (SortBy.sortBy id picks).filterMap fun i => scored[i]?
    let top := Floats.ranked drawn
    (snapshot top (!top.any fun item => Floats.le ws.threshold item.1), { ws with rng })
  else
    let top := (Floats.ranked scored).take ws.topK
    let topScore := (top.head?.map Prod.fst).getD 0
    (snapshot top (Floats.lt topScore ws.threshold), ws)

/-- The snapshot of the pooled arm, where every candidate is a member. -/
def pooled (tickIndex : ℤ) (events : List (String × Event)) (ws : Workspace σ κ φ ρ F) :
    WorkspaceSnapshot F :=
  { tickIndex, selectedEvents := events, inhibited := false,
    salienceScores := Assoc.assignAll []
      (events.map fun item => (item.1, Floats.ofSalience item.2.salience)),
    metadata := { arm := some ws.arm } }

/-- The inhibited snapshot of a tick without candidates. -/
def emptySnapshot (tickIndex : ℤ) (ws : Workspace σ κ φ ρ F) : WorkspaceSnapshot F :=
  { tickIndex, inhibited := true,
    metadata := { arm := some ws.arm, coalitionCapacity := some ws.topK } }

/-- The coherence multiplier, where the layer is on. -/
def applyCoherence (context : Context P X) (scored : List (Scored F)) (scores : List (String × F))
    (ws : Workspace σ κ φ ρ F) :
    (List (Scored F) × List (String × F) × Metadata F) × Workspace σ κ φ ρ F :=
  let ws := observePhases parts context ws
  match ws.coherence with
  | none => ((scored, scores, {}), ws)
  | some k =>
    let adjusted := coherenceScores parts k scored
    ((adjusted, Assoc.assignAll scores (scoreTable adjusted),
      { coherence := some (parts.plv k (cohort scored)) }), ws)

def observeFeedback (events : List (String × Event)) (ws : Workspace σ κ φ ρ F) :
    Except PyError Unit × Workspace σ κ φ ρ F :=
  match ws.feedback with
  | none => (.ok (), ws)
  | some feedback =>
    let (result, feedback) := parts.observeCandidates feedback events
    (result, { ws with feedback := some feedback })

/-- The feedback of a broadcast tick, beside the snapshot it goes into. -/
def attachFeedback (context : Context P X) (snapshot : WorkspaceSnapshot F)
    (ws : Workspace σ κ φ ρ F) : Except PyError (Selection F B) × Workspace σ κ φ ρ F :=
  match ws.feedback with
  | none => (.ok ⟨snapshot, none⟩, ws)
  | some feedback =>
    if context.isExperiential.getD false then
      let (result, feedback) := parts.onBroadcast feedback snapshot
      (result.map fun fb => ⟨snapshot, fb⟩, { ws with feedback := some feedback })
    else (.ok ⟨snapshot, none⟩, ws)

def select (events : List (String × Event)) (context : Context P X) (ws : Workspace σ κ φ ρ F) :
    Except PyError (Selection F B) × Workspace σ κ φ ρ F :=
  andThen (requireUniqueIds events, ws) fun _ ws =>
  if ws.arm = .pooled then (.ok ⟨pooled context.tickIndex events ws, none⟩, ws)
  else if ws.arm = .matched && context.isExperiential.isNone then (.error .valueError, ws)
  else
    andThen (observeFeedback parts events ws) fun _ ws =>
    if events.isEmpty then
      let ws := observePhases parts context ws
      (.ok ⟨emptySnapshot context.tickIndex ws, none⟩, ws)
    else
      let (scored, strategy) := scoreAll parts context events ws.strategy
      let scores := Assoc.assignAll [] (scoreTable scored)
      let ((scored, scores, metadata), ws) :=
        applyCoherence parts context scored scores { ws with strategy }
      let ((scored, scores, metadata), ws) := applyRegulationBias clock scored scores metadata ws
      let (snapshot, ws) := compose parts context.tickIndex scored scores metadata
        (context.isExperiential.getD false) ws
      attachFeedback parts context snapshot ws

/-- The primary selection, and beside it the twin with the coherence layer off; none where the
layer is already off. -/
def selectDual (events : List (String × Event)) (context : Context P X)
    (ws : Workspace σ κ φ ρ F) :
    Except PyError (Selection F B × Option (Selection F B)) × Workspace σ κ φ ρ F :=
  match ws.coherence with
  | none => andThen (select parts clock events context ws) fun primary ws =>
      (.ok (primary, none), ws)
  | some k =>
    andThen (requireUniqueIds events, ws) fun _ ws =>
    if events.isEmpty then
      let ws := observePhases parts context ws
      let empty := emptySnapshot context.tickIndex ws
      (.ok (⟨empty, none⟩, some ⟨empty, none⟩), ws)
    else
      let (scoredRaw, strategy) := scoreAll parts context events ws.strategy
      let scoresOff := Assoc.assignAll [] (scoreTable scoredRaw)
      let ws := observePhases parts context { ws with strategy }
      let k := ws.coherence.getD k
      let scoredOn := coherenceScores parts k scoredRaw
      let scoresOn := Assoc.assignAll [] (scoreTable scoredOn)
      let ((scoredOn, scoresOn, primaryMetadata), ws) := applyRegulationBias clock scoredOn
        scoresOn { coherence := some (parts.plv k (cohort scoredRaw)) } ws
      let ((scoredOff, scoresOff, counterfactualMetadata), ws) :=
        applyRegulationBias clock scoredRaw scoresOff {} ws
      let (primary, ws) :=
        compose parts context.tickIndex scoredOn scoresOn primaryMetadata false ws
      let (counterfactual, ws) :=
        compose parts context.tickIndex scoredOff scoresOff counterfactualMetadata false ws
      (.ok (⟨primary, none⟩, some ⟨counterfactual, none⟩), ws)

end
end Kaine.GlobalWorkspace
