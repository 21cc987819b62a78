import Kaine.Lib.Json
import Mathlib.Tactic.Linarith

/-! The developmental state cycle: awake stretches and the rests between them. Times are rational
seconds, read off the entity's clock and the frozen time beside it. -/
namespace Kaine.Sleep
open Py

/-- The length of a rest, and the share of the time that is spent in it. -/
structure CycleConfig where
  restS : ℚ
  quiescentShare : ℚ
  restS_pos : 0 < restS
  share_pos : 0 < quiescentShare
  share_lt : quiescentShare < 1

/-- The awake time between two rests. -/
def CycleConfig.awakeS (config : CycleConfig) : ℚ :=
  config.restS * (1 - config.quiescentShare) / config.quiescentShare

/-- What ends a coroutine early. -/
inductive Exn
  | failure
  | cancelled
deriving DecidableEq

inductive CyclePhase
  | awake
  | resting
deriving DecidableEq

structure StateCycle where
  phase : CyclePhase := .awake
  awakeS : ℚ := 0
  restSpentS : ℚ := 0
  lastTick : Option ℚ := none
  tickPaused : ℚ := 0
  restBegan : Option ℚ := none
  restPausedBase : ℚ := 0
  restSeconds : ℚ
  resumeSpentS : ℚ := 0
deriving DecidableEq

/-- The cycle's entry in a snapshot. -/
structure CycleEntry where
  phase : CyclePhase
  awakeS : ℚ
  restSpentS : ℚ
deriving DecidableEq

def CyclePhase.name : CyclePhase → String
  | .awake => "awake"
  | .resting => "resting"

def CycleEntry.toJson (entry : CycleEntry) : Json :=
  .obj [("phase", .str entry.phase.name), ("awake_s", .float (.fin entry.awakeS)),
    ("rest_spent_s", .float (.fin entry.restSpentS))]

namespace StateCycle

def initial (config : CycleConfig) : StateCycle := { restSeconds := config.restS }

/-- How long a rest begun at `started` has run, frozen time excluded. -/
def restElapsed (cycle : StateCycle) (now paused started : ℚ) : ℚ :=
  let frozen := max 0 (paused - cycle.restPausedBase)
  max 0 (now - started - frozen)

/-- Begin a fresh awake stretch. -/
def reset (cycle : StateCycle) (now : ℚ) : StateCycle :=
  { cycle with phase := .awake, awakeS := 0, restSpentS := 0, lastTick := some now }

/-- Accrue awake time, unless a poll finds a sleep. -/
def tick (cycle : StateCycle) (developing : Option Bool) (asleep : Bool) (now paused : ℚ) :
    StateCycle :=
  let ticked := { cycle with tickPaused := paused, lastTick := some now }
  match developing, cycle.lastTick with
  | some false, _ => ticked.reset now
  | none, _ | some true, none => ticked
  | some true, some last =>
    if cycle.phase = .awake ∧ asleep = false then
      { ticked with
        awakeS := cycle.awakeS + max 0 ((now - last) - max 0 (paused - cycle.tickPaused)) }
    else ticked

/-- What a scheduled rest is to resume with. -/
def schedule (cycle : StateCycle) (resume : Bool) : StateCycle :=
  { cycle with resumeSpentS := if resume then cycle.restSpentS else 0 }

/-- A rest begins. One that was cut starts its clock that far back. -/
def beginRest (config : CycleConfig) (cycle : StateCycle) (now paused : ℚ) : StateCycle :=
  let resumedSpent := min cycle.resumeSpentS config.restS
  { cycle with
    resumeSpentS := 0
    restPausedBase := paused
    restBegan := some (now - resumedSpent)
    phase := .resting
    restSpentS := resumedSpent
    restSeconds := config.restS - resumedSpent }

/-- Whether a rest that ends early keeps its remainder: a cancelled one does. -/
def resumable (cycle : StateCycle) (exn : Exn) : Bool :=
  exn = .cancelled ∧ cycle.restBegan.isSome ∧ cycle.phase = .resting

/-- A rest ends early. One that failed does not repeat at once. -/
def cut (cycle : StateCycle) (exn : Exn) (now paused : ℚ) : StateCycle :=
  match exn, cycle.restBegan, cycle.phase with
  | .cancelled, some began, .resting =>
    { cycle with restSpentS := cycle.restElapsed now paused began, restBegan := none }
  | .failure, _, .resting => { cycle.reset now with restBegan := none }
  | _, _, _ => { cycle with restBegan := none }

def exportStateCycle (cycle : StateCycle) (developing : Option Bool) (asleep : Bool)
    (now paused : ℚ) : CycleEntry :=
  match cycle.phase with
  | .resting =>
    let spent :=
      match cycle.restBegan with
      | none => cycle.restSpentS
      | some began => cycle.restElapsed now paused began
    ⟨.resting, 0, spent⟩
  | .awake =>
    let awake :=
      match cycle.lastTick with
      | some last =>
        if asleep = false ∧ developing = some true then
          cycle.awakeS + max 0 ((now - last) - max 0 (paused - cycle.tickPaused))
        else cycle.awakeS
      | none => cycle.awakeS
    ⟨.awake, awake, 0⟩

/-- A finite number that is not negative. -/
def num : Json → Except PyError (Option ℚ)
  | .int n =>
    if |n| < PyFloat.overflowBound then .ok (if 0 ≤ n then some n else none)
    else .error .overflowError
  | .float (.fin q) => .ok (if 0 ≤ q then some q else none)
  | _ => .ok none

def restoreStateCycle (config : CycleConfig) (cycle : StateCycle) (raw : Json) :
    Except PyError StateCycle :=
  match raw with
  | .obj fields => do
    let awake ← num (Dict.get fields "awake_s")
    let spent ← num (Dict.get fields "rest_spent_s")
    if Dict.get fields "phase" = .str "resting" then
      match spent with
      | some spent =>
        if spent < config.restS then
          pure { cycle with phase := .resting, restSpentS := spent, awakeS := 0, lastTick := none }
        else pure { cycle with phase := .awake, awakeS := 0, restSpentS := 0, lastTick := none }
      | none => pure cycle
    else if Dict.get fields "phase" = .str "awake" then
      match awake with
      | some awake =>
        pure { cycle with phase := .awake, awakeS := awake, restSpentS := 0, lastTick := none }
      | none => pure cycle
    else pure cycle
  | _ => .ok cycle

end StateCycle

end Kaine.Sleep
