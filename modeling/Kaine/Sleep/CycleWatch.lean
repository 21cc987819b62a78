import Kaine.Sleep.Module

/-! The state cycle under watch: the unfrozen time that passes in a rest and between rests, over the
restarts that cut them. -/
namespace Kaine.Sleep
open PerceptionState

/-- Unfrozen time outside any sleep, and inside one that no poll has seen since. -/
structure Stretch where
  outside : ℚ := 0
  inside : ℚ := 0

namespace Stretch

def total (a : Stretch) : ℚ := a.outside + a.inside

def add (a b : Stretch) : Stretch := ⟨a.outside + b.outside, a.inside + b.inside⟩

/-- Time passes, in a sleep or not. -/
def pass (a : Stretch) (asleep : Bool) (t : ℚ) : Stretch :=
  if asleep then { a with inside := a.inside + t } else { a with outside := a.outside + t }

end Stretch

/-- An entry of the cycle with what had passed when it was exported. -/
structure Exported where
  entry : CycleEntry
  earlier : ℚ
  counted : Stretch

/-- The module, with the unfrozen time of the rest in hand (in the parts that were cut before, and
in this one), the stretch since the last rest that the polls have counted, and that since the last
poll. -/
structure Watched where
  sleep : Sleep
  earlier : ℚ := 0
  part : ℚ := 0
  counted : Stretch := {}
  since : Stretch := {}
  exports : List Exported := []

namespace Watched

/-- A state-cycle rest that starts in the resting phase resumes one that was cut. -/
def resumes (w : Watched) (i : ℕ) : Bool :=
  w.sleep.tasks[i]?.map (·.site) = some .stateCycle ∧ w.sleep.cycle.phase = .resting

/-- What has passed, after a move of the module. -/
def follow (w : Watched) (m : Move) (s : Sleep) : Watched :=
  let before := w.sleep.cycle
  match m with
  | .advance elapsed frozen =>
    { w with
      sleep := s
      part :=
        if before.phase = .resting ∧ before.restBegan.isSome then w.part + (elapsed - frozen)
          else w.part
      since := w.since.pass w.sleep.sleepLock (max 0 (elapsed - frozen)) }
  | .poll _ _ =>
    if w.sleep.sleepLock then { w with sleep := s, since := {} }
    else { w with sleep := s, counted := w.counted.add w.since, since := {} }
  | .resume i _ =>
    if before.restBegan = none ∧ s.cycle.restBegan ≠ none then
      { w with sleep := s, earlier := if w.resumes i then w.earlier else 0, part := 0 }
    else if before.phase = .resting ∧ s.cycle.phase = .awake then
      { w with sleep := s, counted := {}, since := {} }
    else if before.restBegan ≠ none ∧ s.cycle.restBegan = none ∧ s.cycle.phase = .resting then
      { w with sleep := s, earlier := w.earlier + max 0 w.part, part := 0 }
    else { w with sleep := s }
  | _ => { w with sleep := s }

/-- The entry that a snapshot takes in the developmental phase. -/
def exported (w : Watched) : Exported where
  entry := w.sleep.cycle.exportStateCycle (some true) w.sleep.asleep w.sleep.now w.sleep.paused
  earlier := w.earlier + max 0 w.part
  counted :=
    if w.sleep.cycle.phase = .resting then {}
    else if w.sleep.asleep then w.counted else w.counted.add w.since

end Watched

/-- What happens to the module: its own moves, a snapshot, and a restart from what was exported. -/
inductive Act
  | move (m : Move)
  | snapshot
  | restart (k : ℕ) (now paused : ℚ) (desired : Desired) (driveScales : List (Option ℚ))
      (awaits : Bool)

variable (config : Config)

/-- A new process that restores an exported entry. -/
def restarted (w : Watched) (kept : Exported) (now paused : ℚ) (desired : Desired)
    (driveScales : List (Option ℚ)) (awaits : Bool) : Option Watched :=
  let fresh := initial config now paused desired driveScales awaits
  match fresh.cycle.restoreStateCycle config.toCycleConfig kept.entry.toJson with
  | .error _ => none
  | .ok cycle =>
    some
      { sleep := { fresh with cycle := cycle }
        earlier := kept.earlier
        counted := kept.counted
        exports := w.exports }

def act (w : Watched) : Act → Option Watched
  | .move m => (step config w.sleep m).map (w.follow m)
  | .snapshot => some { w with exports := w.exports ++ [w.exported] }
  | .restart k now paused desired driveScales awaits =>
    if 0 ≤ paused then
      match w.exports[k]? with
      | none => none
      | some kept => restarted config w kept now paused desired driveScales awaits
    else none

end Kaine.Sleep
