import Kaine.Lib.Assoc
import Kaine.Lib.PyFloat
import Mathlib.Data.Rat.Floor
import Mathlib.Data.String.Basic

/-! Three-tier emotion regulation (`kaine/modules/affect/regulation.py`), in exact arithmetic:
times, the sustain window and intensities are rational. -/
namespace Kaine.Regulation
open Py

/-- The accepted parameters that the episode rule reads. -/
structure RegulationConfig where
  setPoint : ℚ
  sustainWindowS : ℚ
  setPoint_nonneg : 0 ≤ setPoint
  window_pos : 0 < sustainWindowS

structure RegulationActivation where
  tier : ℤ
  episodeS : ℚ
  intensity : ℚ
  targetSource : Option String
  deriving DecidableEq

/-- Accumulated intensity by source. -/
abbrev Mass := List (String × ℚ)

abbrev Contributions := List (String × PyFloat)

structure ThreeTierRegulation where
  episodeStart : Option ℚ := none
  lastWindow : ℤ := 0
  mass : Mass := []
  pending : Mass := []
  reappraised : Bool := false
  deriving DecidableEq

/-- A finite value that is not negative is added to its source. -/
def accumulate (mass : Mass) (contributions : Contributions) : Mass :=
  contributions.foldl
    (fun mass c =>
      match c.2 with
      | .fin value =>
        if 0 ≤ value then Assoc.assign mass c.1 ((mass.lookup c.1).getD 0 + value) else mass
      | _ => mass)
    mass

/-- The source with the largest accumulated mass, the least of those that share it. -/
def targetSource (mass : Mass) : Option String :=
  match (mass.map Prod.snd).max? with
  | none => none
  | some maxMass =>
    if maxMass ≤ 0 then none else ((mass.filter fun entry => entry.2 = maxMass).map Prod.fst).min?

namespace ThreeTierRegulation

def inEpisode (s : ThreeTierRegulation) : Bool := s.episodeStart.isSome

/-- A sustained sample that finds no episode starts one, which takes over the pending mass. -/
def enter (s : ThreeTierRegulation) (now : ℚ) : ThreeTierRegulation :=
  match s.episodeStart with
  | none =>
    { episodeStart := some now, lastWindow := 0, mass := s.pending, pending := [],
      reappraised := false }
  | some _ => s

def update (cfg : RegulationConfig) (s : ThreeTierRegulation) (now intensity : PyFloat)
    (negative : Bool) : Option RegulationActivation × ThreeTierRegulation :=
  match now, intensity with
  | .fin now, .fin intensity =>
    if cfg.setPoint ≤ intensity ∧ negative then
      let s := s.enter now
      let elapsed := now - s.episodeStart.getD now
      let k := ⌊elapsed / cfg.sustainWindowS⌋
      if 1 ≤ k ∧ s.lastWindow < k then
        (some
          { tier := min k 3
            episodeS := elapsed
            intensity
            targetSource := if min k 3 = 1 then Regulation.targetSource s.mass else none },
          { s with lastWindow := k })
      else (none, s)
    -- `_end_episode` clears every field.
    else (none, {})
  | _, _ => (none, s)

def observeCoalition (s : ThreeTierRegulation) (contributions : Contributions) (negative : Bool) :
    ThreeTierRegulation :=
  if s.inEpisode then
    if negative then { s with mass := accumulate s.mass contributions } else s
  else if negative then { s with pending := accumulate [] contributions }
  else { s with pending := [] }

def takeReappraisal (s : ThreeTierRegulation) : Bool × ThreeTierRegulation :=
  if !s.inEpisode then (false, s)
  else if s.reappraised then (false, s)
  else (true, { s with reappraised := true })

def reset (_ : ThreeTierRegulation) : ThreeTierRegulation := {}

end ThreeTierRegulation

inductive Op where
  | update (now intensity : PyFloat) (negative : Bool)
  | observeCoalition (contributions : Contributions) (negative : Bool)
  | takeReappraisal
  | reset

/-- A call: the activation it emits, whether it grants a reappraisal, and the state it leaves. -/
def perform (cfg : RegulationConfig) (s : ThreeTierRegulation) :
    Op → (Option RegulationActivation × Bool) × ThreeTierRegulation
  | .update now intensity negative =>
    (((s.update cfg now intensity negative).1, false), (s.update cfg now intensity negative).2)
  | .observeCoalition contributions negative =>
    ((none, false), s.observeCoalition contributions negative)
  | .takeReappraisal => ((none, s.takeReappraisal.1), s.takeReappraisal.2)
  | .reset => ((none, false), s.reset)

end Kaine.Regulation
