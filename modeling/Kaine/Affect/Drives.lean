import Kaine.Lib.Json
import Mathlib.Algebra.Order.Field.Basic
import Mathlib.Data.Rat.Cast.Defs

/-! The drive accumulators of the affect module (`kaine/modules/affect/drives.py`). -/
namespace Kaine.Drives
open Py

variable {K : Type} [Field K] [LinearOrder K]

def clamp01 (x : K) : K := if x < 0 then 0 else if 1 < x then 1 else x

inductive DriveName where
  | curiosity | boredom | socialDrive | restlessness
  deriving DecidableEq

namespace DriveName

def text : DriveName → String
  | curiosity => "curiosity"
  | boredom => "boredom"
  | socialDrive => "social_drive"
  | restlessness => "restlessness"

def all : List DriveName := [curiosity, boredom, socialDrive, restlessness]

/-- Interest rather than a deficit. -/
def heterostatic : DriveName → Bool
  | curiosity => true
  | _ => false

def deficits : List DriveName := [boredom, socialDrive, restlessness]

/-- The drive that a `DriveSet` has under a name. -/
def find (name : String) : Option DriveName := all.find? fun n => n.text = name

end DriveName

structure DriveParams (K : Type) where
  buildRate : K
  decayRate : K
  threshold : K
  reliefGain : K

def driveDefaults : DriveName → DriveParams K
  | .curiosity => ⟨(5 / 100 : ℚ), (96 / 100000 : ℚ), (7 / 10 : ℚ), 0⟩
  | .boredom => ⟨(4 / 100 : ℚ), (45 / 10000 : ℚ), (7 / 10 : ℚ), (3 / 10 : ℚ)⟩
  | .socialDrive => ⟨(1 / 100 : ℚ), (11 / 10000 : ℚ), (7 / 10 : ℚ), (8 / 10 : ℚ)⟩
  | .restlessness => ⟨(3 / 100 : ℚ), (33 / 10000 : ℚ), (7 / 10 : ℚ), (1 / 2 : ℚ)⟩

/-- The dataclass default, which every drive of a configuration keeps. -/
def hysteresisFraction : K := (9 / 10 : ℚ)

/-- Parameters that `__post_init__` accepts. -/
structure DriveConfig (K : Type) [Field K] [LinearOrder K] extends DriveParams K where
  reliefGain_mem : 0 ≤ reliefGain ∧ reliefGain ≤ 1
  buildRate_nonneg : 0 ≤ buildRate
  decayRate_nonneg : 0 ≤ decayRate
  threshold_mem : 0 < threshold ∧ threshold ≤ 1

structure Drive (K : Type) [Field K] [LinearOrder K] where
  cfg : DriveConfig K
  heterostatic : Bool
  value : K := 0
  hasFired : Bool := false
  ownEnds : ℕ := 0
  otherEnds : ℕ := 0
  resetEnds : ℕ := 0

namespace Drive

/-- Below it the drive may fire again. -/
def band (d : Drive K) : K := d.cfg.threshold * hysteresisFraction

def step (exp : K → K) (d : Drive K) (value u dt : K) : K :=
  let r := d.cfg.buildRate * u + d.cfg.decayRate
  if 0 < r then
    let eq := d.cfg.buildRate * u / r
    clamp01 (eq + (value - eq) * exp (-r * dt))
  else value

def checkHysteresis (d : Drive K) (own : Bool) : Drive K :=
  if d.hasFired ∧ d.value < d.band then
    if d.heterostatic then { d with hasFired := false }
    else if own then { d with hasFired := false, ownEnds := d.ownEnds + 1 }
    else { d with hasFired := false, otherEnds := d.otherEnds + 1 }
  else d

/-- Whether a fall below the band is the entity's own: without its response the drive would not have
fallen. -/
def ownFall (exp : K → K) (d : Drive K) (dt signal : K) : Option K → Bool
  | none => false
  | some noResponseSignal =>
    let u := clamp01 signal
    let noResponseU := clamp01 noResponseSignal
    u < noResponseU ∧ d.hasFired ∧ d.step exp d.value u dt < d.band ∧
      d.band ≤ d.step exp d.value noResponseU dt

def tick (exp : K → K) (d : Drive K) (dt signal : K) (noResponseSignal : Option K) : Drive K :=
  if dt ≤ 0 then d
  else
    { d with value := d.step exp d.value (clamp01 signal) dt }.checkHysteresis
      (d.ownFall exp dt signal noResponseSignal)

def relieve (d : Drive K) (strength : K) (own : Bool) : Drive K :=
  { d with
    value := clamp01 (d.value * (1 - d.cfg.reliefGain * clamp01 strength)) }.checkHysteresis own

def relieveFraction (d : Drive K) (fraction : K) (own : Bool) : Drive K :=
  { d with value := clamp01 (d.value * (1 - clamp01 fraction)) }.checkHysteresis own

def relieveRate (exp : K → K) (d : Drive K) (strength dt : K) (own : Bool) : Drive K :=
  if 0 < dt then
    { d with
      value := clamp01 (d.value * exp (-d.cfg.reliefGain * clamp01 strength * dt))
    }.checkHysteresis own
  else d.checkHysteresis own

def consumeCrossing (d : Drive K) : Bool × Drive K :=
  if d.cfg.threshold ≤ d.value ∧ ¬d.hasFired then (true, { d with hasFired := true })
    else (false, d)

def reset (d : Drive K) : Drive K := { d with value := 0, hasFired := false }

def sleepReset (d : Drive K) : Drive K :=
  if d.hasFired ∧ ¬d.heterostatic then { d with resetEnds := d.resetEnds + 1 }.reset else d.reset

end Drive

structure DriveCrossing (K : Type) where
  name : DriveName
  value : K

/-- The four drives. -/
abbrev DriveSet (K : Type) [Field K] [LinearOrder K] := DriveName → Drive K

/-- The inputs of a tick. -/
structure Signals (K : Type) where
  progress : K
  activity : K
  social : K
  action : K
  boredomNoResponse : Option K

/-- The build input of a drive. -/
def Signals.of (signals : Signals K) : DriveName → K
  | .curiosity => signals.progress
  | .boredom => signals.activity
  | .socialDrive => signals.social
  | .restlessness => signals.action

/-- The build input that a drive would have without the entity's own response. -/
def Signals.noResponse (signals : Signals K) : DriveName → Option K
  | .curiosity => none
  | .boredom => signals.boredomNoResponse
  | .socialDrive => none
  | .restlessness => some 1

inductive ConfigError where
  | unknownDrive (name : String)
  | unknownKey (key name : String)
  | rejected (message : String)
  deriving DecidableEq

def DriveConfig.make (params : DriveParams K) : Except ConfigError (DriveConfig K) :=
  if hrelief : 0 ≤ params.reliefGain ∧ params.reliefGain ≤ 1 then
    if hbuild : 0 ≤ params.buildRate then
      if hdecay : 0 ≤ params.decayRate then
        if hthreshold : 0 < params.threshold ∧ params.threshold ≤ 1 then
          .ok ⟨params, hrelief, hbuild, hdecay, hthreshold⟩
        else .error (.rejected "threshold must be finite and in (0, 1]")
      else .error (.rejected "decay_rate must be finite and >= 0")
    else .error (.rejected "build_rate must be finite and >= 0")
  else .error (.rejected "relief_gain must be finite and in [0, 1]")

def knownKeys : List String := ["build_rate", "decay_rate", "threshold", "relief_gain"]

/-- The table of each drive. -/
abbrev Section (K : Type) := List (String × List (String × K))

/-- A drive of a table, with the defaults of the keys that are missing. -/
def Drive.fromConfig (conf : Section K) (n : DriveName) : Except ConfigError (Drive K) :=
  let sub := (conf.lookup n.text).getD []
  match sub.find? fun entry => entry.1 ∉ knownKeys with
  | some entry => .error (.unknownKey entry.1 n.text)
  | none =>
    (DriveConfig.make
      { buildRate := (sub.lookup "build_rate").getD (driveDefaults n).buildRate
        decayRate := (sub.lookup "decay_rate").getD (driveDefaults n).decayRate
        threshold := (sub.lookup "threshold").getD (driveDefaults n).threshold
        reliefGain := (sub.lookup "relief_gain").getD (driveDefaults n).reliefGain }).map
      fun cfg => { cfg, heterostatic := n.heterostatic }

namespace DriveSet

def fromConfig (conf : Section K) : Except ConfigError (DriveSet K) :=
  match conf.find? fun entry => (DriveName.find entry.1).isNone with
  | some entry => .error (.unknownDrive entry.1)
  | none => do
    let curiosity ← Drive.fromConfig conf .curiosity
    let boredom ← Drive.fromConfig conf .boredom
    let socialDrive ← Drive.fromConfig conf .socialDrive
    let restlessness ← Drive.fromConfig conf .restlessness
    return fun
      | .curiosity => curiosity
      | .boredom => boredom
      | .socialDrive => socialDrive
      | .restlessness => restlessness

def tick (exp : K → K) (s : DriveSet K) (dt : K) (signals : Signals K) :
    List (DriveCrossing K) × DriveSet K :=
  let s : DriveSet K := fun n => (s n).tick exp dt (signals.of n) (signals.noResponse n)
  ((DriveName.all.filter fun n => (s n).consumeCrossing.1).map fun n => ⟨n, (s n).value⟩,
    fun n => (s n).consumeCrossing.2)

/-- A change of the drive of a name, `none` for the `KeyError` of an unknown one. -/
def modify (s : DriveSet K) (name : String) (f : Drive K → Drive K) : Option (DriveSet K) :=
  (DriveName.find name).map fun n => Function.update s n (f (s n))

def relieve (s : DriveSet K) (name : String) (strength : K) (own : Bool) : Option (DriveSet K) :=
  s.modify name fun d => d.relieve strength own

def relieveRate (exp : K → K) (s : DriveSet K) (name : String) (strength dt : K) (own : Bool) :
    Option (DriveSet K) :=
  s.modify name fun d => d.relieveRate exp strength dt own

def relieveFraction (s : DriveSet K) (name : String) (fraction : K) (own : Bool) :
    Option (DriveSet K) :=
  s.modify name fun d => d.relieveFraction fraction own

def resetAll (s : DriveSet K) : DriveSet K := fun n => (s n).reset

def resetDeficits (s : DriveSet K) : DriveSet K := fun n =>
  if n ∈ DriveName.deficits then (s n).sleepReset else s n

def toDict (s : DriveSet K) : List (String × K) := DriveName.all.map fun n => (n.text, (s n).value)

def outcomesToDict (s : DriveSet K) : Dict :=
  DriveName.all.map fun n => (n.text, .obj [("own", .int (s n).ownEnds),
    ("other", .int (s n).otherEnds)])

def resetEndsToDict (s : DriveSet K) : Dict :=
  DriveName.deficits.map fun n => (n.text, .int (s n).resetEnds)

def firedToDict (s : DriveSet K) : Dict := DriveName.all.map fun n => (n.text, .bool (s n).hasFired)

/-- A counter of saved data, if it is an integer that is not negative. -/
def count : Option Json → Option ℕ
  | some (.int n) => if 0 ≤ n then some n.toNat else none
  | _ => none

def loadOutcomes (s : DriveSet K) : Json → DriveSet K
  | .obj data =>
    data.foldl
      (fun s kv =>
        match kv.2, DriveName.find kv.1 with
        | .obj entry, some n =>
          Function.update s n
            { s n with
              ownEnds := (count (entry.lookup "own")).getD (s n).ownEnds
              otherEnds := (count (entry.lookup "other")).getD (s n).otherEnds }
        | _, _ => s)
      s
  | _ => s

def loadResetEnds (s : DriveSet K) : Json → DriveSet K
  | .obj data => fun n =>
    if n ∈ DriveName.deficits then
      { s n with resetEnds := (count (data.lookup n.text)).getD (s n).resetEnds }
    else s n
  | _ => s

/-- The latch of saved data, if it is a bool. -/
def latch : Json → DriveName → Option Bool
  | .obj data, n =>
    match data.lookup n.text with
    | some (.bool fired) => some fired
    | _ => none
  | _, _ => none

def loadFired (s : DriveSet K) (data : Json) : DriveSet K := fun n =>
  { s n with hasFired := (latch data n).getD ((s n).cfg.threshold ≤ (s n).value) }

/-- The drive values of a saved affect state (`kaine/modules/affect/module.py`). -/
def loadValues (s : DriveSet K) (data : List (String × K)) : DriveSet K :=
  data.foldl
    (fun s kv =>
      match DriveName.find kv.1 with
      | some n => Function.update s n { s n with value := max 0 (min 1 kv.2) }
      | none => s)
    s

end DriveSet

/-- The part of a saved affect state that holds the drives. -/
structure Saved (K : Type) where
  drives : List (String × K)
  driveOutcomes : Json
  driveResetEnds : Json
  driveFired : Json

def save (s : DriveSet K) : Saved K where
  drives := s.toDict
  driveOutcomes := .obj s.outcomesToDict
  driveResetEnds := .obj s.resetEndsToDict
  driveFired := .obj s.firedToDict

/-- The drives of a configuration after a saved state is loaded into them. -/
def restore (fresh : DriveSet K) (saved : Saved K) : DriveSet K :=
  let s := (fresh.loadValues saved.drives).loadFired saved.driveFired
  (s.loadOutcomes saved.driveOutcomes).loadResetEnds saved.driveResetEnds

inductive Op (K : Type) where
  | tick (dt : K) (signals : Signals K)
  | relieve (name : String) (strength : K) (own : Bool)
  | relieveRate (name : String) (strength dt : K) (own : Bool)
  | relieveFraction (name : String) (fraction : K) (own : Bool)
  | resetAll
  | resetDeficits
  | saveRestore

/-- A call on the drives that were built as `fresh`: the crossings it reports and the drives it
leaves, which are unchanged where it raises. -/
def perform (exp : K → K) (fresh s : DriveSet K) : Op K → List (DriveCrossing K) × DriveSet K
  | .tick dt signals => s.tick exp dt signals
  | .relieve name strength own => ([], (s.relieve name strength own).getD s)
  | .relieveRate name strength dt own => ([], (s.relieveRate exp name strength dt own).getD s)
  | .relieveFraction name fraction own => ([], (s.relieveFraction name fraction own).getD s)
  | .resetAll => ([], s.resetAll)
  | .resetDeficits => ([], s.resetDeficits)
  | .saveRestore => ([], restore fresh (save s))

/-- Every crossing that a run reports, and the drives after it. -/
def run (exp : K → K) (fresh : DriveSet K) (ops : List (Op K)) :
    List (DriveCrossing K) × DriveSet K :=
  ops.foldl (fun p op => (p.1 ++ (perform exp fresh p.2 op).1, (perform exp fresh p.2 op).2))
    ([], fresh)

end Kaine.Drives
