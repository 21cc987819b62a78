import Kaine.LegacyNames
import Mathlib.Data.Finset.Sort

/-! The monitor that preserves a diverging individual (`DivergenceMonitor` of
`kaine/cycle/preservation_monitor.py`), its recorded arms, and the runs of its processes. -/
namespace Kaine.Divergence
open Py

structure DivergenceAssessment where
  diverged : Bool
  signals : Dict
  deriving DecidableEq

/-- Each arm with the signal that arms it. -/
def armSignals : List (String × String) :=
  [("individuation", "individuation_individuated"),
   ("self_model_drift", "self_model_drift_signal"), ("adapters", "sleep_adapters_present")]

/-- Every name that `_active_arms` can return. -/
def armNames : Finset String :=
  {"individuation", "self_model_drift", "adapters", "voice", "diverged"}

/-- `_active_arms`. -/
def activeArms (assessment : DivergenceAssessment) : Finset String :=
  let signalled := armSignals.filter fun row => (Dict.get assessment.signals row.2).truthy
  let voice := (Dict.get assessment.signals "voice_vote").pyEq (.str "diverged")
  let arms := (signalled.map Prod.fst).toFinset ∪ if voice then {"voice"} else ∅
  if assessment.diverged ∧ arms = ∅ then {"diverged"} else arms

/-- What is on disk under `divergence_edge.json`. -/
inductive EdgeFile where
  | missing
  | unreadable
  | data (json : Json)
  deriving DecidableEq

/-- `str(v)`, with `repr` for the values that are no strings. -/
def pyStr (repr : Json → String) : Json → String
  | .str s => s
  | v => repr v

/-- `_map_arms`. -/
def mapArms (repr : Json → String) (arms : List Json) : Finset String :=
  (arms.map fun arm => mapStoredValue (pyStr repr arm)).toFinset

/-- The recorded arms, none on any error. -/
def loadEdgeArms (repr : Json → String) : EdgeFile → Finset String
  | .missing | .unreadable => ∅
  | .data (.obj data) =>
    match Dict.getD data "arms" (.arr []) with
    | .arr arms => mapArms repr arms
    | _ => ∅
  | .data _ => ∅

def edgePayload (arms : Finset String) (updatedAt : String) : Json :=
  .obj [("arms", .arr ((arms.sort (· ≤ ·)).map .str)), ("updated_at", .str updatedAt)]

variable {T : Type} [Sub T] [LinearOrder T]

structure DivergenceMonitorConfig (T : Type) where
  minIntervalS : T
  bootSettleS : T
  /-- The text of a listed arm that is no string. -/
  repr : Json → String

structure DivergenceMonitor (T : Type) where
  startedAt : T
  /-- None until the edge file has been read. -/
  lastArms : Option (Finset String) := none
  lastPreserveAt : Option T := none
  deriving DecidableEq

/-- How `preserve_live` and the records after it end. -/
inductive Preserve where
  | fails
  /-- The individual is preserved, and the poll ends before it records the arms. -/
  | interrupted
  | ok
  deriving DecidableEq

structure Poll (T : Type) where
  now : T
  /-- None where the assessment raises. -/
  assessment : Option DivergenceAssessment
  preserve : Preserve
  /-- Whether the edge file can be written. -/
  saves : Bool
  updatedAt : String
  deriving DecidableEq

/-- What a poll puts on record. -/
inductive Report where
  | quiet
  | rateLimited (newArms : Finset String)
  | failed (newArms : Finset String)
  | preserved (newArms : Finset String)
  deriving DecidableEq

namespace Report

def newArms : Report → Finset String
  | .quiet => ∅
  | .rateLimited arms | .failed arms | .preserved arms => arms

def transition : Report → Option String
  | .quiet => none
  | .rateLimited _ => some "crossing_rate_limited"
  | .failed _ => some "preserve_failed"
  | .preserved _ => some "preserved"

/-- The new arms, sorted and joined. -/
def reason (r : Report) : String := "+".intercalate (r.newArms.sort (· ≤ ·))

/-- Whether `preserve_live` was called. -/
def attempts : Report → Bool
  | .quiet | .rateLimited _ => false
  | .failed _ | .preserved _ => true

end Report

namespace DivergenceMonitor
variable (config : DivergenceMonitorConfig T)

def saveEdgeArms (poll : Poll T) (arms : Finset String) (file : EdgeFile) : EdgeFile :=
  if poll.saves then .data (edgePayload arms poll.updatedAt) else file

def rateLimited (m : DivergenceMonitor T) (now : T) : Bool :=
  match m.lastPreserveAt with
  | none => false
  | some last => now - last < config.minIntervalS

/-- The arms that count as seen. -/
def recorded (m : DivergenceMonitor T) (file : EdgeFile) : Finset String :=
  m.lastArms.getD (loadEdgeArms config.repr file)

/-- The rest of a poll, with the edge file read. -/
def pollArms (m : DivergenceMonitor T) (file : EdgeFile) (poll : Poll T)
    (last arms : Finset String) : Report × DivergenceMonitor T × EdgeFile :=
  let newArms := arms \ last
  let m := { m with lastArms := some last }
  if newArms = ∅ then
    if arms ≠ last then (.quiet, { m with lastArms := some arms }, saveEdgeArms poll arms file)
    else (.quiet, m, file)
  else if m.rateLimited config poll.now then (.rateLimited newArms, m, file)
  else
    match poll.preserve with
    | .fails => (.failed newArms, m, file)
    | .interrupted => (.preserved newArms, { m with lastPreserveAt := some poll.now }, file)
    | .ok =>
      -- the memory advances even where the file cannot be written
      (.preserved newArms, { m with lastArms := some arms, lastPreserveAt := some poll.now },
        saveEdgeArms poll arms file)

def pollOnce (m : DivergenceMonitor T) (file : EdgeFile) (poll : Poll T) :
    Report × DivergenceMonitor T × EdgeFile :=
  if poll.now - m.startedAt < config.bootSettleS then (.quiet, m, file)
  else
    let last := m.recorded config file
    match poll.assessment with
    | none => (.quiet, { m with lastArms := some last }, file)
    | some assessment => m.pollArms config file poll last (activeArms assessment)

end DivergenceMonitor

structure Preservation (T : Type) where
  time : T
  arms : Finset String
  deriving DecidableEq

/-- A process of the monitor with its file, every preservation so far, and those of this process,
the latest first. -/
structure System (T : Type) where
  monitor : DivergenceMonitor T
  file : EdgeFile
  now : T
  preservations : List (Preservation T)
  here : List (Preservation T)

inductive Move (T : Type) where
  | poll (p : Poll T)
  | restart (startedAt : T)
  /-- The edge file is lost, or can no longer be read. -/
  | spoil (file : EdgeFile)

namespace System
variable (config : DivergenceMonitorConfig T)

def initial (file : EdgeFile) (startedAt : T) : System T :=
  ⟨⟨startedAt, none, none⟩, file, startedAt, [], []⟩

def recorded (s : System T) : Finset String := s.monitor.recorded config s.file

/-- What the poll puts on record. -/
def report (s : System T) (p : Poll T) : Report := (s.monitor.pollOnce config s.file p).1

/-- The preservation that a report tells of. -/
def preservation (p : Poll T) : Report → List (Preservation T)
  | .preserved arms => [⟨p.now, arms⟩]
  | _ => []

def poll (s : System T) (p : Poll T) : System T :=
  let polled := s.monitor.pollOnce config s.file p
  let new := preservation p polled.1
  ⟨polled.2.1, polled.2.2, p.now, new ++ s.preservations, new ++ s.here⟩

def restart (s : System T) (startedAt : T) : System T :=
  ⟨⟨startedAt, none, none⟩, s.file, startedAt, s.preservations, []⟩

def step (s : System T) : Move T → System T
  | .poll p => s.poll config p
  | .restart startedAt => s.restart startedAt
  | .spoil file => { s with file }

end System

/-- The clock of a process does not run back, and a spoilt file holds no data. -/
def Move.Allowed (s : System T) : Move T → Prop
  | .poll p => s.now ≤ p.now
  | .restart _ => True
  | .spoil file => file = .missing ∨ file = .unreadable

def Step (config : DivergenceMonitorConfig T) (s : System T) (move : Move T)
    (t : System T) : Prop :=
  move.Allowed s ∧ t = s.step config move

end Kaine.Divergence
