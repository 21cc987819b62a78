import Kaine.Lib.Json
import Kaine.Lib.LogScale

/-! What the episodic memory module keeps: its traces, the links and schema nodes between them, and
the short-term buffer. Log strengths and vector components are in arbitrary ordered types. -/
namespace Kaine.EpisodicMemory
open Py

/-- The persisted collections. -/
inductive Kind
  | episodic
  | semantic
  | procedural
  | links
  | schemas
deriving DecidableEq

/-- `persisted_collection_names`. -/
def traceKinds : List Kind := [.episodic, .semantic, .procedural]

/-- A payload as it is stored. The keys that the module owns stand beside the others. -/
structure Payload (B : Type*) where
  logBase : Option B
  bornSleep : Option ℤ
  entityTime : ℚ
  sizeBytes : ℤ
  rest : Dict
deriving DecidableEq

structure Point (B V : Type*) where
  id : String
  vector : List V
  text : String
  payload : Payload B
  affect : Option Dict
deriving DecidableEq

/-- The trace-strength record. -/
structure Meta (B V : Type*) where
  logGain : B
  sleeps : ℤ
  total : V
  bytes : ℤ
  entityTime : ℚ
  importPending : Bool := false
  blockedSleeps : ℕ := 0
  persistRefusals : ℕ := 0
deriving DecidableEq

/-- What is on disk: the points of each collection, and the record. -/
structure Storage (B V : Type*) where
  points : Kind → List (Point B V)
  record : Option (Meta B V)

namespace Storage
variable {B V : Type*}

def setPoints (s : Storage B V) (kind : Kind) (points : List (Point B V)) : Storage B V :=
  { s with points := Function.update s.points kind points }

/-- A point replaces the one with its id, or comes last. -/
def upsert (s : Storage B V) (kind : Kind) (point : Point B V) : Storage B V :=
  if (s.points kind).any (·.id = point.id) then
    s.setPoints kind ((s.points kind).map fun old => if old.id = point.id then point else old)
  else s.setPoints kind (s.points kind ++ [point])

def deletePoints (s : Storage B V) (kind : Kind) (ids : List String) : Storage B V :=
  s.setPoints kind ((s.points kind).filter (·.id ∉ ids))

def writeMeta (s : Storage B V) (record : Meta B V) : Storage B V :=
  { s with record := some record }

end Storage

/-- An entry of the short-term buffer. -/
structure StoredMemory where
  text : String
  payload : Dict
  affect : Option Dict
  timestamp : ℚ
  entityTime : ℚ := 0
deriving DecidableEq

/-- A link between two traces, by their references. -/
structure Link (B : Type*) where
  id : String
  rawId : String
  a : String
  b : String
  logBase : B
  entityTime : ℚ
  sizeBytes : ℤ
deriving DecidableEq

/-- A schema node around a trace. -/
structure Node (B : Type*) where
  id : String
  rawId : String
  center : String
  logBase : B
  entityTime : ℚ
  sizeBytes : ℤ
deriving DecidableEq

/-- The links and nodes of the store, in the process. -/
structure AssociationIndex (B : Type*) where
  links : List (Link B) := []
  nodes : List (Node B) := []
deriving DecidableEq

/-- The traces that a downscaling protects until the pruning that it deferred. -/
structure PendingPrune (B : Type*) where
  shielded : List (Kind × String × B)
  wakeSleep : ℤ
deriving DecidableEq

/-- `EpisodicMemoryCore`: what the process keeps beside the storage. -/
structure Core (B V : Type*) where
  storage : Storage B V
  strength : Meta B V
  /-- Bytes and count of the traces persisted since the last sleep. -/
  wakeBytes : ℤ := 0
  wakeCount : ℕ := 0
  entityOffset : ℚ := 0
  shortTerm : List StoredMemory := []
  shortTermEmbeddings : List (Option (Dict × List V)) := []
  lastConsolidated : List (String × StoredMemory) := []
  assoc : AssociationIndex B := {}
  assocReady : Bool := false
  pendingPrune : Option (PendingPrune B) := none

/-- The associative-replay parameters. -/
structure AssociationParams (V : Type*) where
  nPair : ℕ := 5
  simMin : V
  simDup : V
  nSch : ℕ := 3
  nLink : ℕ := 8

structure Config (B V : Type*) [AddCommGroup B] [LinearOrder B] [Field V] [LinearOrder V] where
  shortTermCapacity : ℕ
  budgetBytes : ℤ
  pruneFloor : V
  scale : LogScale B V
  /-- The log of the factor of a sleep, from the number of traces that the wake stored. -/
  logFactor : ℕ → B
  association : AssociationParams V
  /-- `record_size` at the storage's dimension. -/
  recordSize : String → Payload B → Option Dict → ℤ
  capacity_pos : 0 < shortTermCapacity
  budget_pos : 0 < budgetBytes
  floor_pos : 0 < pruneFloor
  floor_lt : pruneFloor < 1
  logFactor_nonpos (n : ℕ) : logFactor n ≤ 0

/-- What becomes of a write: it returns, or raises before or after it is done. -/
inductive Write
  | returned
  | raised (written : Bool)
deriving DecidableEq

def Write.done : Write → Bool
  | .returned => true
  | .raised written => written

/-- What a call raises. -/
inductive Failure
  | embedder
  | storage
deriving DecidableEq

end Kaine.EpisodicMemory
