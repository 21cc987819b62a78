import Kaine.EpisodicMemory.Recall

/-! The downscaling of a sleep, and how a process starts from the store that the last one left
(`kaine/modules/episodic_memory/memory.py`). -/
namespace Kaine.EpisodicMemory

/-- What becomes of a write to points of the collections, made collection by collection: it returns,
or it raises and the first of the writes to each may be done. -/
inductive Batch
  | returned
  | raised (written : Kind → ℕ)

/-- The part of the writes to a collection that is done. -/
def Batch.part {α : Type} (batch : Batch) (kind : Kind) (writes : List α) : List α :=
  match batch with
  | .returned => writes
  | .raised written => writes.take (written kind)

section
variable {B V : Type}

def Point.withLogBase (point : Point B V) (logBase : B) : Point B V :=
  { point with payload := { point.payload with logBase := some logBase } }

/-- A trace after the writes to its collection, of which those to other traces pass it by. -/
def Point.rewritten (point : Point B V) (updates : List (String × B)) : Point B V :=
  updates.foldl (fun point update => if update.1 = point.id then point.withLogBase update.2
    else point) point

/-- A trace from before trace strengths gets one. -/
def Point.filled (logBase : B) (point : Point B V) : Point B V :=
  if point.payload.logBase.isSome then point
  else
    { point with
      payload := { point.payload with logBase := some logBase, bornSleep := some (-1) } }

/-- A trace that is replayed in a sleep, and the log base with which it was read. -/
abbrev Replayed (B : Type) : Type := Kind × String × B

def Replayed.key (replayed : Replayed B) : Kind × String := (replayed.1, replayed.2.1)

/-- The traces that a downscaling protects: those of its argument, each once, as it is first
named. -/
def shielded (protect : List (Replayed B)) : List (Replayed B) :=
  protect.foldl
    (fun seen trace =>
      if trace.key ∈ seen.map Replayed.key ∨ trace.1 ∉ traceKinds then seen else seen ++ [trace])
    []

/-- The writes to one collection. -/
def updatesOf (shift : B → B) (traces : List (Replayed B)) (kind : Kind) : List (String × B) :=
  (traces.filter (·.1 = kind)).map fun trace => (trace.2.1, shift trace.2.2)

namespace Storage

/-- The points of the persisted collections, or of the association collections, in the order of a
scan. -/
def scan (s : Storage B V) (kinds : List Kind) : List (Kind × Point B V) :=
  kinds.flatMap fun kind => (s.points kind).map (kind, ·)

/-- What `scan_store` counts of these collections. -/
def bytes (s : Storage B V) (kinds : List Kind) : ℤ :=
  ((s.scan kinds).map fun item => item.2.payload.sizeBytes).sum

/-- All that the store holds, in bytes. -/
def size (s : Storage B V) : ℤ := s.bytes traceKinds + s.bytes [.links, .schemas]

/-- `wake_points`: the traces that a wake stored. -/
def wakePoints (s : Storage B V) (sleeps : ℤ) : List (Kind × Point B V) :=
  (s.scan traceKinds).filter (·.2.payload.bornSleep = some sleeps)

/-- `set_log_base`, for each collection. -/
def setLogBases (s : Storage B V) (batch : Batch) (updates : Kind → List (String × B)) :
    Storage B V :=
  { s with
    points := fun kind => (s.points kind).map (·.rewritten (batch.part kind (updates kind))) }

/-- `backfill_strength`, for each collection of traces. -/
def backfillStrength (s : Storage B V) (logBase : B) (batch : Batch) : Storage B V :=
  { s with
    points := fun kind =>
      if kind ∈ traceKinds then
        let filled := (batch.part kind (s.points kind)).map (Point.filled logBase)
        filled ++ (s.points kind).drop filled.length
      else s.points kind }

end Storage

end

variable {B V : Type} [AddCommGroup B] [LinearOrder B] [Field V] [LinearOrder V]
  (config : Config B V)

/-- What one downscaling meets: whether the reads before it return, the entity clock, what becomes
of the write of the record and of the writes to the protected traces, and whether the pruning waits
for associative replay; then the record is written again. -/
structure DownscaleCall where
  reads : Bool
  clock : ℚ
  record : Write
  points : Batch
  deferred : Bool
  again : Write

/-- What a downscaling returns. -/
inductive Downscaled (V : Type)
  | blocked (blockedSleeps : ℕ) (storeBytes : ℤ)
  | scaled (nNew : ℕ) (factor : V) (shielded : ℕ) (totalBefore totalAfter : V) (storeBytes : ℤ)

/-- What one start meets: whether the embedder loads in the space of the store, the entity clock,
what becomes of the writes, and the links and nodes that are read, none where that raises. -/
structure StartCall (B : Type) where
  ready : Bool
  clock : ℚ
  fresh : Write
  points : Batch
  filled : Write
  assoc : Option (AssociationIndex B)
  again : Write

namespace Core

/-- `_total_from_scan`; to count equal log bases together changes no sum. -/
def totalFromScan (core : Core B V) : V :=
  ((core.storage.scan traceKinds).map fun item => core.strengthOf config item.2.payload).sum

/-- The number of the traces that are new since the last sleep. -/
def countNew (core : Core B V) : ℕ := (core.storage.wakePoints core.strength.sleeps).length

/-- The log of this sleep's factor. -/
def logF (core : Core B V) : B := config.logFactor core.countNew

/-- The strength of the protected traces. -/
def shieldedStrength (core : Core B V) (traces : List (Replayed B)) : V :=
  (traces.map fun trace => core.strengthAt config trace.2.2).sum

/-- The record that is written before any trace is touched. -/
def scaledRecord (core : Core B V) (clock : ℚ) (traces : List (Replayed B)) : Meta B V where
  logGain := core.strength.logGain + core.logF config
  sleeps := core.strength.sleeps + 1
  total :=
    config.scale.exp (core.logF config) * (core.totalFromScan config - core.shieldedStrength
      config traces) + core.shieldedStrength config traces
  bytes := core.storage.size
  entityTime := core.entityOffset + clock

/-- What the process takes over from the record once it is written. -/
def adopt (core : Core B V) (record : Meta B V) : Core B V :=
  { core with
    strength :=
      { core.strength with
        logGain := record.logGain
        sleeps := record.sleeps
        total := record.total
        bytes := record.bytes
        entityTime := record.entityTime }
    wakeBytes := 0 }

/-- `downscale`, up to the pruning that follows it. -/
def downscale (core : Core B V) (call : DownscaleCall) (protect : List (Replayed B)) :
    Except Failure (Downscaled V) × Core B V :=
  if core.strength.importPending then
    let strength := { core.strength with blockedSleeps := core.strength.blockedSleeps + 1 }
    let core := { core with strength := strength }.writeMeta call.record strength
    match call.record with
    | .returned => (.ok (.blocked strength.blockedSleeps core.storeBytes), core)
    | .raised _ => (.error .storage, core)
  else if !call.reads then (.error .storage, core)
  else
    let traces := shielded protect
    let record := core.scaledRecord config call.clock traces
    let written := core.writeMeta call.record record
    match call.record with
    | .raised _ => (.error .storage, written)
    | .returned =>
      let storage := written.storage.setLogBases call.points
        (updatesOf (· - core.logF config) traces)
      let scaled := { written.adopt record with storage := storage }
      match call.points with
      | .raised _ => (.error .storage, scaled)
      | .returned =>
        let answer := .scaled core.countNew (config.scale.exp (core.logF config)) traces.length
          (core.totalFromScan config) record.total record.bytes
        if call.deferred then
          let scaled := { scaled with pendingPrune := some ⟨traces, core.strength.sleeps⟩ }
          let scaled := scaled.writeMeta call.again scaled.strength
          match call.again with
          | .returned => (.ok answer, scaled)
          | .raised _ => (.error .storage, scaled)
        else (.ok answer, { scaled with pendingPrune := none })

/-- What one round of `_prune_locked` deletes from a collection. -/
def deleteDoomed (core : Core B V) (kind : Kind) (doomed : List (String × B × ℤ))
    (deleted record : Write) : Core B V :=
  let pruned :=
    if deleted.done then
      { core with storage := core.storage.deletePoints kind (doomed.map Prod.fst) }
    else core
  match deleted with
  | .raised _ => pruned
  | .returned =>
    let lost := (doomed.map fun item => core.strengthAt config item.2.1).sum
    let strength :=
      { core.strength with
        bytes := core.strength.bytes - (doomed.map fun item => item.2.2).sum
        total := if kind ∈ traceKinds then core.strength.total - lost else core.strength.total }
    { pruned with strength := strength }.writeMeta record strength

/-- What `replay_now` reads: the traces of the wake that are picked, in the order of the picks. -/
def replayed (core : Core B V) (picks : List (Kind × String)) : List (Replayed B) :=
  picks.filterMap fun pick =>
    ((core.storage.wakePoints core.strength.sleeps).find? fun item => (item.1, item.2.id) =
      pick).bind fun item =>
      item.2.payload.logBase.map fun logBase => (item.1, item.2.id, logBase)

/-- A process that has not read anything yet. -/
def unread (storage : Storage B V) : Core B V where
  storage := storage
  strength := { logGain := 0, sleeps := 0, total := 0, bytes := 0, entityTime := 0 }

/-- The record of a store that has none. -/
def freshRecord (storage : Storage B V) : Meta B V where
  logGain := 0
  sleeps := 0
  total := ((storage.scan traceKinds).length : ℕ)
  bytes := storage.bytes traceKinds
  entityTime := 0

/-- The traces without a strength get one; the total grows with them, but not that of a record just
made. -/
def backfill (core : Core B V) (call : StartCall B) (fresh : Bool) : Bool × Core B V :=
  let changed := (core.storage.scan traceKinds).countP (·.2.payload.logBase.isNone)
  let core :=
    { core with storage := core.storage.backfillStrength (-core.strength.logGain) call.points }
  match call.points with
  | .raised _ => (false, core)
  | .returned =>
    if changed ≠ 0 ∧ fresh = false then
      let strength := { core.strength with total := core.strength.total + (changed : ℕ) }
      let core := { core with strength := strength }.writeMeta call.filled strength
      (call.filled = .returned, core)
    else (true, core)

/-- `_init_strength`. -/
def initStrength (storage : Storage B V) (call : StartCall B) : Bool × Core B V :=
  match storage.record with
  | some record => { unread storage with strength := record }.backfill call false
  | none =>
    if (storage.scan traceKinds).any (·.2.payload.logBase.isSome) then (false, unread storage)
    else
      let record := freshRecord storage
      let core := (unread storage).writeMeta call.fresh record
      match call.fresh with
      | .returned => { core with strength := record }.backfill call true
      | .raised _ => (false, core)

/-- `_resume_entity_time`. -/
def resumeEntityTime (core : Core B V) (clock : ℚ) : Core B V :=
  let wake := (core.storage.wakePoints core.strength.sleeps).map Prod.snd
  let times := wake.map (·.payload.entityTime) ++ core.shortTerm.map (·.entityTime)
  { core with
    wakeBytes := (wake.map (·.payload.sizeBytes)).sum
    wakeCount := wake.length
    entityOffset := max 0 (times.foldl max core.strength.entityTime - clock) }

/-- `math.isclose` at a relative tolerance of 1e-12. -/
def isClose (a b : V) : Bool := |a - b| ≤ max |a| |b| / ((10 ^ 12 : ℕ) : V)

/-- The sums of the record are set to what the store holds. -/
def recount (core : Core B V) (call : StartCall B) : Bool × Core B V :=
  let newBytes := core.storage.size - core.wakeBytes
  let newTotal := core.totalFromScan config - (core.wakeCount : ℕ)
  if newBytes ≠ core.strength.bytes ∨ isClose newTotal core.strength.total = false then
    let strength := { core.strength with bytes := newBytes, total := newTotal }
    (call.again = .returned, { core with strength := strength }.writeMeta call.again strength)
  else (true, core)

/-- What `initialize` does once it has the strengths. -/
def resume (read : Bool × Core B V) (call : StartCall B) : Bool × Core B V :=
  if !read.1 then (false, read.2)
  else
    let core := read.2.resumeEntityTime call.clock
    match call.assoc with
    | none => (false, core)
    | some assoc => { core with assoc := assoc }.recount config call

/-- Whether `initialize` returns, and the process that it leaves. -/
def initialized (storage : Storage B V) (call : StartCall B) : Bool × Core B V :=
  if !call.ready then (false, unread storage) else resume config (initStrength storage call) call

end Core

/-- What happens to a running process, or ends it. -/
inductive Work (B V : Type)
  | store (call : Call V) (memory : StoredMemory) (collection : Collection)
  | consolidate (calls : ℕ → Call V)
  | replay (picks : List (Kind × String))
  | downscale (call : DownscaleCall)
  | prune (kind : Kind) (doomed : List (String × B × ℤ)) (deleted record : Write)
  | crash

inductive Move (B V : Type)
  | work (work : Work B V)
  | start (call : StartCall B)

/-- The store and the process over it, whether it runs, the traces of its last replay, and two
histories: the log of the factor of each sleep by its number, and the ids that were minted. -/
structure System (B V : Type) where
  core : Core B V
  running : Bool := false
  replayed : List (Replayed B) := []
  factors : List B := []
  ids : List String

/-- The strength of a trace under a gain. -/
def strengthUnder (gain : B) (point : Point B V) : V :=
  match point.payload.logBase with
  | none => 1
  | some logBase => config.scale.exp (min 0 (logBase + gain))

namespace System
variable {config}

/-- A store before the first start, with traces from before trace strengths. -/
def Begins (s : System B V) : Prop :=
  s.running = false ∧ s.replayed = [] ∧ s.factors = [] ∧ s.core.storage.record = none ∧
    ∀ kind ∈ traceKinds, ((s.core.storage.points kind).map (·.id)).Nodup ∧
      ∀ point ∈ s.core.storage.points kind, point.payload.logBase = none ∧ point.id ∈ s.ids

variable (config)

/-- The factor of a sleep counts from when the record of it is written. -/
def perform (s : System B V) : Work B V → System B V
  | .store call memory collection =>
    { s with core := (s.core.store config call memory collection).2, ids := s.ids ++ [call.id] }
  | .consolidate calls =>
    { s with
      core := (s.core.consolidateNow config calls).2
      ids := s.ids ++ (List.range s.core.shortTerm.length).map fun i => (calls i).id }
  | .replay picks => { s with replayed := s.core.replayed picks }
  | .downscale call =>
    let counts := !s.core.strength.importPending && call.reads && call.record.done
    { s with
      core := (s.core.downscale config call s.replayed).2
      factors :=
        if counts then s.factors.take s.core.strength.sleeps.toNat ++ [s.core.logF config]
          else s.factors }
  | .prune kind doomed deleted record =>
    { s with core := s.core.deleteDoomed config kind doomed deleted record }
  | .crash => { s with running := false, replayed := [] }

def step (s : System B V) : Move B V → System B V
  | .work work => if s.running then s.perform config work else s
  | .start call =>
    let (running, core) := Core.initialized config s.core.storage call
    { s with core := core, running := running, replayed := [] }

/-- New ids are new. -/
def Mints (s : System B V) : Move B V → Prop
  | .work (.store call _ _) => call.id ∉ s.ids
  | .work (.consolidate calls) =>
    (∀ i, (calls i).id ∉ s.ids) ∧ ∀ i j, (calls i).id = (calls j).id → i = j
  | _ => True

/-- The moves as the steps of a run. -/
def Moves (s : System B V) (move : Move B V) (s' : System B V) : Prop :=
  s.Mints move ∧ s' = s.step config move

/-- The record that holds: that of the process, or where none runs the one that the next start
reads. -/
def standing (s : System B V) : Meta B V :=
  if s.running then s.core.strength
    else s.core.storage.record.getD (Core.freshRecord s.core.storage)

/-- The factors of the sleeps that the gain is made of. -/
def spent (s : System B V) : List B := s.factors.take s.standing.sleeps.toNat

def strengthOf (s : System B V) (point : Point B V) : V :=
  strengthUnder config s.standing.logGain point

end System

end Kaine.EpisodicMemory
