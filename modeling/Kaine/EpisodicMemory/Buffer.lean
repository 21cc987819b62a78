import Kaine.EpisodicMemory.Types

/-! The short-term buffer: what `store` takes in, and how it moves to the persistent store
(`kaine/modules/episodic_memory/memory.py`). -/
namespace Kaine.EpisodicMemory
open Py

/-- Where `store` puts a memory. -/
inductive Collection
  | shortTerm
  | persisted (kind : Kind) (h : kind ∈ traceKinds := by decide)
deriving DecidableEq

def reservedPayloadKeys : List String := ["log_base", "born_sleep", "entity_time", "size_bytes"]

/-- A payload without the keys that the module owns. -/
def unreserved (payload : Dict) : Dict := payload.filter (·.1 ∉ reservedPayloadKeys)

/-- What one persist meets: the embedder's vector, none where it raises, the new id, and what
becomes of the writes. -/
structure Call (V : Type*) where
  vector : Option (List V)
  id : String
  upsert : Write
  writeMeta : Write

variable {B V : Type*} [AddCommGroup B] [LinearOrder B] [Field V] [LinearOrder V]
  (config : Config B V)

namespace Core

/-- `store_bytes`. -/
def storeBytes (core : Core B V) : ℤ := core.strength.bytes + core.wakeBytes

/-- An interrupted import blocks sleep, and the store is over twice its budget. -/
def refuses (core : Core B V) : Bool :=
  core.strength.importPending ∧ 2 * config.budgetBytes < core.storeBytes

/-- A write of the record. -/
def writeMeta (core : Core B V) (write : Write) (record : Meta B V) : Core B V :=
  if write.done then { core with storage := core.storage.writeMeta record } else core

def stamped (core : Core B V) (memory : StoredMemory) : Payload B :=
  let payload : Payload B :=
    { logBase := some (-core.strength.logGain)
      bornSleep := some core.strength.sleeps
      entityTime := memory.entityTime
      sizeBytes := 0
      rest := unreserved memory.payload }
  { payload with sizeBytes := config.recordSize memory.text payload memory.affect }

/-- `_persist`. -/
def persist (core : Core B V) (call : Call V) (memory : StoredMemory) (kind : Kind) :
    Except Failure (Option String) × Core B V :=
  match call.vector with
  | none => (.error .embedder, core)
  | some vector =>
    if core.refuses config then
      let strength := { core.strength with persistRefusals := core.strength.persistRefusals + 1 }
      let core := { core with strength := strength }.writeMeta call.writeMeta strength
      match call.writeMeta with
      | .returned => (.ok none, core)
      | .raised _ => (.error .storage, core)
    else
      let payload := core.stamped config memory
      -- A backend keeps no affect for an empty one.
      let affect := memory.affect.filter (· ≠ [])
      let point := ⟨call.id, vector, memory.text, payload, affect⟩
      let core :=
        if call.upsert.done then { core with storage := core.storage.upsert kind point } else core
      match call.upsert with
      | .returned =>
        (.ok (some call.id), { core with wakeBytes := core.wakeBytes + payload.sizeBytes })
      | .raised _ => (.error .storage, core)

def rebuildEmbeddingsIfDesynced (core : Core B V) : Core B V :=
  if core.shortTermEmbeddings.length ≠ core.shortTerm.length then
    { core with shortTermEmbeddings := core.shortTerm.map fun _ => none }
  else core

/-- The oldest entry leaves the buffer. -/
def popLeft (core : Core B V) : Core B V :=
  { core with
    shortTerm := core.shortTerm.tail
    shortTermEmbeddings := core.shortTermEmbeddings.tail }

def append (core : Core B V) (memory : StoredMemory) : Core B V :=
  { core with
    shortTerm := core.shortTerm ++ [memory]
    shortTermEmbeddings := core.shortTermEmbeddings ++ [none] }

/-- The memory that `store` makes of its arguments. -/
def memoryOf (text : String) (payload : Option Dict) (affect : Option Dict) (ts entityNow : ℚ) :
    StoredMemory :=
  let payload := unreserved (payload.getD [])
  { text := text
    payload := if payload.has "timestamp" then payload
      else payload.set "timestamp" (.float (.fin ts))
    affect := affect
    timestamp := ts
    entityTime := entityNow }

def store (core : Core B V) (call : Call V) (memory : StoredMemory) :
    Collection → Except Failure (Option String) × Core B V
  | .shortTerm =>
    let core := core.rebuildEmbeddingsIfDesynced
    match core.shortTerm with
    | [] => (.ok none, core.append memory)
    | evicted :: _ =>
      if config.shortTermCapacity ≤ core.shortTerm.length then
        match core.popLeft.persist config call evicted .episodic with
        | (.error failure, core) => (.error failure, core)
        | (.ok _, core) => (.ok none, core.append memory)
      else (.ok none, core.append memory)
  | .persisted kind _ => core.persist config call memory kind

/-- The loop of `consolidate_now`: the number of entries that moved, those with a point, and the
rest. -/
def drain (calls : ℕ → Call V) : List StoredMemory → ℕ → List (String × StoredMemory) → Core B V →
    Except Failure ℕ × List (String × StoredMemory) × Core B V
  | [], moved, batch, core => (.ok moved, batch, core)
  | entry :: entries, moved, batch, core =>
    match core.popLeft.persist config (calls moved) entry .episodic with
    | (.error failure, core) => (.error failure, batch, core)
    | (.ok none, core) => drain calls entries (moved + 1) batch core
    | (.ok (some id), core) => drain calls entries (moved + 1) (batch ++ [(id, entry)]) core

def consolidateNow (core : Core B V) (calls : ℕ → Call V) : Except Failure ℕ × Core B V :=
  let core := core.rebuildEmbeddingsIfDesynced
  let (answer, batch, core) := core.drain config calls core.shortTerm 0 []
  (answer, { core with lastConsolidated := batch })

end Core

end Kaine.EpisodicMemory
