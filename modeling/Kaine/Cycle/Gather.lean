import Kaine.Bus.Client
import Kaine.Lib.SortBy

/-! How one tick reads the module streams and orders the candidates of selection
(`CognitiveCycle.tick` in `kaine/cycle/engine.py`, `kaine/modules/registry.py`). The cycle as a
consumer of the module streams over many ticks (`CognitiveCycle.tick` in `kaine/cycle/engine.py`,
`tail_id` in `kaine/bus/client.py`). -/
namespace Kaine.Tick
open Py Bus

/-- The streams of the registered modules, in registration order. -/
def activeStreams (modules : List String) : Except PyError (List String) :=
  modules.mapM moduleStream

/-- The bus as one tick finds it. -/
structure Reader where
  xread : String → String → List StreamEntry
  /-- Whether the bus has the consolidated read, and whether it raises. -/
  hasBlock : Bool
  blockRaises : Bool
  /-- The streams whose own read raises. -/
  readRaises : String → Bool

/-- The cursor of each stream; a stream that was never read has none. -/
abbrev Cursors := String → Option String

/-- A first consume starts at the tail or at the beginning, as the seed says. -/
def seedCursor (seed : String → String) (cursors : Cursors) (stream : String) : Cursors :=
  match cursors stream with
  | some _ => cursors
  | none => Function.update cursors stream (some (seed stream))

def seedCursors (seed : String → String) (streams : List String) (cursors : Cursors) : Cursors :=
  streams.foldl (seedCursor seed) cursors

def cursorOf (cursors : Cursors) (stream : String) : String := (cursors stream).getD "0"

def safeRead (reader : Reader) (cursors : Cursors) (stream : String) : ReadResult :=
  if reader.readRaises stream then ([], none)
  else (readEntries reader.xread stream (cursorOf cursors stream)).toOption.getD ([], none)

def readBlock (reader : Reader) (cursors : Cursors) (streams : List String) :
    Except PyError (List (String × List (EntryId × Event)) × List (String × Option EntryId)) :=
  if reader.blockRaises then .error .osError
  else readEntriesBlock reader.xread (streams.map fun stream => (stream, cursorOf cursors stream))

/-- The consolidated read; on any failure, one read for each stream. -/
def safeReadBlock (reader : Reader) (cursors : Cursors) (streams : List String) :
    List ReadResult :=
  match readBlock reader cursors streams with
  | .error _ => streams.map (safeRead reader cursors)
  | .ok (entriesByStream, lastByStream) =>
    streams.map fun stream =>
      ((entriesByStream.lookup stream).getD [], (lastByStream.lookup stream).getD none)

def readAll (reader : Reader) (cursors : Cursors) (streams : List String) : List ReadResult :=
  if reader.hasBlock then safeReadBlock reader cursors streams
  else streams.map (safeRead reader cursors)

/-- A gathered entry: its stream, the text of its id and the event. -/
abbrev Gathered := String × String × Event

/-- The canonical order within a tick. -/
def sortKey (item : Gathered) : String ×ₗ String ×ₗ IdSortKey ×ₗ String :=
  toLex (item.2.2.source, toLex (item.2.2.type, toLex (entryIdSortKey item.2.1, item.1)))

def gathered (streams : List String) (results : List ReadResult) : List Gathered :=
  (streams.zip results).flatMap fun r => r.2.1.map fun entry => (r.1, entry.1.render, entry.2)

/-- What a tick gathers, and the cursors it advances to the last entries scanned. -/
structure Gather where
  events : List (String × Event)
  modulesSeen : ℕ
  cursors : Cursors

def gather (reader : Reader) (seed : String → String) (cursors : Cursors) (streams : List String) :
    Gather :=
  let cursors := seedCursors seed streams cursors
  let results := readAll reader cursors streams
  let sorted := SortBy.sortBy sortKey (gathered streams results)
  { events := sorted.map fun item => (streamEntryKey item.1 item.2.1, item.2.2)
    modulesSeen := (results.filter fun r => !r.1.isEmpty).length
    cursors := (streams.zip results).foldl (fun cs r =>
      match r.2.2 with
      | some last => Function.update cs r.1 (some last.render)
      | none => cs) cursors }

/-- The id that Redis reads from the text of a cursor; a bare time is its first id. -/
def cursorId (text : String) : EntryId :=
  match text.toList.span (· ≠ '-') with
  | (ms, _ :: seq) => ⟨Nat.ofDigitChars 10 ms 0, Nat.ofDigitChars 10 seq 0⟩
  | (ms, []) => ⟨Nat.ofDigitChars 10 ms 0, 0⟩

/-- What one tick meets: which lookups and reads fail, and how much a read asks for. -/
structure TickInput where
  readCount : ℕ
  seedToTail : Bool
  lookupFails : String → Bool
  hasBlock : Bool
  blockRaises : Bool
  readRaises : String → Bool

/-- The streams with the cursors of the cycle, the batches that its ticks gathered, and for each
stream the cursor that its first consume was seeded with. -/
structure Consumer where
  history : String → Stream
  cursors : Cursors
  seeds : Cursors
  batches : List (List Gathered)

namespace Consumer

/-- The seed of a first consume; a failed lookup gives the beginning too. -/
def seedOf (s : Consumer) (input : TickInput) (stream : String) : String :=
  if input.seedToTail then
    if input.lookupFails stream then "0-0" else (s.history stream).lastEntryId.render
  else "0"

def reader (s : Consumer) (input : TickInput) : Reader where
  xread stream cursor := (s.history stream).xread (cursorId cursor) input.readCount
  hasBlock := input.hasBlock
  blockRaises := input.blockRaises
  readRaises := input.readRaises

/-- The part of a tick before its reads. -/
def seed (s : Consumer) (input : TickInput) (streams : List String) : Consumer :=
  { s with
    cursors := seedCursors (s.seedOf input) streams s.cursors
    seeds := seedCursors (s.seedOf input) streams s.seeds }

/-- The batch that a tick gathers, in the order of its reads. -/
def batch (s : Consumer) (input : TickInput) (streams : List String) : List Gathered :=
  gathered streams (readAll (s.reader input) (s.seed input streams).cursors streams)

def gather (s : Consumer) (input : TickInput) (streams : List String) : Gather :=
  Tick.gather (s.reader input) (s.seedOf input) s.cursors streams

def tick (s : Consumer) (input : TickInput) (streams : List String) : Consumer :=
  { s.seed input streams with
    cursors := (s.gather input streams).cursors
    batches := s.batches ++ [s.batch input streams] }

/-- `XADD`, which refuses an id that is not beyond the tail. -/
def publish (s : Consumer) (stream : String) (entry : StreamEntry) : Consumer :=
  if h : (s.history stream).lastEntryId < entry.id then
    { s with history := Function.update s.history stream ((s.history stream).append entry h) }
  else s

end Consumer

/-- What happens to the consumer. Entries may come between the seed of a tick and its reads, which
is a seed on its own before the tick. -/
inductive Move where
  | publish (stream : String) (entry : StreamEntry)
  | seed (input : TickInput) (modules : List String)
  | tick (input : TickInput) (modules : List String)

/-- A registry holds each module name once; one that names no stream fails the tick. -/
inductive Step : Consumer → Move → Consumer → Prop where
  | publish (s : Consumer) (stream : String) (entry : StreamEntry) :
      Step s (.publish stream entry) (s.publish stream entry)
  | seed (s : Consumer) (input : TickInput) {modules streams : List String} (hn : modules.Nodup)
      (hs : activeStreams modules = .ok streams) :
      Step s (.seed input modules) (s.seed input streams)
  | tick (s : Consumer) (input : TickInput) {modules streams : List String} (hn : modules.Nodup)
      (hs : activeStreams modules = .ok streams) :
      Step s (.tick input modules) (s.tick input streams)
  | refused (s : Consumer) (input : TickInput) {modules : List String} {e : PyError}
      (hs : activeStreams modules = .error e) : Step s (.tick input modules) s

/-- A cycle that has read nothing yet, over streams with any history. -/
def Consumer.initial (history : String → Stream) : Consumer :=
  ⟨history, fun _ => none, fun _ => none, []⟩

/-- What one stream contributed to the gathered batches so far. -/
def Consumer.contributed (s : Consumer) (stream : String) : List Gathered :=
  s.batches.flatMap fun batch => batch.filter fun item => item.1 = stream

end Kaine.Tick
