import Kaine.Lib.Transition
import Kaine.Persistence.JsonlSink

/-! A sink with its background task: what is offered, drained, appended and lost over a run
(`kaine/persistence/jsonl_sink.py`). -/
namespace Kaine.JsonlSink
open Py

inductive Worker where
  | idle
  | running
  | ended
  deriving DecidableEq

/-- A batch that a thread appends to the file of a day. -/
structure Drain where
  date : String
  batch : List Dict

/-- A sink, its task and its files; the batches that were logged as failed, and the threads that
were left behind. -/
structure Process where
  sink : Sink
  date : Option String
  worker : Worker
  stopped : Bool
  draining : Option Drain
  orphans : List Drain
  appended : List (String × Dict)
  failed : List (List Dict)

/-- What happens; a thread ends with all of its lines appended, or raises behind so many of them. -/
inductive Step where
  | start
  | offer (runId : String) (suspended : Bool) (now : String) (entry : Dict)
  | drain (today : String) (sweepRaises : Bool)
  | appendEnds (fails : Option ℕ)
  | taskEnds
  | stop
  | stopTimesOut
  | flush (today : String) (sweepRaises : Bool)
  | orphanEnds (i : ℕ) (fails : Option ℕ)

/-- `_target_path`: the day of the file, none where the sweep of old files raises. -/
def targetDate (current : Option String) (today : String) (sweepRaises : Bool) : Option String :=
  if current = some today then some today
  else if current.isSome && sweepRaises then none
  else some today

namespace Process

def new (queueMaxsize : ℕ) (studyRecord : Bool) : Process :=
  ⟨.new queueMaxsize studyRecord, none, .idle, false, none, [], [], []⟩

/-- `_drain_once` up to its thread: the queue is emptied first, and false where no path is found for
it. -/
def beginDrain (today : String) (sweepRaises : Bool) (p : Process) : Process × Bool :=
  if p.sink.queue = [] then (p, true)
  else
    let batch := p.sink.queue
    let sink := { p.sink with queue := [] }
    match targetDate p.date today sweepRaises with
    | none => ({ p with sink := sink }, false)
    | some date =>
      ({ p with sink := sink, date := some date, draining := some ⟨date, batch⟩ }, true)

/-- `_encode_and_append`, as far as it comes. -/
def appendBatch (p : Process) (drain : Drain) (fails : Option ℕ) : Process :=
  let lines := match fails with
    | none => drain.batch
    | some k => drain.batch.take k
  { p with appended := p.appended ++ lines.map fun record => (drain.date, record) }

/-- `_drain_once` from its thread on. -/
def endDrain (p : Process) (drain : Drain) (fails : Option ℕ) : Process :=
  let p := { p.appendBatch drain fails with draining := none }
  match fails with
  | none => { p with sink := { p.sink with wroteCount := p.sink.wroteCount + drain.batch.length } }
  | some _ => { p with failed := p.failed ++ [drain.batch] }

/-- The process after a step, none where the step cannot be taken. -/
def step (p : Process) : Step → Option Process
  | .start =>
    if p.worker ≠ .idle then some p
    -- A flush belongs to a stop, which is awaited.
    else if p.draining.isNone then some { p with worker := .running, stopped := false }
    else none
  | .offer runId suspended now entry =>
    some { p with sink := p.sink.enqueue (some runId) suspended now entry }
  | .drain today sweepRaises =>
    if p.worker = .running ∧ p.draining.isNone then
      let begun := p.beginDrain today sweepRaises
      -- A path that is not found ends the task, and the batch is gone.
      some (if begun.2 then begun.1 else { begun.1 with worker := .ended })
    else none
  | .appendEnds fails => p.draining.map fun drain => p.endDrain drain fails
  | .taskEnds =>
    if p.worker = .running ∧ p.stopped ∧ p.draining.isNone then some { p with worker := .ended }
      else none
  | .stop => some { p with stopped := true }
  | .stopTimesOut =>
    -- The await is cancelled, the thread is not.
    if p.worker = .running ∧ p.stopped then
      some { p with worker := .idle, orphans := p.orphans ++ p.draining.toList, draining := none }
    else none
  | .flush today sweepRaises =>
    if p.worker ≠ .running ∧ p.stopped ∧ p.draining.isNone then
      some { (p.beginDrain today sweepRaises).1 with worker := .idle }
    else none
  | .orphanEnds i fails =>
    p.orphans[i]?.map fun drain =>
      { p.appendBatch drain fails with orphans := p.orphans.eraseIdx i }

end Process

/-- A write, and the entries that were admitted for it. -/
structure Offer where
  runId : String
  suspended : Bool
  now : String
  entry : Dict
  admitted : List Dict

/-- A process and the writes that were made to it. -/
structure Tracked where
  process : Process
  offers : List Offer

namespace Tracked

def new (queueMaxsize : ℕ) (studyRecord : Bool) : Tracked := ⟨.new queueMaxsize studyRecord, []⟩

/-- The writes after a step. -/
def note (t : Tracked) : Step → List Offer
  | .offer runId suspended now entry =>
    t.offers ++ [⟨runId, suspended, now, entry, (t.process.sink.admitEntry suspended now entry).2⟩]
  | _ => t.offers

def next (t : Tracked) (a : Step) : Option Tracked :=
  (t.process.step a).map fun process => ⟨process, t.note a⟩

def Next (t : Tracked) (a : Step) (t' : Tracked) : Prop := t.next a = some t'

end Tracked

end Kaine.JsonlSink
