import Kaine.Lifecycle.IndividuationStore
import Kaine.Lifecycle.LivedTime

/-! How the scheduler of individuation counts lived time and brings it to the look ledger
(`kaine/cycle/individuation_scheduler.py`). Seconds are added in exact arithmetic. -/
namespace Kaine.IndividuationScheduler
open Py LivedTime IndividuationStore

/-- Accumulate lived ticks anchored per boot. -/
structure TickAccumulator where
  baseline : Option ℤ := none
  deriving DecidableEq

/-- The lived tick delta since the previous step. -/
def TickAccumulator.step (a : TickAccumulator) (tickIndex : ℤ) : ℤ × TickAccumulator :=
  if tickIndex < 0 then (0, a)
  else
    match a.baseline with
    | none => (0, ⟨some tickIndex⟩)
    | some baseline =>
      if tickIndex < baseline then (0, ⟨some tickIndex⟩)
      else (tickIndex - baseline, ⟨some tickIndex⟩)

structure SchedulerSettings where
  livedPersistS : ℚ

/-- The fields by which a scheduler counts lived time. -/
structure Scheduler where
  lived : LivedTimeAccumulator ℚ
  ticks : TickAccumulator := {}
  pendingS : ℚ := 0
  pendingTicks : ℤ := 0
  nextFlushAt : Option ℚ := none
  started : Bool := false
  deriving DecidableEq

/-- A scheduler of a new process, with its two sources wired or not. -/
def Scheduler.new (hasClock hasPausedSource : Bool) : Scheduler where
  lived := ⟨hasClock, hasPausedSource, none, none⟩

def Scheduler.clear (s : Scheduler) : Scheduler := { s with pendingS := 0, pendingTicks := 0 }

/-- What fails around a flush: its own load, the save, and the view that is refreshed after it. -/
structure FlushCall where
  loadExistsFails : Bool := false
  loadReadFails : Option String := none
  saveExistsFails : Bool := false
  saveReadFails : Option String := none
  writeFails : Option WriteStep := none
  refreshFails : Bool := false

def FlushCall.save (call : FlushCall) (new : Ledger) : SaveCall where
  new := new
  existsFails := call.saveExistsFails
  readFails := call.saveReadFails
  writeFails := call.writeFails

/-- `load_ledger`, with what fails around it. -/
def FlushCall.load (call : FlushCall) (path : String) (file : LedgerFile) :
    Except StoreError (Option Ledger) :=
  if call.loadExistsFails then .error (.python .osError)
  else
    match file, call.loadReadFails with
    | .absent, _ => .ok none
    | _, some message => .error (.unreadable message)
    | file, none => loadLedger path file

/-- A stored number plus a finite float. -/
def addSeconds (x : PyNumber) (seconds : ℚ) : PyNumber :=
  match x.value with
  | .fin q => .float (.fin (q + seconds))
  | y => .float y

/-- The ledger with the pending amounts added. -/
def Scheduler.credit (s : Scheduler) (ledger : Ledger) : Ledger :=
  { ledger with
    livedSeconds := addSeconds ledger.livedSeconds s.pendingS
    livedTicks := .int (ledger.livedTicks.value + s.pendingTicks) }

/-- How a flush ends: the scheduler and the file, and what it raised. -/
structure Flushed where
  scheduler : Scheduler
  file : LedgerFile
  raised : Option StoreError

/-- An error of the store is logged and kept from the caller; any other is raised. -/
def escaping : StoreError → Option StoreError
  | .python e => some (.python e)
  | _ => none

def flushLived (path : String) (s : Scheduler) (file : LedgerFile) (call : FlushCall) : Flushed :=
  match call.load path file with
  | .error (.unreadable _) => ⟨s, file, none⟩
  | .error e => ⟨s, file, some e⟩
  | .ok none => ⟨s.clear, file, none⟩
  | .ok (some ledger) =>
    if s.pendingS = 0 ∧ s.pendingTicks = 0 then ⟨s, file, none⟩
    else
      let saved := saveLedger path file (call.save (s.credit ledger))
      match saved.result with
      | .error e => ⟨s, saved.file, escaping e⟩
      | .ok () =>
        ⟨s.clear, saved.file, if call.refreshFails then some (.python .osError) else none⟩

/-- What a tick reads, and what fails in it. A tick index that is none is no int. -/
structure TickInput where
  m : ℚ
  clock : Reading ℚ
  paused : Reading ℚ
  tickIndex : Option ℤ
  startRefreshFails : Bool := false
  flush : FlushCall := {}

/-- The ticks since the last step, where the index is an int. -/
def Scheduler.stepTicks (s : Scheduler) : Option ℤ → ℤ × TickAccumulator
  | none => (0, s.ticks)
  | some idx => s.ticks.step idx

/-- Both accumulators take a step, and what they return is pending. -/
def Scheduler.accumulate (s : Scheduler) (clock paused : Reading ℚ) (tickIndex : Option ℤ) :
    Scheduler :=
  let lived := s.lived.step clock paused
  let ticks := s.stepTicks tickIndex
  { s with
    lived := lived.2
    ticks := ticks.2
    pendingS := s.pendingS + lived.1
    pendingTicks := s.pendingTicks + ticks.1 }

/-- The first tick of a process sets when to flush. -/
def Scheduler.begin (s : Scheduler) (settings : SchedulerSettings) (m : ℚ) : Scheduler :=
  if s.started then s
  else { s with started := true, nextFlushAt := some (m + settings.livedPersistS) }

def Scheduler.flushDue (s : Scheduler) (m : ℚ) : Bool :=
  match s.nextFlushAt with
  | none => false
  | some due => decide (due ≤ m)

/-- A tick as far as the schedule of looks. Where something raises, the rest of it is left out. -/
def tick (path : String) (settings : SchedulerSettings) (s : Scheduler) (file : LedgerFile)
    (i : TickInput) : Scheduler × LedgerFile :=
  let begun := s.begin settings i.m
  if !s.started && i.startRefreshFails then (begun, file)
  else
    let stepped := begun.accumulate i.clock i.paused i.tickIndex
    if stepped.flushDue i.m then
      let flushed := flushLived path stepped file i.flush
      match flushed.raised with
      | some _ => (flushed.scheduler, flushed.file)
      | none =>
        ({ flushed.scheduler with nextFlushAt := some (i.m + settings.livedPersistS) },
          flushed.file)
    else (stepped, file)

/-- The accumulators take a step that does not count, and nothing is pending after it. -/
def reanchorLived (s : Scheduler) (clock paused : Reading ℚ) (tickIndex : Option ℤ) : Scheduler :=
  (s.accumulate clock paused tickIndex).clear

end Kaine.IndividuationScheduler
