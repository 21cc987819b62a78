import Kaine.Cycle.IndividuationScheduler
import Kaine.Lifecycle.IndividuationStoreSafety
import Kaine.Lib.Transition
import Kaine.Lib.WriteBehind

/-! The account of lived time over the ticks, flushes and restarts of a scheduler. An amount is a
pair of seconds and ticks. -/
namespace Kaine.IndividuationScheduler
open Py LivedTime IndividuationStore Transition WriteBehind Relation

def secondsOf (v : Json) : ℚ :=
  match v.asPyNumber.map PyNumber.value with
  | some (.fin q) => q
  | _ => 0

def ticksOf (v : Json) : ℤ :=
  match v.asInt with
  | some n => n.value
  | none => 0

/-- The lived amounts that a file states, whether or not the rest of it loads. -/
def storedLived : LedgerFile → ℚ × ℤ
  | .json (.obj d) => (secondsOf (Dict.get d "lived_seconds"), ticksOf (Dict.get d "lived_ticks"))
  | _ => 0

def Scheduler.pending (s : Scheduler) : ℚ × ℤ := (s.pendingS, s.pendingTicks)

/-- What a step of both accumulators returns. -/
def Scheduler.delta (s : Scheduler) (clock paused : Reading ℚ) (tickIndex : Option ℤ) : ℚ × ℤ :=
  ((s.lived.step clock paused).1, (s.stepTicks tickIndex).1)

/-- A scheduler and its ledger, with the sums of all that was counted and given up. -/
structure System where
  scheduler : Scheduler
  file : LedgerFile
  counted : ℚ × ℤ
  discarded : ℚ × ℤ
  deriving DecidableEq

inductive Move where
  | tick (i : TickInput)
  /-- Before a capture or a look, and as the last act of a run. -/
  | flush (call : FlushCall)
  /-- After a capture. -/
  | reanchor (clock paused : Reading ℚ) (tickIndex : Option ℤ)
  /-- A capture, a look or a mark of an inconclusive stretch writes the ledger. -/
  | save (call : SaveCall)
  | restart (hasClock hasPausedSource : Bool)

/-- What a flush gives up: all that is pending, where there is no ledger. -/
def flushDiscards (path : String) (s : Scheduler) (file : LedgerFile) (call : FlushCall) : ℚ × ℤ :=
  match call.load path file with
  | .ok none => s.pending
  | _ => 0

namespace System
variable (path : String) (settings : SchedulerSettings)

/-- A new process beside a ledger file. -/
def start (file : LedgerFile) (hasClock hasPausedSource : Bool) : System where
  scheduler := .new hasClock hasPausedSource
  file := file
  counted := 0
  discarded := 0

def accumulate (s : System) (clock paused : Reading ℚ) (tickIndex : Option ℤ) : System :=
  { s with
    scheduler := s.scheduler.accumulate clock paused tickIndex
    counted := s.counted + s.scheduler.delta clock paused tickIndex }

def flush (s : System) (call : FlushCall) : System :=
  let flushed := flushLived path s.scheduler s.file call
  { s with
    scheduler := flushed.scheduler
    file := flushed.file
    discarded := s.discarded + flushDiscards path s.scheduler s.file call }

/-- What is pending is given up. -/
def discard (s : System) (next : Scheduler) : System :=
  { s with scheduler := next, discarded := s.discarded + s.scheduler.pending }

/-- The amounts that a tick counts: none where it raises before the accumulators step. -/
def tickCounts (s : System) (i : TickInput) : ℚ × ℤ :=
  if !s.scheduler.started && i.startRefreshFails then 0
  else s.scheduler.delta i.clock i.paused i.tickIndex

def tickDiscards (s : System) (i : TickInput) : ℚ × ℤ :=
  if !s.scheduler.started && i.startRefreshFails then 0
  else
    let stepped := (s.scheduler.begin settings i.m).accumulate i.clock i.paused i.tickIndex
    if stepped.flushDue i.m then flushDiscards path stepped s.file i.flush else 0

def tick (s : System) (i : TickInput) : System :=
  let ticked := IndividuationScheduler.tick path settings s.scheduler s.file i
  { scheduler := ticked.1
    file := ticked.2
    counted := s.counted + s.tickCounts i
    discarded := s.discarded + s.tickDiscards path settings i }

def step (s : System) : Move → System
  | .tick i => s.tick path settings i
  | .flush call => s.flush path call
  | .reanchor clock paused tickIndex =>
    (s.accumulate clock paused tickIndex).discard
      (reanchorLived s.scheduler clock paused tickIndex)
  | .save call => { s with file := (saveLedger path s.file call).file }
  | .restart hasClock hasPausedSource => s.discard (.new hasClock hasPausedSource)

/-- The account of a system. -/
def account (s : System) : Counter (ℚ × ℤ) where
  stored := storedLived s.file
  pending := s.scheduler.pending
  counted := s.counted
  discarded := s.discarded

end System

/-- The lived amounts of a ledger. -/
def ledgerLived (l : Ledger) : ℚ × ℤ := (secondsOf l.livedSeconds.toJson, l.livedTicks.value)

/-- Another writer of the ledger takes the lived amounts over from the stored one. -/
def Move.Allowed (s : System) : Move → Prop
  | .save call => ledgerLived call.new = storedLived s.file
  | _ => True

def Step (path : String) (settings : SchedulerSettings) (s : System) (move : Move) (t : System) :
    Prop :=
  move.Allowed s ∧ t = s.step path settings move

/-- No save of pending amounts in the move fails once it has replaced the file. -/
def Move.Durable : Move → Prop
  | .tick i => i.flush.writeFails ≠ some .chmod
  | .flush call => call.writeFails ≠ some .chmod
  | _ => True

/-- The move stays inside one process and one count. -/
def Move.Continues : Move → Prop
  | .restart _ _ | .reanchor _ _ _ => False
  | _ => True

variable {path : String} {settings : SchedulerSettings} {file : LedgerFile} {l : Ledger}
  {call : FlushCall} {s t : System} {p : Scheduler} {move : Move} {moves : List Move}

theorem storedLived_toDict (l : Ledger) : storedLived (.json (.obj l.toDict)) = ledgerLived l := by
  have hticks : ticksOf l.livedTicks.toJson = l.livedTicks.value := by simp [ticksOf]
  exact Prod.ext rfl hticks

theorem readCount_asInt {d : Dict} {key : String} {n : PyInt} (h : readCount d key = .ok n) :
    (Dict.get d key).asInt = some n := by
  unfold readCount at h
  split at h
  · rename_i m hm
    split at h
    · cases h
    · exact hm.trans (congrArg some (Except.ok.inj h))
  · cases h

theorem storedLived_of_load (h : loadLedger path file = .ok (some l)) :
    storedLived file = ledgerLived l := by
  unfold loadLedger at h
  split at h
  · cases h
  · cases h
  · rename_i d
    cases hd : Ledger.fromDict d with
    | error e => simp [hd, Except.map] at h
    | ok x =>
      obtain rfl : x = l := by simpa [hd, Except.map] using h
      obtain ⟨-, -, hseconds, hticks, -⟩ := fromDict_ok hd
      have hseconds := (readSeconds_isFinite hseconds).1
      have hticks := readCount_asInt hticks
      simp [storedLived, ledgerLived, secondsOf, ticksOf, hseconds, hticks]
  · cases h

theorem value_addSeconds {x : PyNumber} {q : ℚ} (h : x.value = .fin q) (seconds : ℚ) :
    (addSeconds x seconds).value = .fin (q + seconds) := by
  simp only [addSeconds, h]
  rfl

/-- Adding what is pending to a ledger that loads adds it to its lived amounts. -/
theorem lived_credit (h : loadLedger path file = .ok (some l)) (p : Scheduler) :
    ledgerLived (p.credit l) = ledgerLived l + p.pending := by
  obtain ⟨-, q, hq, -⟩ := PyNumber.toFloat_of_isFinite (load_isFinite h).2
  refine Prod.ext ?_ rfl
  have hseconds : secondsOf (addSeconds l.livedSeconds p.pendingS).toJson = q + p.pendingS := by
    simp [secondsOf, value_addSeconds hq]
  have hold : secondsOf l.livedSeconds.toJson = q := by simp [secondsOf, hq]
  simpa [ledgerLived, Scheduler.credit, Scheduler.pending, hold] using hseconds

theorem load_some (h : call.load path file = .ok (some l)) :
    loadLedger path file = .ok (some l) := by
  unfold FlushCall.load at h
  split at h
  · cases h
  · split at h
    · cases h
    · cases h
    · exact h

theorem loadLedger_none (h : loadLedger path file = .ok none) : file = .absent := by
  cases file with
  | absent => rfl
  | faulty message => cases h
  | json v =>
    cases v with
    | obj d => cases hd : Ledger.fromDict d <;> simp [loadLedger, hd, Except.map] at h
    | null | bool | int | float | str | arr => cases h

theorem load_none (h : call.load path file = .ok none) : file = .absent := by
  unfold FlushCall.load at h
  split at h
  · cases h
  · split at h
    · rfl
    · cases h
    · exact loadLedger_none h

/-- A save that raises leaves the file, unless it raised after it had replaced it. -/
theorem file_of_error {file : LedgerFile} {c : SaveCall} {e : StoreError}
    (h : (saveLedger path file c).result = .error e) (hc : c.writeFails ≠ some .chmod) :
    (saveLedger path file c).file = file := by
  unfold saveLedger at h ⊢
  cases hbefore : beforeWrite path file c with
  | error e => rfl
  | ok u =>
    simp only [hbefore] at h ⊢
    cases hfault : c.writeFails with
    | none => simp [hfault, writeEncryptedJson] at h
    | some step => cases step <;> simp_all [writeEncryptedJson]

theorem file_of_ok {file : LedgerFile} {c : SaveCall}
    (h : (saveLedger path file c).result = .ok ()) :
    (saveLedger path file c).file = .json (.obj c.new.toDict) := by
  unfold saveLedger at h ⊢
  cases hbefore : beforeWrite path file c with
  | error e => simp [hbefore] at h
  | ok u =>
    simp only [hbefore] at h ⊢
    cases hfault : c.writeFails with
    | none => rfl
    | some step => cases step <;> simp [hfault, writeEncryptedJson] at h

/-- What a flush does: it leaves everything, brings what is pending to the ledger, or finds none. -/
inductive FlushDoes (path : String) (p : Scheduler) (file : LedgerFile) (call : FlushCall) :
    Scheduler → LedgerFile → Prop where
  | keeps (h : ∀ u, call.load path file = .ok u → u ≠ none) : FlushDoes path p file call p file
  | saves {l : Ledger} (hload : call.load path file = .ok (some l)) :
      FlushDoes path p file call p.clear (.json (.obj (p.credit l).toDict))
  | finds (h : call.load path file = .ok none) : FlushDoes path p file call p.clear file

theorem flushLived_does (hdurable : call.writeFails ≠ some .chmod) (path : String) (p : Scheduler)
    (file : LedgerFile) :
    FlushDoes path p file call (flushLived path p file call).scheduler
      (flushLived path p file call).file := by
  unfold flushLived
  split
  · rename_i hload
    exact .keeps fun u hu => by simp [hload] at hu
  · rename_i e _ hload
    exact .keeps fun u hu => by simp [hload] at hu
  · rename_i hload
    exact .finds hload
  · rename_i ledger hload
    have hsome : ∀ u, call.load path file = .ok u → u ≠ none := by
      intro u hu hnone
      simp [hload, hnone] at hu
    split
    · exact .keeps hsome
    · dsimp only
      cases hresult : (saveLedger path file (call.save (p.credit ledger))).result with
      | error e =>
        have hfile := file_of_error hresult hdurable
        simp only [hfile]
        exact .keeps hsome
      | ok u =>
        have hfile := file_of_ok hresult
        simp only [hfile]
        exact .saves hload

/-- A flush takes a step of the account, or none. -/
theorem flush_steps (hdurable : call.writeFails ≠ some .chmod) (path : String) (s : System) :
    ReflTransGen WriteBehind.Step s.account (s.flush path call).account := by
  have hdoes := flushLived_does hdurable path s.scheduler s.file
  have hview : (s.flush path call).account =
      { stored := storedLived (flushLived path s.scheduler s.file call).file
        pending := (flushLived path s.scheduler s.file call).scheduler.pending
        counted := s.counted
        discarded := s.discarded + flushDiscards path s.scheduler s.file call } := rfl
  rw [hview]
  generalize (flushLived path s.scheduler s.file call).scheduler = p at hdoes ⊢
  generalize (flushLived path s.scheduler s.file call).file = file at hdoes ⊢
  cases hdoes with
  | keeps h =>
    have hnone : flushDiscards path s.scheduler s.file call = 0 := by
      unfold flushDiscards
      split
      · rename_i hload
        exact (h none hload rfl).elim
      · rfl
    rw [hnone, add_zero]
    exact .refl
  | @saves l hload =>
    have hnone : flushDiscards path s.scheduler s.file call = 0 := by
      simp [flushDiscards, hload]
    have hstored : storedLived (.json (.obj (s.scheduler.credit l).toDict)) =
        storedLived s.file + s.scheduler.pending := by
      rw [storedLived_toDict, lived_credit (load_some hload), storedLived_of_load (load_some hload)]
    rw [hnone, add_zero, hstored]
    exact .single (.persist s.account)
  | finds h =>
    have hall : flushDiscards path s.scheduler s.file call = s.scheduler.pending := by
      simp [flushDiscards, h]
    rw [hall]
    exact .single (.discard s.account)

theorem accumulate_steps (s : System) (clock paused : Reading ℚ) (tickIndex : Option ℤ) :
    WriteBehind.Step s.account (s.accumulate clock paused tickIndex).account :=
  .count s.account (s.scheduler.delta clock paused tickIndex)

theorem pending_begin (p : Scheduler) (settings : SchedulerSettings) (m : ℚ) :
    (p.begin settings m).pending = p.pending := by
  unfold Scheduler.begin
  split <;> rfl

theorem delta_begin (p : Scheduler) (settings : SchedulerSettings) (m : ℚ)
    (clock paused : Reading ℚ) (tickIndex : Option ℤ) :
    (p.begin settings m).delta clock paused tickIndex = p.delta clock paused tickIndex := by
  unfold Scheduler.begin
  split <;> rfl

/-- A tick counts what its accumulators return, and flushes where that is due. -/
theorem tick_steps {i : TickInput} (hdurable : i.flush.writeFails ≠ some .chmod) (s : System) :
    ReflTransGen WriteBehind.Step s.account (s.tick path settings i).account := by
  by_cases hraises : (!s.scheduler.started && i.startRefreshFails) = true
  · have hsame : (s.tick path settings i).account = s.account := by
      simp [System.tick, System.account, tick, System.tickCounts, System.tickDiscards, hraises,
        pending_begin]
    rw [hsame]
  · have hraises : (!s.scheduler.started && i.startRefreshFails) = false := by simpa using hraises
    let begun : System := { s with scheduler := s.scheduler.begin settings i.m }
    have hbegun : begun.account = s.account := by simp [begun, System.account, pending_begin]
    have hcount := accumulate_steps begun i.clock i.paused i.tickIndex
    rw [hbegun] at hcount
    by_cases hdue : (begun.accumulate i.clock i.paused i.tickIndex).scheduler.flushDue i.m = true
    · have hflush := flush_steps hdurable path
        (begun.accumulate i.clock i.paused i.tickIndex)
      refine .head hcount ?_
      convert hflush using 1
      simp only [System.accumulate, begun] at hdue
      simp only [System.tick, System.account, tick, System.tickCounts, System.tickDiscards, hraises,
        hdue, System.flush, System.accumulate, begun, delta_begin, Bool.false_eq_true, if_false,
        if_true]
      split <;> rfl
    · refine .single ?_
      convert hcount using 1
      simp only [System.accumulate, begun] at hdue
      simp [System.tick, System.account, tick, System.tickCounts, System.tickDiscards, hraises,
        hdue, System.accumulate, begun, delta_begin]

/-- Every move is made of steps of the account. -/
theorem move_steps (hdurable : move.Durable) (h : Step path settings s move t) :
    ReflTransGen WriteBehind.Step s.account t.account := by
  obtain ⟨hallowed, rfl⟩ := h
  cases move with
  | tick i => exact tick_steps hdurable s
  | flush call => exact flush_steps hdurable path s
  | reanchor clock paused tickIndex =>
    have hcount := accumulate_steps s clock paused tickIndex
    exact .tail (.single hcount) (.discard _)
  | save call =>
    have hsame : storedLived (saveLedger path s.file call).file = storedLived s.file := by
      rcases saveLedger_cases path s.file call with ⟨-, hfile⟩ | ⟨-, -, hfile⟩
      · rw [hfile]
      · rw [hfile, storedLived_toDict]
        exact hallowed
    simp only [System.step, System.account, hsame]
    exact .refl
  | restart hasClock hasPausedSource => exact .single (.discard s.account)

theorem flushLived_present (h : file ≠ .absent) (p : Scheduler) (call : FlushCall) :
    (flushLived path p file call).file ≠ .absent := by
  have hsave : ∀ c, (saveLedger path file c).file ≠ .absent := by
    intro c
    rcases saveLedger_cases path file c with ⟨-, hfile⟩ | ⟨-, -, hfile⟩
    · rwa [hfile]
    · simp [hfile]
  unfold flushLived
  split
  · exact h
  · exact h
  · exact h
  · split
    · exact h
    · dsimp only
      split <;> exact hsave _

theorem flushDiscards_present (h : file ≠ .absent) (p : Scheduler) (call : FlushCall) :
    flushDiscards path p file call = 0 := by
  unfold flushDiscards
  split
  · rename_i hload
    exact (h (load_none hload)).elim
  · rfl

/-- Inside one process and one count, a ledger stays and nothing is given up. -/
theorem move_present (hcontinues : move.Continues) (h : Step path settings s move t)
    (hs : s.file ≠ .absent ∧ s.discarded = 0) : t.file ≠ .absent ∧ t.discarded = 0 := by
  obtain ⟨hpresent, hnone⟩ := hs
  obtain ⟨-, rfl⟩ := h
  cases move with
  | tick i =>
    refine ⟨?_, ?_⟩
    · simp only [System.step, System.tick, tick]
      split
      · exact hpresent
      · split
        · split <;> exact flushLived_present hpresent _ _
        · exact hpresent
    · simp only [System.step, System.tick, System.tickDiscards, hnone, zero_add]
      split
      · rfl
      · split
        · exact flushDiscards_present hpresent _ _
        · rfl
  | flush call =>
    refine ⟨flushLived_present hpresent _ _, ?_⟩
    simp [System.step, System.flush, hnone, flushDiscards_present hpresent]
  | save call =>
    refine ⟨?_, hnone⟩
    rcases saveLedger_cases path s.file call with ⟨-, hfile⟩ | ⟨-, -, hfile⟩
    · simpa only [System.step, hfile] using hpresent
    · simp [System.step, hfile]
  | reanchor | restart => exact hcontinues.elim

theorem run_present (hrun : Run (Step path settings) s moves t)
    (hcontinues : ∀ move ∈ moves, move.Continues) (hs : s.file ≠ .absent ∧ s.discarded = 0) :
    t.file ≠ .absent ∧ t.discarded = 0 := by
  induction hrun with
  | refl => exact hs
  | head hstep _ ih =>
    exact ih (fun move hmove => hcontinues move (by simp [hmove]))
      (move_present (hcontinues _ (by simp)) hstep hs)

/-- However ticks, flushes, captures, other saves and restarts are ordered, where no save fails once
it has replaced the file: what is stored, pending and given up is what was stored at first and all
that was counted since; and nothing is given up inside one process and one count. -/
theorem lived_time_accounted {hasClock hasPausedSource : Bool}
    (hrun : Run (Guarded (fun _ move => move.Durable) (Step path settings))
      (System.start file hasClock hasPausedSource) moves t) :
    storedLived t.file + t.scheduler.pending + t.discarded = storedLived file + t.counted ∧
    ((∀ move ∈ moves, move.Continues) → file ≠ .absent → t.discarded = 0) := by
  constructor
  · have hsteps : ReflTransGen WriteBehind.Step
        (System.start file hasClock hasPausedSource).account t.account :=
      hrun.invariant (P := fun u =>
        ReflTransGen WriteBehind.Step (System.start file hasClock hasPausedSource).account
          u.account)
        (fun h hsteps => hsteps.trans (move_steps h.1 h.2)) .refl
    have hsurplus := steps_surplus_eq hsteps
    have hstart : (System.start file hasClock hasPausedSource).account.surplus =
        storedLived file := by
      simp [Counter.surplus, System.account, System.start, Scheduler.new, Scheduler.pending]
    rw [hstart] at hsurplus
    exact sub_eq_iff_eq_add.mp hsurplus
  · intro hcontinues hpresent
    exact (run_present (hrun.mono fun h => h.2) hcontinues ⟨hpresent, rfl⟩).2

/-- Ten seconds are stored. -/
def tenSeconds : Ledger := { referenceId := .str "ref", livedSeconds := .float (.fin 10) }

def tenSecondsFile : LedgerFile := .json (.obj tenSeconds.toDict)

/-- A tick at a time of the clock, with a tick index to match. -/
def tickAt (now : ℚ) (index : ℤ) : Move :=
  .tick { m := now, clock := .reads now, paused := .reads 0, tickIndex := some index }

def everyMinute : SchedulerSettings where
  livedPersistS := 60

/-- The run that a list of moves gives. -/
def runOf (moves : List Move) : System :=
  moves.foldl (System.step "ledger.json" everyMinute) (System.start tenSecondsFile true true)

/-- Five seconds are flushed and three more are lost with the process. -/
def crashAfterFlush : List Move :=
  [tickAt 0 0, tickAt 5 5, .flush {}, tickAt 8 8, .restart true true, tickAt 20 0]

theorem run_crashAfterFlush :
    Run (Guarded (fun _ move => move.Durable) (Step "ledger.json" everyMinute))
      (System.start tenSecondsFile true true) crashAfterFlush (runOf crashAfterFlush) := by
  refine Run.foldl crashAfterFlush _ fun s move hmove => ?_
  simp only [crashAfterFlush, List.mem_cons, List.not_mem_nil, or_false] at hmove
  rcases hmove with rfl | rfl | rfl | rfl | rfl | rfl <;>
    exact ⟨by simp [Move.Durable, tickAt], trivial, rfl⟩

theorem lived_time_accounted_crash :
    storedLived (runOf crashAfterFlush).file = (15, 5) ∧
    (runOf crashAfterFlush).discarded = (3, 3) ∧
    storedLived (runOf crashAfterFlush).file + (runOf crashAfterFlush).scheduler.pending +
        (runOf crashAfterFlush).discarded =
      storedLived tenSecondsFile + (runOf crashAfterFlush).counted := by
  exact ⟨by decide +kernel, by decide +kernel, (lived_time_accounted run_crashAfterFlush).1⟩

/-- What is stored and pending is what was stored at first and all that was counted since, in every
run of the moves that a condition admits. -/
def CountsOnce (ok : Move → Prop) : Prop :=
  ∀ path settings file hasClock hasPausedSource moves t,
    Run (Guarded (fun _ move => ok move) (Step path settings))
      (System.start file hasClock hasPausedSource) moves t →
    storedLived t.file + t.scheduler.pending = storedLived file + t.counted

/-- The pending seconds of a process that ends before it flushes are gone. -/
theorem restart_drops_pending : ¬ CountsOnce (fun _ => True) ∧ ¬ CountsOnce Move.Durable := by
  have hdropped : storedLived (runOf crashAfterFlush).file +
      (runOf crashAfterFlush).scheduler.pending ≠
        storedLived tenSecondsFile + (runOf crashAfterFlush).counted := by decide +kernel
  exact ⟨fun h => hdropped (h _ _ _ _ _ _ _ (run_crashAfterFlush.mono fun hstep =>
      ⟨trivial, hstep.2⟩)),
    fun h => hdropped (h _ _ _ _ _ _ _ run_crashAfterFlush)⟩

end Kaine.IndividuationScheduler
