import Kaine.Lib.Transition
import Mathlib.Data.Int.Notation

/-! The gate that counts work in worker threads, so that an unload waits for it
(`kaine/residency/inflight.py`). -/
namespace Kaine.Inflight

/-- Where the wrapper of a job is in its executor. -/
inductive Worker where
  | notSubmitted
  | queued
  /-- Its future was cancelled while it was queued. -/
  | withdrawn
  | running
  | returned
  deriving DecidableEq

/-- Where the task that awaits `run` is. -/
inductive Awaiter where
  | notBegun
  | awaiting
  | ended
  deriving DecidableEq

/-- A ticket and the job that is run under it. -/
structure Job where
  awaiter : Awaiter := .notBegun
  worker : Worker := .notSubmitted
  started : Bool := false
  abandoned : Bool := false
  /-- The loop holds a callback to `ticket.release`. -/
  posted : Bool := false
  released : Bool := false
  /-- How often the gate was told of a release. -/
  releases : ℕ := 0
  deriving DecidableEq

/-- A call of `wait_idle`. -/
inductive Waiter where
  | waiting
  /-- Woken, and whether a ticket was admitted since. -/
  | woken (admitted : Bool)
  | returned
  deriving DecidableEq

/-- A gate that is used from one loop, with what was admitted to it and who waits. -/
structure InflightGate where
  count : ℤ := 0
  idleEvent : Bool := true
  jobs : List Job := []
  waiters : List Waiter := []
  deriving DecidableEq

/-- The steps of one job, each atomic. -/
inductive JobAction where
  /-- `run` begins, and the executor takes the job or refuses it. -/
  | submit
  | refuse
  | begin
  /-- The function returns or raises. -/
  | finish
  | deliver
  | withdraw
  /-- The awaiting task goes on, or an exception reaches it: a cancellation, or one of the job. -/
  | resolve
  | raise
  deriving DecidableEq

inductive Action where
  | admitTicket
  | job (ticket : ℕ) (action : JobAction)
  | waitIdle
  | resume (waiter : ℕ)
  deriving DecidableEq

def Waiter.wake : Waiter → Waiter
  | .waiting => .woken false
  | w => w

def Waiter.seeAdmission : Waiter → Waiter
  | .woken _ => .woken true
  | w => w

namespace InflightGate

/-- `Event.set`. -/
def setEvent (g : InflightGate) : InflightGate :=
  if g.idleEvent then g else { g with idleEvent := true, waiters := g.waiters.map Waiter.wake }

/-- `_release`. -/
def decrement (g : InflightGate) : InflightGate :=
  let g := { g with count := g.count - 1 }
  if g.count ≤ 0 then g.setEvent else g

def put (g : InflightGate) (ticket : ℕ) (job : Job) : InflightGate :=
  { g with jobs := g.jobs.set ticket job }

/-- `ticket.release`. -/
def release (g : InflightGate) (ticket : ℕ) (job : Job) : InflightGate :=
  if job.released then g.put ticket job
  else (g.put ticket { job with released := true, releases := job.releases + 1 }).decrement

/-- The handler around the awaited job, which ends `run`. -/
def handle (g : InflightGate) (ticket : ℕ) (job : Job) : InflightGate :=
  if job.started then g.put ticket { job with awaiter := .ended }
  else g.release ticket { job with awaiter := .ended, abandoned := true }

def admitTicket (g : InflightGate) : InflightGate :=
  { g with
    count := g.count + 1, idleEvent := false, jobs := g.jobs ++ [{}]
    waiters := g.waiters.map Waiter.seeAdmission }

/-- A step of one job, where it is in a state that has it. -/
def jobStep (g : InflightGate) (ticket : ℕ) (job : Job) : JobAction → Option InflightGate
  | .submit =>
    if job.awaiter = .notBegun then
      some (g.put ticket { job with awaiter := .awaiting, worker := .queued })
    else none
  | .refuse => if job.awaiter = .notBegun then some (g.handle ticket job) else none
  | .begin =>
    if job.worker = .queued then
      if job.abandoned then some (g.put ticket { job with worker := .returned })
      else some (g.put ticket { job with worker := .running, started := true })
    else none
  | .finish =>
    if job.worker = .running then
      some (g.put ticket { job with worker := .returned, posted := true })
    else none
  | .deliver => if job.posted then some (g.release ticket { job with posted := false }) else none
  | .withdraw =>
    if job.worker = .queued then some (g.put ticket { job with worker := .withdrawn }) else none
  | .resolve =>
    if job.awaiter = .awaiting ∧ job.worker = .returned
      then some (g.put ticket { job with awaiter := .ended })
    else none
  | .raise => if job.awaiter = .awaiting then some (g.handle ticket job) else none

/-- A step of the gate, where there is one. -/
def step (g : InflightGate) : Action → Option InflightGate
  | .admitTicket => some g.admitTicket
  | .job ticket action => g.jobs[ticket]?.bind fun job => g.jobStep ticket job action
  | .waitIdle =>
    some { g with waiters := g.waiters ++ [if g.idleEvent then .returned else .waiting] }
  | .resume waiter =>
    match g.waiters[waiter]? with
    | some (.woken _) => some { g with waiters := g.waiters.set waiter .returned }
    | _ => none

end InflightGate

/-- A run of any steps, in any order, from a new gate. -/
abbrev Run (g : InflightGate) (actions : List Action) (g' : InflightGate) : Prop :=
  Transition.Run (fun s a t => InflightGate.step s a = some t) g actions g'

/-- The function has returned or raised, and the loop has been told. -/
def Job.finished (job : Job) : Bool := job.started && job.worker = .returned && !job.posted

/-- The function runs, or can still start. -/
def Job.live (job : Job) : Bool :=
  job.awaiter = .notBegun || job.worker = .running || (job.worker = .queued && !job.abandoned)

end Kaine.Inflight
