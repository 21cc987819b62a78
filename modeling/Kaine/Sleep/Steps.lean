import Kaine.Sleep.Module

/-! What one move of a sleep's coroutine can do. -/
namespace Kaine.Sleep
open Py

variable {config : Config} {s s' t : Sleep} {i : ℕ} {task : Task} {exn : Exn} {pc : Pc}
  {outcome : Outcome} {new : List Event} {pc' : Pc}

/-- Between the lock's acquisition and its release. -/
def Pc.inPipeline : Pc → Bool
  | .scheduled | .answerPublish _ _ | .done => false
  | _ => true

/-- A coroutine whose `finally` is still to clear the pending flag. -/
def Task.owes (task : Task) : Bool := task.site ≠ .direct ∧ task.pc ≠ .done

/-- A move inside the pipeline: the coroutine is at another await, and what is outside stays. -/
structure Within (s s' : Sleep) (i : ℕ) (task : Task) (pc : Pc) (new : List Event) : Prop where
  tasks : s'.tasks = s.tasks.set i { task with pc := pc }
  log : s'.log = s.log ++ new
  sleepLock : s'.sleepLock = s.sleepLock
  sleepPending : s'.sleepPending = s.sleepPending
  sleepCount : s'.sleepCount = s.sleepCount
  preSleepLocus : s'.preSleepLocus = s.preSleepLocus
  desired : s'.desired = s.desired
  shieldedPublishes : s'.shieldedPublishes = s.shieldedPublishes
  welfareRestHeld : s'.welfareRestHeld = s.welfareRestHeld
  handled : s'.handled = s.handled
  driveScales : s'.driveScales = s.driveScales ∨
    s'.driveScales = s.driveScales.map (Option.map fun _ => 1 / 2)
  accepts : (∀ pending, pc ≠ .acceptedPublish pending) ∧ s'.pendingRest = s.pendingRest ∧
      s'.requestedRestAccepted = s.requestedRestAccepted ∨
    ∃ pending, pc = .acceptedPublish pending ∧ s.pendingRest = some pending ∧
      s'.pendingRest = none ∧ s'.requestedRestAccepted = true

/-- What the stream has of a publish that ended so. -/
def said (outcome : Outcome) (event : Event) : List Event := if outcome.written then [event] else []

theorem Within.after_written {event : Event}
    (h : Within (s.written outcome event) s' i task pc new) :
    Within s s' i task pc (said outcome event ++ new) := by
  unfold said
  cases hw : outcome.written with
  | false =>
    simp only [written, hw, Bool.false_eq_true, if_false] at h
    exact h
  | true =>
    simp only [written, hw, if_true] at h
    obtain ⟨htasks, hlog, hlock, hpending, hcount, hpre, hdesired, hshielded, hheld,
      hhandled, hscales, haccepts⟩ := h
    refine ⟨htasks, ?_, hlock, hpending, hcount, hpre, hdesired, hshielded, hheld,
      hhandled, hscales, haccepts⟩
    rw [hlog]
    simp [publish]

theorem within_abort (s : Sleep) (i : ℕ) (task : Task) (exn : Exn) : ∃ resumable,
    Within s (s.abort i task exn) i task (.abortPublish exn resumable) [] := by
  unfold abort
  split
  · exact ⟨_, rfl, by simp [setTask], rfl, rfl, rfl, rfl, rfl, rfl, rfl, rfl, .inl rfl,
    .inl ⟨by simp, rfl, rfl⟩⟩
  · exact ⟨false, rfl, by simp [setTask], rfl, rfl, rfl, rfl, rfl, rfl, rfl, rfl, .inl rfl,
    .inl ⟨by simp, rfl, rfl⟩⟩

theorem within_runFinalAffectiveReset (s : Sleep) (i : ℕ) (task : Task) (exn : Option Exn) :
    Within s (s.runFinalAffectiveReset i task exn) i task (.reset exn) [.reset s.sleepCount] :=
  ⟨rfl, rfl, rfl, rfl, rfl, rfl, rfl, rfl, rfl, rfl, .inl rfl, .inl ⟨by simp, rfl, rfl⟩⟩

theorem within_abort_written (s : Sleep) (i : ℕ) (task : Task) (exn : Exn) (outcome : Outcome)
    (event : Event) : ∃ resumable,
    Within s ((s.written outcome event).abort i task exn) i task (.abortPublish exn resumable)
      (said outcome event) := by
  obtain ⟨resumable, hwithin⟩ := within_abort (s.written outcome event) i task exn
  have hwritten := hwithin.after_written
  rw [List.append_nil] at hwritten
  exact ⟨resumable, hwritten⟩

/-- The awaits that the body of the pipeline goes on to, with what is logged on the way; a sleep
holds only where it is `held`, and ends as cancelled only where it is `cut`. -/
def Onward (n : ℕ) (held cut : Prop) (pc : Pc) (new : List Event) : Prop :=
  new = [] ∧ (pc = .holding ∧ held ∨ pc = .housekeeping ∨ ∃ phase, pc = .phase phase) ∨
    new = [.reset n] ∧ ∃ exn, pc = .reset exn ∧ (exn = some .cancelled → cut)

theorem onward_reset {n : ℕ} {held cut : Prop} {exn : Option Exn}
    (h : exn = some .cancelled → cut) : Onward n held cut (.reset exn) [.reset n] :=
  .inr ⟨rfl, exn, rfl, h⟩

theorem Onward.mono {n : ℕ} {held held' cut cut' : Prop} (h : Onward n held cut pc new)
    (hheld : held → held') (hcut : cut → cut') : Onward n held' cut' pc new := by
  rcases h with ⟨hnew, ⟨hpc, hh⟩ | hpc | hpc⟩ | ⟨hnew, exn, hpc, hdue⟩
  · exact .inl ⟨hnew, .inl ⟨hpc, hheld hh⟩⟩
  · exact .inl ⟨hnew, .inr (.inl hpc)⟩
  · exact .inl ⟨hnew, .inr (.inr hpc)⟩
  · exact .inr ⟨hnew, exn, hpc, fun hexn => hcut (hdue hexn)⟩

theorem within_runHousekeeping (config : Config) (s : Sleep) (i : ℕ) (task : Task) :
    ∃ pc new, Within s (runHousekeeping config s i task) i task pc new ∧
      Onward s.sleepCount False False pc new := by
  unfold runHousekeeping
  split
  · exact ⟨.housekeeping, [], ⟨rfl, by simp [setTask], rfl, rfl, rfl, rfl, rfl, rfl, rfl,
      rfl, .inl rfl,
    .inl ⟨by simp, rfl, rfl⟩⟩,
      .inl ⟨rfl, by simp⟩⟩
  · exact ⟨_, _, within_runFinalAffectiveReset s i task _, onward_reset (by simp)⟩

theorem within_holdDevelopmentalRest (config : Config) (s : Sleep) (i : ℕ) (task : Task) :
    ∃ pc new, Within s (holdDevelopmentalRest config s i task) i task pc new ∧
      Onward s.sleepCount True (s.stopped = true) pc new := by
  unfold holdDevelopmentalRest
  split_ifs with hstopped
  · exact ⟨_, _, within_runFinalAffectiveReset s i task _, onward_reset fun _ => hstopped⟩
  · obtain ⟨pc, new, hwithin, honward⟩ := within_runHousekeeping config
      { s with cycle := s.cycle.reset s.now } i task
    obtain ⟨htasks, hlog, hlock, hpending, hcount, hpre, hdesired, hshielded, hheld,
      hhandled, hscales, haccepts⟩ := hwithin
    exact ⟨pc, new, ⟨htasks, hlog, hlock, hpending, hcount, hpre, hdesired, hshielded,
      hheld, hhandled, hscales, haccepts⟩, honward.mono False.elim False.elim⟩
  · exact ⟨.holding, [], ⟨rfl, by simp [setTask], rfl, rfl, rfl, rfl, rfl, rfl, rfl, rfl, .inl rfl,
    .inl ⟨by simp, rfl, rfl⟩⟩,
      .inl ⟨rfl, by simp⟩⟩

theorem within_lightConsolidation (s : Sleep) (i : ℕ) (task : Task) :
    Within s (s.lightConsolidation i task) i task (.phase .lightConsolidation) [] :=
  ⟨rfl, by simp [lightConsolidation, setTask], rfl, rfl, rfl, rfl, rfl, rfl, rfl, rfl, .inr rfl,
    .inl ⟨by simp, rfl, rfl⟩⟩

theorem within_afterPhase (config : Config) (s : Sleep) (i : ℕ) (task : Task) (phase : Phase) :
    ∃ pc new, Within s (afterPhase config s i task phase) i task pc new ∧
      Onward s.sleepCount (s.holds task = true) (s.stopped = true ∧
        s.holds task = true) pc new := by
  unfold afterPhase
  split
  · exact ⟨_, [], ⟨rfl, by simp [setTask], rfl, rfl, rfl, rfl, rfl, rfl, rfl, rfl, .inl rfl,
    .inl ⟨by simp, rfl, rfl⟩⟩,
      .inl ⟨rfl, by simp⟩⟩
  · split
    · rename_i hholds
      obtain ⟨pc, new, hwithin, honward⟩ := within_holdDevelopmentalRest config s i task
      exact ⟨pc, new, hwithin, honward.mono (fun _ => hholds) fun hstopped => ⟨hstopped, hholds⟩⟩
    · obtain ⟨pc, new, hwithin, honward⟩ := within_runHousekeeping config s i task
      exact ⟨pc, new, hwithin, honward.mono False.elim False.elim⟩

/-- A request's triggers are those of the coroutines that answer one. -/
theorem request_of_trigger {site : Site}
    (h : site.trigger = some .requested ∨ site.trigger = some .welfareRest) :
    site.request? ≠ none := by
  cases site <;> simp_all [Site.trigger, Site.request?]

/-- The start of a sleep that answers a noted request goes on to accept it. -/
def Accepts (s : Sleep) (task : Task) (pc : Pc) : Prop :=
  (pc = .phase .lightConsolidation ∧ (task.site.request? = none ∨ s.pendingRest = none)) ∨
    ∃ pending, pc = .acceptedPublish pending ∧ s.pendingRest = some pending ∧
      (task.site.trigger = some .requested ∨ task.site.trigger = some .welfareRest)

theorem within_afterStarted (s : Sleep) (i : ℕ) (task : Task) :
    ∃ pc, Within s (s.afterStarted i task) i task pc [] ∧ Accepts s task pc := by
  unfold afterStarted
  split
  · split
    · rename_i htrigger _ pending hpending
      exact ⟨_, ⟨rfl, by simp [setTask], rfl, rfl, rfl, rfl, rfl, rfl, rfl, rfl, .inl rfl,
        .inr ⟨pending, rfl, hpending, rfl, rfl⟩⟩, .inr ⟨_, rfl, hpending, htrigger⟩⟩
    · rename_i hpending
      exact ⟨_, within_lightConsolidation s i task, .inl ⟨rfl, .inr hpending⟩⟩
  · rename_i htrigger
    have hrequest : task.site.request? = none := by
      cases hsite : task.site <;> simp_all [Site.trigger, Site.request?]
    exact ⟨_, within_lightConsolidation s i task, .inl ⟨rfl, .inl hrequest⟩⟩

theorem within_completeSleep (s : Sleep) (i : ℕ) (task : Task) :
    Within s (s.completeSleep i task) i task .completedPublish [] := by
  unfold completeSleep
  split
  · exact ⟨rfl, by simp [setTask], rfl, rfl, rfl, rfl, rfl, rfl, rfl, rfl, .inl rfl,
    .inl ⟨by simp, rfl, rfl⟩⟩
  · exact ⟨rfl, by simp [setTask], rfl, rfl, rfl, rfl, rfl, rfl, rfl, rfl, .inl rfl,
    .inl ⟨by simp, rfl, rfl⟩⟩

/-- The coroutine around a sleep ends, or answers its request first. -/
structure Settled (s s' : Sleep) (i : ℕ) (task : Task) (pc : Pc) : Prop where
  tasks : s'.tasks = s.tasks.set i { task with pc := pc }
  log : s'.log = s.log
  sleepLock : s'.sleepLock = s.sleepLock
  sleepCount : s'.sleepCount = s.sleepCount
  preSleepLocus : s'.preSleepLocus = s.preSleepLocus
  desired : s'.desired = s.desired
  shieldedPublishes : s'.shieldedPublishes = s.shieldedPublishes
  handled : s'.handled = s.handled
  driveScales : s'.driveScales = s.driveScales
  cycle : s'.cycle = s.cycle
  sleepPending : s'.sleepPending =
    (if pc = .done ∧ task.site ≠ .direct then false else s.sleepPending)
  pendingRest : s'.pendingRest =
    (if pc = .done ∧ task.site.request?.isSome then none else s.pendingRest)
  requestedRestAccepted : s'.requestedRestAccepted =
    (if pc = .done ∧ task.site.request?.isSome then false else s.requestedRestAccepted)
  awaits : pc = .done ∨ task.site ≠ .direct ∧ ∃ request answer, pc = .answerPublish request answer

theorem settled_clearPending (s : Sleep) (i : ℕ) (task : Task) :
    Settled s (s.clearPending i task) i task .done := by
  obtain ⟨site, pc, restStarted⟩ := task
  cases site <;> exact ⟨rfl, rfl, rfl, rfl, rfl, rfl, rfl, rfl, rfl, rfl, rfl, rfl, rfl, .inl rfl⟩

theorem settled_publishRestRequest (s : Sleep) (i : ℕ) (request : Request) (answer : Answer)
    (h : task.site ≠ .direct) :
    Settled s (s.publishRestRequest i task request answer) i task (.answerPublish request answer) :=
  ⟨rfl, rfl, rfl, rfl, rfl, rfl, rfl, rfl, rfl, rfl, by simp [publishRestRequest, setTask],
    by simp [publishRestRequest, setTask], by simp [publishRestRequest, setTask],
    .inr ⟨h, _, _, rfl⟩⟩

/-- Where the coroutine around a sleep goes on when the sleep has ended so. -/
def afterSleepAt (accepted : Bool) (site : Site) (exn : Option Exn) : Pc :=
  match site, exn with
  | .requested request, some .failure =>
    .answerPublish request (if accepted then .aborted else .busy)
  | .welfare request, some _ => .answerPublish request (if accepted then .aborted else .failed)
  | _, _ => .done

/-- Where it goes on when another sleep was running. -/
def afterBusyAt (site : Site) : Pc :=
  match site.request? with
  | some request => .answerPublish request .busy
  | none => .done

theorem settled_afterSleep (s : Sleep) (i : ℕ) (task : Task) (exn : Option Exn) :
    Settled s (s.afterSleep i task exn) i task
      (afterSleepAt s.requestedRestAccepted task.site exn) := by
  obtain ⟨site, pc, restStarted⟩ := task
  cases site with
  | requested request =>
    rcases exn with _ | _ | _
    · exact settled_clearPending s i ⟨.requested request, pc, restStarted⟩
    · exact settled_publishRestRequest s i _ _ (by simp)
    · exact settled_clearPending s i ⟨.requested request, pc, restStarted⟩
  | welfare request =>
    cases exn with
    | none => exact settled_clearPending s i ⟨.welfare request, pc, restStarted⟩
    | some exn => exact settled_publishRestRequest s i _ _ (by simp)
  | fatigueTriggered trigger =>
    exact settled_clearPending s i ⟨.fatigueTriggered trigger, pc, restStarted⟩
  | stateCycle => exact settled_clearPending s i ⟨.stateCycle, pc, restStarted⟩
  | interval => exact settled_clearPending s i ⟨.interval, pc, restStarted⟩
  | direct => exact settled_clearPending s i ⟨.direct, pc, restStarted⟩

theorem settled_afterBusy (s : Sleep) (i : ℕ) (task : Task) :
    Settled s (s.afterBusy i task) i task (afterBusyAt task.site) := by
  obtain ⟨site, pc, restStarted⟩ := task
  cases site with
  | requested request | welfare request => exact settled_publishRestRequest s i _ _ (by simp)
  | fatigueTriggered trigger =>
    exact settled_clearPending s i ⟨.fatigueTriggered trigger, pc, restStarted⟩
  | stateCycle => exact settled_clearPending s i ⟨.stateCycle, pc, restStarted⟩
  | interval => exact settled_clearPending s i ⟨.interval, pc, restStarted⟩
  | direct => exact settled_clearPending s i ⟨.direct, pc, restStarted⟩

/-- The pipeline's control flow: from one await to the next, with what is logged between them. -/
inductive Goes (s : Sleep) (task : Task) : Pc → Outcome → Pc → List Event → Prop
  | started {pc : Pc} (h : Accepts s task pc) :
      Goes s task .startedPublish .returned pc [s.startedEvent task]
  | unstarted {outcome : Outcome} {exn : Exn} (resumable : Bool) (h : outcome.exn = some exn) :
      Goes s task .startedPublish outcome (.abortPublish exn resumable)
        (said outcome (s.startedEvent task))
  | accepted {outcome : Outcome} {pending : Request} (h : outcome.exn ≠ some .cancelled) :
      Goes s task (.acceptedPublish pending) outcome (.phase .lightConsolidation)
        (said outcome (.restRequest pending .accepted))
  | acceptedCut {outcome : Outcome} {pending : Request} (resumable : Bool)
      (h : outcome.exn = some .cancelled) :
      Goes s task (.acceptedPublish pending) outcome (.abortPublish .cancelled resumable)
        (said outcome (.restRequest pending .accepted))
  | body {pc pc' : Pc} {outcome : Outcome} {new : List Event}
      (hpc : pc = .holding ∨ pc = .housekeeping ∨ ∃ phase, pc = .phase phase)
      (h : Onward s.sleepCount (s.holds task = true ∨
        pc = .holding) (outcome.exn = some .cancelled ∨ s.stopped = true ∧
          (s.holds task = true ∨ pc = .holding)) pc' new) :
      Goes s task pc outcome pc' new
  | resetDone : Goes s task (.reset none) .returned .audit []
  | resetRaised {outcome : Outcome} {pending : Option Exn} (exn : Exn) (resumable : Bool)
      (h : outcome.exn = some exn ∨ pending = some exn) :
      Goes s task (.reset pending) outcome (.abortPublish exn resumable) []
  | audited {outcome : Outcome} (h : outcome.exn ≠ some .cancelled) :
      Goes s task .audit outcome .completedPublish []
  | auditCut {outcome : Outcome} (resumable : Bool) (h : outcome.exn = some .cancelled) :
      Goes s task .audit outcome (.abortPublish .cancelled resumable) []
  | uncompleted {outcome : Outcome} {exn : Exn} (resumable : Bool) (h : outcome.exn = some exn) :
      Goes s task .completedPublish outcome (.abortPublish exn resumable)
        (said outcome (.completed s.sleepCount none false))

theorem Goes.inPipeline (h : Goes s task pc outcome pc' new) : pc'.inPipeline = true := by
  cases h with
  | started h => obtain ⟨rfl, -⟩ | ⟨_, rfl, -⟩ := h <;> rfl
  | body _ h => obtain ⟨-, ⟨rfl, -⟩ | rfl | ⟨_, rfl⟩⟩ | ⟨-, _, rfl, -⟩ := h <;> rfl
  | _ => rfl

/-- The state in which a pipeline's last publish leaves the module. -/
def published (s : Sleep) (task : Task) (outcome : Outcome) : Sleep :=
  match task.pc, outcome with
  | .abortPublish exn resumable, .cancelled false =>
    { s with
      shieldedPublishes := s.shieldedPublishes ++ [.completed s.sleepCount (some exn) resumable] }
  | .abortPublish exn resumable, outcome =>
    s.written outcome (.completed s.sleepCount (some exn) resumable)
  | _, _ => s.publish (.completed s.sleepCount none false)

theorem published_eq (s : Sleep) (task : Task) (outcome : Outcome) : ∃ log shielded,
    s.published task outcome = { s with log := log, shieldedPublishes := shielded } := by
  unfold published
  split
  · exact ⟨_, _, rfl⟩
  · unfold written
    split
    · exact ⟨_, _, rfl⟩
    · exact ⟨_, _, rfl⟩
  · exact ⟨_, _, rfl⟩

/-- How the last publish of a pipeline ends it. -/
inductive Leaves : Pc → Outcome → Option Exn → Prop
  | completed : Leaves .completedPublish .returned none
  | aborted {exn : Exn} {resumable : Bool} {outcome : Outcome} (h : outcome.exn ≠ some .cancelled) :
      Leaves (.abortPublish exn resumable) outcome (some exn)
  | cut {exn : Exn} {resumable : Bool} (written : Bool) :
      Leaves (.abortPublish exn resumable) (.cancelled written) (some .cancelled)

/-- A coroutine in the pipeline goes on along the control flow, or leaves at its end. -/
theorem resume_inPipeline (h : resume config s i task outcome = some s')
    (hpc : task.pc.inPipeline = true) :
    (∃ pc new, Within s s' i task pc new ∧ Goes s task task.pc outcome pc new) ∨
      ∃ exn, Leaves task.pc outcome exn ∧
        s' = (s.published task outcome).leaveSleep i task exn := by
  cases hfrom : task.pc with
  | scheduled | answerPublish _ _ | done => simp [hfrom, Pc.inPipeline] at hpc
  | startedPublish =>
    left
    simp only [resume, hfrom] at h
    cases hexn : outcome.exn with
    | none =>
      obtain rfl : outcome = .returned := by cases outcome <;> simp_all [Outcome.exn]
      obtain ⟨pc, hwithin, hto⟩ := within_afterStarted
        (s.written .returned (s.startedEvent task)) i task
      cases h
      exact ⟨pc, _, hwithin.after_written, .started hto⟩
    | some exn =>
      simp only [hexn, Option.some.injEq] at h
      obtain ⟨resumable, hwithin⟩ := within_abort_written s i task exn outcome (s.startedEvent task)
      exact ⟨_, _, h ▸ hwithin, .unstarted resumable hexn⟩
  | acceptedPublish pending =>
    left
    simp only [resume, hfrom] at h
    by_cases hexn : outcome.exn = some .cancelled
    · simp only [hexn, Option.some.injEq] at h
      obtain ⟨resumable, hwithin⟩ := within_abort_written s i task .cancelled outcome
        (.restRequest pending .accepted)
      exact ⟨_, _, h ▸ hwithin, .acceptedCut resumable hexn⟩
    · have hlight : (s.written outcome (.restRequest pending .accepted)).lightConsolidation i task =
        s' := by
        split at h
        · exact Option.some.inj h
        · exact Option.some.inj h
        · rename_i hcancelled
          exact absurd hcancelled hexn
      have hwithin := within_lightConsolidation
        (s.written outcome (.restRequest pending .accepted)) i task
      have hwritten := hwithin.after_written
      rw [List.append_nil] at hwritten
      exact ⟨_, _, hlight ▸ hwritten, .accepted hexn⟩
  | phase phase =>
    left
    simp only [resume, hfrom] at h
    split at h
    · cases h
      obtain ⟨pc, new, hwithin, honward⟩ := within_afterPhase config s i task phase
      exact ⟨pc, new, hwithin, .body (.inr (.inr ⟨phase, rfl⟩))
        (honward.mono .inl fun hheld => .inr ⟨hheld.1, .inl hheld.2⟩)⟩
    · rename_i hexn
      cases h
      exact ⟨_, _, within_runFinalAffectiveReset s i task _, .body (.inr (.inr ⟨phase, rfl⟩))
        (onward_reset fun hcancelled => .inl (hexn.trans hcancelled))⟩
  | holding =>
    left
    simp only [resume, hfrom] at h
    split at h
    · cases h
      obtain ⟨pc, new, hwithin, honward⟩ := within_holdDevelopmentalRest config s i task
      exact ⟨pc, new, hwithin, .body (.inl rfl)
        (honward.mono (fun _ => .inr rfl) fun hstopped => .inr ⟨hstopped, .inr rfl⟩)⟩
    · rename_i hexn
      cases h
      exact ⟨_, _, within_runFinalAffectiveReset s i task _, .body (.inl rfl)
        (onward_reset fun hcancelled => .inl (hexn.trans hcancelled))⟩
  | housekeeping =>
    left
    simp only [resume, hfrom] at h
    by_cases hexn : outcome.exn = some .cancelled
    · simp only [hexn, Option.some.injEq] at h
      exact ⟨_, _, h ▸ within_runFinalAffectiveReset s i task _, .body (.inr (.inl rfl))
        (onward_reset fun _ => .inl hexn)⟩
    · have hreset : s.runFinalAffectiveReset i task none = s' := by
        split at h
        · exact Option.some.inj h
        · exact Option.some.inj h
        · rename_i hcancelled
          exact absurd hcancelled hexn
      exact ⟨_, _, hreset ▸ within_runFinalAffectiveReset s i task none, .body (.inr (.inl rfl))
        (onward_reset (by simp))⟩
  | reset pending =>
    left
    simp only [resume, hfrom] at h
    split at h
    · rename_i hexn
      obtain rfl : outcome = .returned := by cases outcome <;> simp_all [Outcome.exn]
      cases h
      exact ⟨.audit, [], ⟨rfl, by simp [setTask], rfl, rfl, rfl, rfl, rfl, rfl, rfl, rfl, .inl rfl,
    .inl ⟨by simp, rfl, rfl⟩⟩,
        .resetDone⟩
    · cases h
      obtain ⟨resumable, hwithin⟩ := within_abort s i task _
      exact ⟨_, _, hwithin, .resetRaised _ resumable (.inr rfl)⟩
    · rename_i hexn
      cases h
      obtain ⟨resumable, hwithin⟩ := within_abort s i task _
      exact ⟨_, _, hwithin, .resetRaised _ resumable (.inl hexn)⟩
  | audit =>
    left
    simp only [resume, hfrom] at h
    by_cases hexn : outcome.exn = some .cancelled
    · simp only [hexn, Option.some.injEq] at h
      obtain ⟨resumable, hwithin⟩ := within_abort s i task .cancelled
      exact ⟨_, _, h ▸ hwithin, .auditCut resumable hexn⟩
    · have hcomplete : s.completeSleep i task = s' := by
        split at h
        · exact Option.some.inj h
        · exact Option.some.inj h
        · rename_i hcancelled
          exact absurd hcancelled hexn
      exact ⟨_, _, hcomplete ▸ within_completeSleep s i task, .audited hexn⟩
  | completedPublish =>
    simp only [resume, hfrom] at h
    cases hexn : outcome.exn with
    | none =>
      right
      obtain rfl : outcome = .returned := by cases outcome <;> simp_all [Outcome.exn]
      cases h
      exact ⟨none, .completed, by simp [published, hfrom, written, Outcome.written]⟩
    | some exn =>
      left
      simp only [hexn, Option.some.injEq] at h
      obtain ⟨resumable, hwithin⟩ := within_abort_written s i task exn outcome
        (.completed s.sleepCount none false)
      exact ⟨_, _, h ▸ hwithin, .uncompleted resumable hexn⟩
  | abortPublish exn resumable =>
    right
    simp only [resume, hfrom] at h
    cases outcome with
    | returned | raised written =>
      cases h
      exact ⟨some exn, .aborted (by simp [Outcome.exn]), by simp [published, hfrom]⟩
    | cancelled written =>
      cases h
      refine ⟨some .cancelled, .cut written, ?_⟩
      cases written <;> simp [published, hfrom, written, Outcome.written]

open PerceptionState

/-- A sleep begins: the lock is taken and perception is suspended. -/
structure Entered (s s' : Sleep) (i : ℕ) (task task' : Task) : Prop where
  tasks : s'.tasks = s.tasks.set i task'
  site : task'.site = task.site
  pc : task'.pc = .startedPublish
  log : s'.log = s.log
  sleepLock : s'.sleepLock = true
  sleepPending : s'.sleepPending = s.sleepPending
  sleepCount : s'.sleepCount = s.sleepCount + 1
  preSleepLocus : s'.preSleepLocus = some (s.preSleepLocus.getD s.desired.locus)
  desired : s'.desired = writeDesiredLocus s.desired .off
  shieldedPublishes : s'.shieldedPublishes = s.shieldedPublishes
  welfareRestHeld : s'.welfareRestHeld = s.welfareRestHeld
  handled : s'.handled = s.handled
  driveScales : s'.driveScales = s.driveScales
  pendingRest : s'.pendingRest = s.pendingRest
  requestedRestAccepted : s'.requestedRestAccepted = s.requestedRestAccepted

theorem entered_enterSleep (config : Config) (h : s.sleepLock = false) (i : ℕ) (task : Task) :
    ∃ task', Entered s (enterSleep config s i task) i task task' := by
  unfold enterSleep
  rw [h]
  dsimp only [Bool.false_eq_true]
  rw [if_neg Bool.false_ne_true]
  split
  all_goals
    exact ⟨_, rfl, rfl, rfl, rfl, rfl, rfl, rfl, rfl, rfl, rfl, rfl, rfl, rfl, rfl, rfl⟩

theorem enterSleep_busy (config : Config) (h : s.sleepLock = true) (i : ℕ) (task : Task) :
    enterSleep config s i task = s.afterBusy i task := if_pos h

/-- A sleep ends: the lock is released and perception is restored. -/
structure Left (s s' : Sleep) (i : ℕ) (task : Task) (pc : Pc) : Prop where
  tasks : s'.tasks = s.tasks.set i { task with pc := pc }
  log : s'.log = s.log
  sleepLock : s'.sleepLock = false
  sleepCount : s'.sleepCount = s.sleepCount
  preSleepLocus : s'.preSleepLocus = none
  desired : s'.desired = writeDesiredLocus s.desired (s.preSleepLocus.getD .physical)
  shieldedPublishes : s'.shieldedPublishes = s.shieldedPublishes
  handled : s'.handled = s.handled
  driveScales : s'.driveScales = s.driveScales
  cycle : s'.cycle = { s.cycle with restBegan := none }
  sleepPending : s'.sleepPending =
    (if pc = .done ∧ task.site ≠ .direct then false else s.sleepPending)
  pendingRest : s'.pendingRest =
    (if pc = .done ∧ task.site.request?.isSome then none else s.pendingRest)
  requestedRestAccepted : s'.requestedRestAccepted =
    (if pc = .done ∧ task.site.request?.isSome then false else s.requestedRestAccepted)
  awaits : pc = .done ∨ task.site ≠ .direct ∧ ∃ request answer, pc = .answerPublish request answer

theorem left_leaveSleep (s : Sleep) (i : ℕ) (task : Task) (exn : Option Exn) :
    Left s (s.leaveSleep i task exn) i task
      (afterSleepAt s.requestedRestAccepted task.site exn) := by
  obtain ⟨htasks, hlog, hlock, hcount, hpre, hdesired, hshielded, hhandled, hscales,
    hcycle, hpending, hrest, haccepted, hawaits⟩ := settled_afterSleep
      { restorePerception { s with cycle := { s.cycle with restBegan := none } } with
        lastSleepEndedAt := s.now, sleepLock := false } i task exn
  exact ⟨htasks, hlog, hlock, hcount, hpre, hdesired, hshielded, hhandled, hscales,
    hcycle, hpending, hrest, haccepted, hawaits⟩

/-- What a move outside the sleeps does: at most it schedules one, where none runs or is pending, or
refuses a request. -/
inductive Does (s s' : Sleep) : Prop
  | nothing (htasks : s'.tasks = s.tasks) (hpending : s'.sleepPending = s.sleepPending)
      (hlog : s'.log = s.log) (hhandled : s'.handled = s.handled)
  | schedules (site : Site) (hasleep : s.asleep = false) (hsite : site ≠ .direct)
      (htasks : s'.tasks = s.tasks ++ [⟨site, .scheduled, 0⟩]) (hpending : s'.sleepPending = true)
      (hlog : s'.log = s.log)
      (hrequest : site.request? = none ∧ s'.handled = s.handled ∨
        ∃ request, site.request? = some request ∧ request.number = s.handled ∧
          s'.handled = s.handled + 1)
  | refuses (request : Request) {answer : Answer} (hanswer : answer = .busy ∨ answer = .tooSoon)
      (hnumber : request.number = s.handled) (htasks : s'.tasks = s.tasks)
      (hpending : s'.sleepPending = s.sleepPending)
      (hlog : s'.log = s.log ++ [.restRequest request answer])
      (hhandled : s'.handled = s.handled + 1)

structure Outside (s s' : Sleep) : Prop where
  does : Does s s'
  sleepLock : s'.sleepLock = s.sleepLock
  sleepCount : s'.sleepCount = s.sleepCount
  preSleepLocus : s'.preSleepLocus = s.preSleepLocus
  desired : s'.desired = s.desired
  shieldedPublishes : s'.shieldedPublishes = s.shieldedPublishes
  driveScales : s'.driveScales = s.driveScales
  pendingRest : s'.pendingRest = s.pendingRest
  requestedRestAccepted : s'.requestedRestAccepted = s.requestedRestAccepted

theorem Outside.refl (s : Sleep) : Outside s s :=
  ⟨.nothing rfl rfl rfl rfl, rfl, rfl, rfl, rfl, rfl, rfl, rfl, rfl⟩

theorem outside_createTask {site : Site} (h : s.asleep = false) (hsite : site ≠ .direct)
    (hrequest : site.request? = none) : Outside s (s.createTask site) :=
  ⟨.schedules site h hsite rfl rfl rfl (.inl ⟨hrequest, rfl⟩), rfl, rfl, rfl, rfl, rfl,
    rfl, rfl, rfl⟩

theorem outside_startMaintenanceSleep (trigger : MaintenanceTrigger) :
    Outside s (s.startMaintenanceSleep trigger) := by
  unfold startMaintenanceSleep
  split
  · exact .refl s
  · rename_i h
    exact outside_createTask (Bool.eq_false_iff.2 h) (by simp) rfl

theorem outside_startStateCycleSleep (cycle : StateCycle) (resume : Bool) :
    Outside s (startStateCycleSleep { s with cycle := cycle } resume) := by
  unfold startStateCycleSleep
  split
  · exact ⟨.nothing rfl rfl rfl rfl, rfl, rfl, rfl, rfl, rfl, rfl, rfl, rfl⟩
  · rename_i h
    exact ⟨.schedules .stateCycle (Bool.eq_false_iff.2 h) (by simp) rfl rfl rfl
      (.inl ⟨rfl, rfl⟩), rfl, rfl, rfl, rfl, rfl, rfl, rfl, rfl⟩

theorem outside_maintenancePollOnce (config : Config) (developing : Option Bool) (due : Bool) :
    Outside s (maintenancePollOnce config s developing due) := by
  unfold maintenancePollOnce
  dsimp only
  have hticked : Outside s { s with cycle := s.cycle.tick developing s.asleep s.now s.paused } :=
    ⟨.nothing rfl rfl rfl rfl, rfl, rfl, rfl, rfl, rfl, rfl, rfl, rfl⟩
  split_ifs with hasleep hdeveloping hphase hawake hawait hdue
  · exact hticked
  · exact outside_startStateCycleSleep _ true
  · exact outside_startStateCycleSleep _ false
  · exact hticked
  · exact hticked
  · exact ⟨.schedules .interval (Bool.eq_false_iff.2 hasleep) (by simp) rfl rfl rfl
      (.inl ⟨rfl, rfl⟩), rfl, rfl, rfl, rfl, rfl, rfl, rfl, rfl⟩
  · exact hticked

theorem outside_handleRestRequest (config : Config) (origin proposalId : Json) :
    Outside s (handleRestRequest config s origin proposalId) := by
  unfold handleRestRequest
  dsimp only
  split_ifs with hasleep hsoon
  · exact ⟨.refuses ⟨s.handled, origin, proposalId⟩ (.inl rfl) rfl rfl rfl rfl rfl, rfl, rfl,
      rfl, rfl, rfl, rfl, rfl, rfl⟩
  · exact ⟨.refuses ⟨s.handled, origin, proposalId⟩ (.inr rfl) rfl rfl rfl rfl rfl, rfl, rfl,
      rfl, rfl, rfl, rfl, rfl, rfl⟩
  · exact ⟨.schedules (.requested ⟨s.handled, origin, proposalId⟩) (Bool.eq_false_iff.2 hasleep)
      (by simp) rfl rfl rfl (.inr ⟨_, rfl, rfl, rfl⟩), rfl, rfl, rfl, rfl, rfl, rfl, rfl, rfl⟩

theorem outside_handleWelfareRestRequest (requestId : Json) (developing : Option Bool) :
    Outside s (s.handleWelfareRestRequest requestId developing) := by
  unfold handleWelfareRestRequest
  dsimp only
  split_ifs with hasleep
  · exact ⟨.refuses ⟨s.handled, welfareRestOrigin, _⟩ (.inl rfl) rfl rfl rfl rfl rfl, rfl,
      rfl, rfl, rfl, rfl, rfl, rfl, rfl⟩
  · exact ⟨.schedules (.welfare ⟨s.handled, welfareRestOrigin, _⟩) (Bool.eq_false_iff.2 hasleep)
      (by simp) rfl rfl rfl (.inr ⟨_, rfl, rfl, rfl⟩), rfl, rfl, rfl, rfl, rfl, rfl, rfl, rfl⟩

/-- `enter_sleep` begins a sleep, or finds one running. -/
inductive Enters (s s' : Sleep) (i : ℕ) (task : Task) : Prop
  | entered {task' : Task} (hfree : s.sleepLock = false) (h : Entered s s' i task task')
  | busy (hlock : s.sleepLock = true) (h : Settled s s' i task (afterBusyAt task.site))

theorem enters_enterSleep (config : Config) (s : Sleep) (i : ℕ) (task : Task) :
    Enters s (enterSleep config s i task) i task := by
  cases hlock : s.sleepLock with
  | true => exact .busy hlock (enterSleep_busy config hlock i task ▸ settled_afterBusy s i task)
  | false =>
    obtain ⟨task', hentered⟩ := entered_enterSleep config hlock i task
    exact .entered hlock hentered

/-- What a coroutine notes of its request. -/
theorem noteRequest_eq (s : Sleep) (task : Task) : ∃ pending accepted,
    s.noteRequest task = { s with pendingRest := pending, requestedRestAccepted := accepted } ∧
      (∀ request, task.site.request? = some request → pending = some request ∧ accepted = false) ∧
      (task.site.request? = none → pending = s.pendingRest ∧
        accepted = s.requestedRestAccepted) := by
  unfold noteRequest
  cases hrequest : task.site.request? with
  | some request => exact ⟨_, _, rfl, by simp, by simp⟩
  | none => exact ⟨_, _, rfl, by simp, by simp⟩

/-- The caller's coroutine joins the tasks for a direct call. -/
def withDirect (s : Sleep) : Sleep := { s with tasks := s.tasks ++ [⟨.direct, .scheduled, 0⟩] }

/-- One move of the module. -/
inductive Moved (s s' : Sleep) : Move → Prop
  | outside {m : Move} (h : Outside s s') (hm : ∀ i outcome, m ≠ .resume i outcome) : Moved s s' m
  | direct (h : Enters s.withDirect s' s.tasks.length ⟨.direct, .scheduled, 0⟩) :
      Moved s s' .enterSleep
  | begun {i : ℕ} {task : Task} (hi : s.tasks[i]? = some task) (hpc : task.pc = .scheduled)
      (h : Enters (s.noteRequest task) s' i task) : Moved s s' (.resume i .returned)
  | dropped {i : ℕ} {task : Task} {written : Bool} (hi : s.tasks[i]? = some task)
      (hpc : task.pc = .scheduled) (h : s' = s.setTask i { task with pc := .done }) :
      Moved s s' (.resume i (.cancelled written))
  | within {i : ℕ} {task : Task} {outcome : Outcome} {pc : Pc} {new : List Event}
      (hi : s.tasks[i]? = some task) (hin : task.pc.inPipeline = true)
      (hwithin : Within s s' i task pc new) (hgoes : Goes s task task.pc outcome pc new) :
      Moved s s' (.resume i outcome)
  | left {i : ℕ} {task : Task} {outcome : Outcome} {exn : Option Exn}
      (hi : s.tasks[i]? = some task) (hin : task.pc.inPipeline = true)
      (hleaves : Leaves task.pc outcome exn)
      (h : Left (s.published task outcome) s' i task
        (afterSleepAt s.requestedRestAccepted task.site exn)) : Moved s s' (.resume i outcome)
  | answered {i : ℕ} {task : Task} {outcome : Outcome} {request : Request} {answer : Answer}
      (hi : s.tasks[i]? = some task) (hpc : task.pc = .answerPublish request answer)
      (h : Settled (s.written outcome (.restRequest request answer)) s' i task .done) :
      Moved s s' (.resume i outcome)
  | shielded {written : Bool} {event : Event} {rest : List Event}
      (hshielded : s.shieldedPublishes = event :: rest)
      (h : s' = if written then { s with shieldedPublishes := rest }.publish event
        else { s with shieldedPublishes := rest }) : Moved s s' (.shieldedPublish written)

theorem moved_of_resume (hi : s.tasks[i]? = some task)
    (h : resume config s i task outcome = some s') : Moved s s' (.resume i outcome) := by
  cases hin : task.pc.inPipeline with
  | true =>
    rcases resume_inPipeline h hin with ⟨pc, new, hwithin, hgoes⟩ | ⟨exn, hleaves, rfl⟩
    · exact .within hi hin hwithin hgoes
    · have hleft := left_leaveSleep (s.published task outcome) i task exn
      have haccepted : (s.published task outcome).requestedRestAccepted =
        s.requestedRestAccepted := by
        obtain ⟨log, shielded, hpublished⟩ := published_eq s task outcome
        rw [hpublished]
      rw [haccepted] at hleft
      exact .left hi hin hleaves hleft
  | false =>
    cases hpc : task.pc with
    | scheduled =>
      simp only [resume, hpc] at h
      cases outcome with
      | returned =>
        cases h
        exact .begun hi hpc (enters_enterSleep config (s.noteRequest task) i task)
      | cancelled written =>
        cases h
        exact .dropped hi hpc rfl
      | raised written => cases h
    | answerPublish request answer =>
      simp only [resume, hpc] at h
      cases h
      exact .answered hi hpc (settled_clearPending _ i task)
    | done => simp [resume, hpc] at h
    | _ => simp [hpc, Pc.inPipeline] at hin

theorem moved_of_step {m : Move} (h : step config s m = some s') : Moved s s' m := by
  cases m with
  | advance elapsed frozen =>
    simp only [step] at h
    split_ifs at h
    cases h
    exact .outside ⟨.nothing rfl rfl rfl rfl, rfl, rfl, rfl, rfl, rfl, rfl, rfl, rfl⟩ (by simp)
  | probeWired | stop =>
    cases h
    exact .outside ⟨.nothing rfl rfl rfl rfl, rfl, rfl, rfl, rfl, rfl, rfl, rfl, rfl⟩ (by simp)
  | fatigue developing =>
    cases h
    split
    · exact .outside (.refl s) (by simp)
    · exact .outside (outside_startMaintenanceSleep _) (by simp)
  | regulation | affectRegulation =>
    cases h
    exact .outside (outside_startMaintenanceSleep _) (by simp)
  | poll developing due =>
    cases h
    exact .outside (outside_maintenancePollOnce config developing due) (by simp)
  | restRequest origin proposalId =>
    cases h
    exact .outside (outside_handleRestRequest config origin proposalId) (by simp)
  | welfareRestRequest requestId developing =>
    cases h
    exact .outside (outside_handleWelfareRestRequest requestId developing) (by simp)
  | enterSleep =>
    cases h
    exact .direct (enters_enterSleep config s.withDirect s.tasks.length _)
  | resume i outcome =>
    simp only [step] at h
    cases hi : s.tasks[i]? with
    | none => simp [hi] at h
    | some task =>
      rw [hi] at h
      exact moved_of_resume hi h
  | shieldedPublish written =>
    simp only [step] at h
    split at h
    · cases h
    · rename_i event rest hshielded
      exact .shielded hshielded (Option.some.inj h).symm

end Kaine.Sleep
