import Kaine.Residency.Inflight

/-! Every ticket is released once, and a wait that no admission overtakes ends in an idle gate. -/
namespace Kaine.Inflight
open InflightGate

variable {g g' : InflightGate} {job : Job} {ticket : ℕ} {action : JobAction} {a : Action}
  {actions : List Action}

/-- What holds of a job between any two steps. -/
structure Job.Ok (job : Job) : Prop where
  releases : job.releases = if job.released then 1 else 0
  released : job.released = (job.abandoned || job.finished)
  notBegun : job.awaiter = .notBegun → job.worker = .notSubmitted ∧ job.abandoned = false
  ended : job.awaiter = .ended → job.abandoned = true ∨ job.started = true
  abandoned : job.abandoned = true → job.started = false ∧ job.awaiter = .ended
  started : job.started = true ↔ job.worker = .running ∨
    (job.worker = .returned ∧ job.abandoned = false)
  posted : job.posted = true → job.started = true ∧ job.worker = .returned

theorem ok_new : ({} : Job).Ok where
  releases := rfl
  released := rfl
  notBegun _ := ⟨rfl, rfl⟩
  ended h := by cases h
  abandoned h := by cases h
  started := by simp
  posted h := by cases h

/-- A step of a job keeps it sound, and releases its ticket or leaves it as it was. -/
structure JobStep (g : InflightGate) (ticket : ℕ) (job job' : Job) (g' : InflightGate) : Prop where
  ok : job'.Ok
  abandoned : job.abandoned = true → job'.abandoned = true
  gate : (job'.released = job.released ∧ g' = g.put ticket job') ∨
    (job.released = false ∧ job'.released = true ∧ g' = (g.put ticket job').decrement)

namespace Job.Ok

theorem submitted (hok : job.Ok) (h : job.awaiter = .notBegun) :
    Job.Ok { job with awaiter := .awaiting, worker := .queued } := by
  obtain ⟨hreleases, hreleased, hnotBegun, hended, habandoned, hstarted, hposted⟩ := hok
  constructor <;> grind [Job.finished]

theorem passedOver (hok : job.Ok) (h : job.worker = .queued) (hmark : job.abandoned = true) :
    Job.Ok { job with worker := .returned } := by
  obtain ⟨hreleases, hreleased, hnotBegun, hended, habandoned, hstarted, hposted⟩ := hok
  constructor <;> grind [Job.finished]

theorem begun (hok : job.Ok) (h : job.worker = .queued) (hmark : job.abandoned = false) :
    Job.Ok { job with worker := .running, started := true } := by
  obtain ⟨hreleases, hreleased, hnotBegun, hended, habandoned, hstarted, hposted⟩ := hok
  constructor <;> grind [Job.finished]

theorem ran (hok : job.Ok) (h : job.worker = .running) :
    Job.Ok { job with worker := .returned, posted := true } := by
  obtain ⟨hreleases, hreleased, hnotBegun, hended, habandoned, hstarted, hposted⟩ := hok
  constructor <;> grind [Job.finished]

theorem withdrawn (hok : job.Ok) (h : job.worker = .queued) :
    Job.Ok { job with worker := .withdrawn } := by
  obtain ⟨hreleases, hreleased, hnotBegun, hended, habandoned, hstarted, hposted⟩ := hok
  constructor <;> grind [Job.finished]

theorem resolved (hok : job.Ok)
    (h : job.started = true ∨ job.awaiter = .awaiting ∧ job.worker = .returned) :
    Job.Ok { job with awaiter := .ended } := by
  obtain ⟨hreleases, hreleased, hnotBegun, hended, habandoned, hstarted, hposted⟩ := hok
  constructor <;> grind [Job.finished]

/-- A callback finds its ticket unreleased. -/
theorem delivered (hok : job.Ok) (h : job.posted = true) : job.released = false ∧
    Job.Ok { job with posted := false, released := true, releases := job.releases + 1 } := by
  obtain ⟨hreleases, hreleased, hnotBegun, hended, habandoned, hstarted, hposted⟩ := hok
  have hopen : job.released = false := by grind [Job.finished]
  refine ⟨hopen, ?_⟩
  constructor <;> grind [Job.finished]

/-- So does the handler of a job that has not started. -/
theorem givenUp (hok : job.Ok) (hstart : job.started = false) (hrun : job.awaiter ≠ .ended) :
    job.released = false ∧ Job.Ok { job with
      awaiter := .ended, abandoned := true, released := true
      releases := job.releases + 1 } := by
  obtain ⟨hreleases, hreleased, hnotBegun, hended, habandoned, hstarted, hposted⟩ := hok
  have hopen : job.released = false := by grind [Job.finished]
  refine ⟨hopen, ?_⟩
  constructor <;> grind [Job.finished]

end Job.Ok

/-- A release of a ticket that was not released. -/
theorem jobStep_release {old : Job} (hold : old.released = false) (hjob : job.released = false)
    (hok : Job.Ok { job with released := true, releases := job.releases + 1 })
    (hkeep : old.abandoned = true → job.abandoned = true) :
    ∃ job', JobStep g ticket old job' (g.release ticket job) := by
  refine ⟨_, hok, hkeep, .inr ⟨hold, rfl, ?_⟩⟩
  unfold release
  rw [hjob, if_neg Bool.false_ne_true]

/-- The handler abandons a job that has not started, and leaves a started one to its worker. -/
theorem jobStep_handle (hok : job.Ok) (hrun : job.awaiter ≠ .ended) :
    ∃ job', JobStep g ticket job job' (g.handle ticket job) := by
  unfold handle
  by_cases hstart : job.started = true
  · rw [if_pos hstart]
    exact ⟨_, hok.resolved (.inl hstart), id, .inl ⟨rfl, rfl⟩⟩
  · obtain ⟨hopen, hgiven⟩ := hok.givenUp (Bool.eq_false_iff.mpr hstart) hrun
    rw [if_neg hstart]
    exact jobStep_release hopen hopen hgiven fun _ => rfl

theorem jobStep_cases (hok : job.Ok) (h : g.jobStep ticket job action = some g') :
    ∃ job', JobStep g ticket job job' g' := by
  cases action with
  | submit =>
    simp only [jobStep] at h
    split at h
    · next hbegun =>
      cases h
      exact ⟨_, hok.submitted hbegun, id, .inl ⟨rfl, rfl⟩⟩
    · cases h
  | refuse =>
    simp only [jobStep] at h
    split at h
    · next hbegun =>
      cases h
      exact jobStep_handle hok (by rw [hbegun]; decide)
    · cases h
  | begin =>
    simp only [jobStep] at h
    split at h
    · next hqueued =>
      split at h
      · next hmark =>
        cases h
        exact ⟨_, hok.passedOver hqueued hmark, id, .inl ⟨rfl, rfl⟩⟩
      · next hmark =>
        cases h
        exact ⟨_, hok.begun hqueued (Bool.eq_false_iff.mpr hmark), id, .inl ⟨rfl, rfl⟩⟩
    · cases h
  | finish =>
    simp only [jobStep] at h
    split at h
    · next hrunning =>
      cases h
      exact ⟨_, hok.ran hrunning, id, .inl ⟨rfl, rfl⟩⟩
    · cases h
  | deliver =>
    simp only [jobStep] at h
    split at h
    · next hpost =>
      cases h
      obtain ⟨hopen, hdelivered⟩ := hok.delivered hpost
      exact jobStep_release hopen hopen hdelivered id
    · cases h
  | withdraw =>
    simp only [jobStep] at h
    split at h
    · next hqueued =>
      cases h
      exact ⟨_, hok.withdrawn hqueued, id, .inl ⟨rfl, rfl⟩⟩
    · cases h
  | resolve =>
    simp only [jobStep] at h
    split at h
    · next hdone =>
      cases h
      exact ⟨_, hok.resolved (.inr hdone), id, .inl ⟨rfl, rfl⟩⟩
    · cases h
  | raise =>
    simp only [jobStep] at h
    split at h
    · next hawaiting =>
      cases h
      exact jobStep_handle hok (by rw [hawaiting]; decide)
    · cases h

section Gate

/-- What holds of a gate between any two steps. -/
structure InflightGate.Sound (g : InflightGate) : Prop where
  jobs : ∀ job ∈ g.jobs, job.Ok
  count : g.count = (g.jobs.countP fun job => !job.released : ℕ)
  idle : g.idleEvent = true ↔ g.count = 0
  waiting : ∀ w ∈ g.waiters, w = .waiting → g.idleEvent = false
  woken : ∀ w ∈ g.waiters, w = .woken false → g.idleEvent = true

theorem sound_new : ({} : InflightGate).Sound where
  jobs job h := by cases h
  count := rfl
  idle := by simp
  waiting w h := by cases h
  woken w h := by cases h

theorem sound_admitTicket (hs : g.Sound) : g.admitTicket.Sound where
  jobs job h := by
    rcases List.mem_append.mp h with h | h
    · exact hs.jobs job h
    · rw [List.mem_singleton.mp h]
      exact ok_new
  count := by
    have hcount := hs.count
    have hnew : (g.admitTicket.jobs.countP fun job => !job.released) =
      (g.jobs.countP fun job => !job.released) + 1 := by
      simp [admitTicket]
    rw [hnew]
    simp only [admitTicket]
    omega
  idle := by
    have hcount := hs.count
    simp only [admitTicket, Bool.false_eq_true, false_iff]
    omega
  waiting w _ _ := rfl
  woken w hw h := by
    obtain ⟨w', -, hw'⟩ := List.mem_map.mp hw
    subst h
    cases w' <;> simp [Waiter.seeAdmission] at hw'

theorem countP_put (p : Job → Bool) (job' : Job) (hget : g.jobs[ticket]? = some job) :
    (g.put ticket job').jobs.countP p + (if p job then 1 else 0) = g.jobs.countP p + if p job'
      then 1 else 0 := by
  obtain ⟨hi, rfl⟩ := List.getElem?_eq_some_iff.mp hget
  have hmem : g.jobs[ticket] ∈ g.jobs := List.getElem_mem hi
  have hpos : p g.jobs[ticket] = true → 0 < g.jobs.countP p :=
    fun hp => List.countP_pos_iff.mpr ⟨_, hmem, hp⟩
  show (g.jobs.set ticket job').countP p + _ = _
  rw [List.countP_set hi]
  split_ifs with hold hnew hnew <;> simp_all

theorem mem_put {job' other : Job} (h : other ∈ (g.put ticket job').jobs) :
    other ∈ g.jobs ∨ other = job' :=
  List.mem_or_eq_of_mem_set h

theorem wake_ne_waiting (w : Waiter) : w.wake ≠ .waiting := by cases w <;> simp [Waiter.wake]

/-- The release of one ticket of a gate whose count is still one higher than its open tickets. -/
theorem sound_decrement (hjobs : ∀ job ∈ g.jobs, job.Ok)
    (hcount : g.count = (g.jobs.countP fun job => !job.released : ℕ) + 1)
    (hidle : g.idleEvent = false)
    (hwoken : ∀ w ∈ g.waiters, w ≠ .woken false) : g.decrement.Sound := by
  unfold decrement
  dsimp only
  split_ifs with hzero
  · unfold setEvent
    dsimp only
    rw [if_neg (by rw [hidle]; exact Bool.false_ne_true)]
    refine ⟨hjobs, ?_, ?_, ?_, fun _ _ _ => rfl⟩
    · show g.count - 1 = (g.jobs.countP fun job => !job.released : ℕ)
      omega
    · show true = true ↔ g.count - 1 = 0
      simp only [true_iff]
      omega
    · intro w hw heq
      obtain ⟨w', -, rfl⟩ := List.mem_map.mp hw
      exact absurd heq (wake_ne_waiting w')
  · refine ⟨hjobs, ?_, ?_, fun _ _ _ => hidle, fun w hw heq => absurd heq (hwoken w hw)⟩
    · show g.count - 1 = (g.jobs.countP fun job => !job.released : ℕ)
      omega
    · show g.idleEvent = true ↔ g.count - 1 = 0
      simp only [hidle, Bool.false_eq_true, false_iff]
      omega

/-- A step of one job keeps the gate sound. -/
theorem sound_jobStep (hs : g.Sound) (hget : g.jobs[ticket]? = some job) {job' : Job}
    (h : JobStep g ticket job job' g') : g'.Sound := by
  have hjobs : ∀ other ∈ (g.put ticket job').jobs, other.Ok := by
    intro other hother
    rcases mem_put hother with hother | rfl
    · exact hs.jobs other hother
    · exact h.ok
  have hcount := hs.count
  have hput := countP_put (fun job => !job.released) job' hget
  rcases h.gate with ⟨hsame, rfl⟩ | ⟨hold, hnew, rfl⟩
  · refine ⟨hjobs, ?_, hs.idle, hs.waiting, hs.woken⟩
    rw [hsame] at hput
    show g.count = _
    omega
  · rw [hold, hnew] at hput
    simp only [Bool.not_false, Bool.not_true, if_true, Bool.false_eq_true, if_false] at hput
    have hbusy : g.idleEvent = false := by
      rw [Bool.eq_false_iff, ne_eq, hs.idle]
      omega
    refine sound_decrement hjobs ?_ hbusy fun w hw heq => ?_
    · show g.count = _
      omega
    · rw [hs.woken w hw heq] at hbusy
      cases hbusy

/-- Every step keeps the gate sound. -/
theorem sound_step (h : g.step a = some g') (hs : g.Sound) : g'.Sound := by
  cases a with
  | admitTicket =>
    cases h
    exact sound_admitTicket hs
  | job ticket action =>
    obtain ⟨job, hget, hstep⟩ := Option.bind_eq_some_iff.mp h
    obtain ⟨job', hjob⟩ := jobStep_cases (hs.jobs job (List.mem_of_getElem? hget)) hstep
    exact sound_jobStep hs hget hjob
  | waitIdle =>
    cases h
    refine ⟨hs.jobs, hs.count, hs.idle, fun w hw heq => ?_, fun w hw heq => ?_⟩
    · rcases List.mem_append.mp hw with hw | hw
      · exact hs.waiting w hw heq
      · rw [List.mem_singleton.mp hw] at heq
        split_ifs at heq with hidle
        exact Bool.eq_false_iff.mpr hidle
    · rcases List.mem_append.mp hw with hw | hw
      · exact hs.woken w hw heq
      · rw [List.mem_singleton.mp hw] at heq
        split_ifs at heq
  | resume waiter =>
    simp only [step] at h
    split at h
    · cases h
      refine ⟨hs.jobs, hs.count, hs.idle, fun w hw heq => ?_, fun w hw heq => ?_⟩
      · rcases List.mem_or_eq_of_mem_set hw with hw | rfl
        · exact hs.waiting w hw heq
        · cases heq
      · rcases List.mem_or_eq_of_mem_set hw with hw | rfl
        · exact hs.woken w hw heq
        · cases heq
    · cases h

theorem sound_run (h : Run {} actions g) : g.Sound :=
  h.invariant (fun hstep hs => sound_step hstep hs) sound_new

/-- Whether the job of a ticket is marked abandoned. -/
def Abandoned (g : InflightGate) (ticket : ℕ) : Prop :=
  ∃ job, g.jobs[ticket]? = some job ∧ job.abandoned = true

theorem decrement_jobs (g : InflightGate) : g.decrement.jobs = g.jobs := by
  unfold decrement setEvent
  dsimp only
  split_ifs <;> rfl

theorem abandoned_step (h : g.step a = some g') (hs : g.Sound) (hmark : Abandoned g ticket) :
    Abandoned g' ticket := by
  obtain ⟨job, hget, hjob⟩ := hmark
  cases a with
  | admitTicket =>
    cases h
    refine ⟨job, ?_, hjob⟩
    show (g.jobs ++ [({} : Job)])[ticket]? = some job
    rw [List.getElem?_append_left (List.getElem?_eq_some_iff.mp hget).1, hget]
  | job other action =>
    obtain ⟨old, hold, hstep⟩ := Option.bind_eq_some_iff.mp h
    obtain ⟨new, hnew⟩ := jobStep_cases (hs.jobs old (List.mem_of_getElem? hold)) hstep
    have hjobs : g'.jobs = g.jobs.set other new := by
      rcases hnew.gate with ⟨-, rfl⟩ | ⟨-, -, rfl⟩
      · rfl
      · exact decrement_jobs _
    unfold Abandoned
    rw [hjobs]
    by_cases hsame : other = ticket
    · subst hsame
      obtain rfl : old = job := Option.some.inj (hold.symm.trans hget)
      have hlt := (List.getElem?_eq_some_iff.mp hget).1
      exact ⟨new, List.getElem?_set_self hlt, hnew.abandoned hjob⟩
    · exact ⟨job, by rw [List.getElem?_set_ne hsame, hget], hjob⟩
  | waitIdle =>
    cases h
    exact ⟨job, hget, hjob⟩
  | resume waiter =>
    simp only [step] at h
    split at h
    · cases h
      exact ⟨job, hget, hjob⟩
    · cases h

/-- A released ticket's function has ended, or will never run. -/
theorem not_live_of_released (hok : job.Ok) (h : job.released = true) : job.live = false := by
  obtain ⟨-, hreleased, hnotBegun, -, habandoned, hstarted, -⟩ := hok
  rw [h] at hreleased
  grind [Job.live, Job.finished]

theorem not_live_of_idle (hs : g.Sound) (hidle : g.idleEvent = true) (hmem : job ∈ g.jobs) :
    job.live = false := by
  have hcount := hs.count
  rw [hs.idle.mp hidle] at hcount
  have hnone : (g.jobs.countP fun job => !job.released) = 0 := by omega
  have hreleased := List.countP_eq_zero.mp hnone job hmem
  exact not_live_of_released (hs.jobs job hmem) (by simpa using hreleased)

/-- Whether a wait ends in a step, and no ticket was admitted since it was woken. -/
def Returns (g : InflightGate) : Action → Prop
  | .waitIdle => g.idleEvent = true
  | .resume waiter => g.waiters[waiter]? = some (.woken false)
  | .admitTicket | .job _ _ => False

theorem idle_of_returns (hs : g.Sound) (h : Returns g a) : g.idleEvent = true := by
  cases a with
  | waitIdle => exact h
  | resume waiter => exact hs.woken _ (List.mem_of_getElem? h) rfl
  | admitTicket => cases h
  | job ticket action => cases h

/-- In every run each ticket is released once, the count is that of the jobs neither finished nor
abandoned, what was abandoned never runs, and a wait that no admission overtakes ends when nothing
runs or can start. -/
theorem gate_waits (h : Run {} actions g) :
    (∀ job ∈ g.jobs, job.releases ≤ 1 ∧
      (job.awaiter = .ended → job.worker ≠ .running → job.posted = false → job.releases = 1)) ∧
    (0 ≤ g.count ∧ g.count = (g.jobs.countP fun job => !(job.abandoned || job.finished) : ℕ)) ∧
    (∀ ticket, Abandoned g ticket → ∀ later g', Run g later g' →
      ∃ job, g'.jobs[ticket]? = some job ∧ job.abandoned = true ∧ job.started = false) ∧
    ∀ a, Returns g a → ∀ job ∈ g.jobs, job.live = false := by
  have hs := sound_run h
  refine ⟨fun job hjob => ?_, ⟨?_, ?_⟩, fun ticket hmark later g' hlater => ?_,
    fun a ha job hjob => ?_⟩
  · obtain ⟨hreleases, hreleased, -, hended, -, hstarted, -⟩ := hs.jobs job hjob
    refine ⟨by rw [hreleases]; split_ifs <;> omega, fun hend hworker hpost => ?_⟩
    have hopen : job.released = true := by grind [Job.finished]
    rw [hreleases, if_pos hopen]
  · have hcount := hs.count
    omega
  · rw [hs.count]
    congr 1
    refine List.countP_congr fun job hjob => ?_
    rw [(hs.jobs job hjob).released]
  · have hboth : g'.Sound ∧ Abandoned g' ticket :=
      hlater.invariant (P := fun s => s.Sound ∧ Abandoned s ticket)
        (fun hstep hi => ⟨sound_step hstep hi.1, abandoned_step hstep hi.1 hi.2⟩) ⟨hs, hmark⟩
    obtain ⟨hs', job, hget, habandoned⟩ := hboth
    exact ⟨job, hget, habandoned,
      ((hs'.jobs job (List.mem_of_getElem? hget)).abandoned habandoned).1⟩
  · exact not_live_of_idle hs (idle_of_returns hs ha) hjob

/-- The steps one after the other, none where one cannot be taken. -/
def runAll (g : InflightGate) (actions : List Action) : Option InflightGate := actions.foldlM step g

theorem run_of_runAll (h : runAll g actions = some g') : Run g actions g' := by
  induction actions generalizing g with
  | nil =>
    cases h
    exact .refl _
  | cons a actions ih =>
    obtain ⟨next, hnext, hrest⟩ := Option.bind_eq_some_iff.mp h
    exact .head hnext (ih hrest)

/-- One job that is run to its end, and one that is cancelled in the queue. -/
def twoJobs : List Action :=
  [.admitTicket, .admitTicket, .job 0 .submit, .job 1 .submit, .job 0 .begin, .job 1 .raise,
   .job 1 .begin, .job 0 .finish, .waitIdle, .job 0 .deliver]

theorem gate_waits_two : ∃ g, runAll {} twoJobs = some g ∧ g.count = 0 ∧ Returns g (.resume 0) ∧
    ∀ job ∈ g.jobs, job.live = false := by
  obtain ⟨g, hg⟩ : ∃ g, runAll {} twoJobs = some g := Option.isSome_iff_exists.mp (by decide)
  have hreturns : Returns g (.resume 0) := by
    cases hg
    rfl
  refine ⟨g, hg, ?_, hreturns, (gate_waits (run_of_runAll hg)).2.2.2 _ hreturns⟩
  cases hg
  rfl

/-- A wait that was woken ends while a job runs that was admitted in between. -/
theorem woken_wait_overtaken : ∃ g g', runAll {}
    [.admitTicket, .job 0 .submit, .waitIdle, .job 0 .begin, .job 0 .finish, .job 0 .deliver,
     .admitTicket, .job 1 .submit, .job 1 .begin] = some g ∧ g.step (.resume 0) = some g' ∧
       g'.waiters = [.returned] ∧
    ∃ job ∈ g'.jobs, job.worker = .running ∧ job.abandoned = false :=
  ⟨_, _, rfl, rfl, rfl, _, List.mem_cons_of_mem _ List.mem_cons_self, rfl, rfl⟩

end Gate

end Kaine.Inflight
