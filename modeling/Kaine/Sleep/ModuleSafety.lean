import Kaine.Lib.Transition
import Kaine.Sleep.Exclusive

/-! Over any run of the sleep module one pipeline runs at a time, and each ends what it began. -/
namespace Kaine.Sleep
open PerceptionState

variable {config : Config} {s s' : Sleep} {i n : ℕ} {task task' : Task} {pc : Pc}
  {outcome : Outcome} {new : List Event} {desired : Desired} {m : Move}

/-- Perception is suspended in a sleep, and otherwise as it was. -/
structure Perceives (desired : Desired) (s : Sleep) : Prop where
  asleep : s.sleepLock = true →
    s.preSleepLocus = some desired.locus ∧ s.desired = writeDesiredLocus desired .off
  awake : s.sleepLock = false → s.preSleepLocus = none ∧ s.desired = desired

theorem Perceives.of_eq (h : Perceives desired s) (hlock : s'.sleepLock = s.sleepLock)
    (hpre : s'.preSleepLocus = s.preSleepLocus) (hdesired : s'.desired = s.desired) :
    Perceives desired s' := by
  constructor
  · rw [hlock, hpre, hdesired]
    exact h.asleep
  · rw [hlock, hpre, hdesired]
    exact h.awake

theorem Perceives.enters (h : Perceives desired s) (he : Enters s s' i task) :
    Perceives desired s' := by
  cases he with
  | busy _ hsettled => exact h.of_eq hsettled.sleepLock hsettled.preSleepLocus hsettled.desired
  | entered hfree hentered =>
    obtain ⟨hpre, hdesired⟩ := h.awake hfree
    constructor
    · intro _
      rw [hentered.preSleepLocus, hentered.desired, hpre, hdesired]
      exact ⟨rfl, rfl⟩
    · intro hlock
      rw [hentered.sleepLock] at hlock
      cases hlock

theorem Perceives.left (h : Perceives desired s) (hlock : s.sleepLock = true)
    (hl : Left s s' i task pc) : Perceives desired s' := by
  obtain ⟨hpre, hdesired⟩ := h.asleep hlock
  constructor
  · intro hlock'
    rw [hl.sleepLock] at hlock'
    cases hlock'
  · intro _
    rw [hl.preSleepLocus, hl.desired, hpre, hdesired]
    exact ⟨rfl, writeDesiredLocus_back desired .off⟩

theorem Perceives.moved (h : Perceives desired s) (hx : Exclusive s) (hm : Moved s s' m) :
    Perceives desired s' := by
  cases hm with
  | outside ho _ => exact h.of_eq ho.sleepLock ho.preSleepLocus ho.desired
  | direct he =>
    have hdirect : Perceives desired s.withDirect := ⟨h.asleep, h.awake⟩
    exact hdirect.enters he
  | @begun i task _ _ he =>
    obtain ⟨pending, accepted, hnoted, -⟩ := noteRequest_eq s task
    rw [hnoted] at he
    have hstate : Perceives desired
        { s with pendingRest := pending, requestedRestAccepted := accepted } :=
      ⟨h.asleep, h.awake⟩
    exact hstate.enters he
  | dropped _ _ hdropped => exact hdropped ▸ h.of_eq rfl rfl rfl
  | within _ _ hwithin => exact h.of_eq hwithin.sleepLock hwithin.preSleepLocus hwithin.desired
  | @left i task outcome exn hi hin _ hleft =>
    obtain ⟨log, shielded, hpublished⟩ := published_eq s task outcome
    have hlock := hx.lock_of_inPipeline hi hin
    rw [hpublished] at hleft
    have hstate : Perceives desired { s with log := log, shieldedPublishes := shielded } :=
      ⟨h.asleep, h.awake⟩
    exact hstate.left hlock hleft
  | answered _ _ hsettled =>
    rw [written_eq] at hsettled
    exact h.of_eq hsettled.sleepLock hsettled.preSleepLocus hsettled.desired
  | @shielded written event rest _ hnext =>
    subst hnext
    split <;> exact h.of_eq rfl rfl rfl

/-- The steps of a sleep that are logged. -/
inductive Mark
  | started
  | reset
  | completed
deriving DecidableEq

def Event.mark : Event → Option (ℕ × Mark)
  | .started n _ _ => some (n, .started)
  | .reset n => some (n, .reset)
  | .completed n _ _ => some (n, .completed)
  | .restRequest _ _ => none

/-- The steps of one sleep, in the order in which they were logged. -/
def marks (n : ℕ) (log : List Event) : List Mark :=
  log.filterMap fun event => event.mark.bind fun mark => if mark.1 = n then some mark.2 else none

/-- The sleeps that the log names, in its order. -/
def sleeps (log : List Event) : List ℕ := log.filterMap fun event => event.mark.map (·.1)

/-- Events of one sleep only. -/
def Own (n : ℕ) (new : List Event) : Prop :=
  ∀ event ∈ new, ∀ mark, event.mark = some mark → mark.1 = n

theorem marks_append (n : ℕ) (log new : List Event) :
    marks n (log ++ new) = marks n log ++ marks n new :=
  List.filterMap_append ..

theorem sleeps_append (log new : List Event) : sleeps (log ++ new) = sleeps log ++ sleeps new :=
  List.filterMap_append ..

theorem marks_own (h : Own n new) {k : ℕ} (hk : k ≠ n) : marks k new = [] := by
  rw [marks, List.filterMap_eq_nil_iff]
  intro event he
  cases hmark : event.mark with
  | none => rfl
  | some mark =>
    have hne : mark.1 ≠ k := fun heq => hk (heq.symm.trans (h event he mark hmark))
    simp [hne]

theorem mem_sleeps_own (h : Own n new) {k : ℕ} (hk : k ∈ sleeps new) : k = n := by
  obtain ⟨event, he, hmark⟩ := List.mem_filterMap.1 hk
  obtain ⟨mark, hevent, rfl⟩ := Option.map_eq_some_iff.1 hmark
  exact h event he mark hevent

theorem marks_eq_nil {log : List Event} (h : n ∉ sleeps log) : marks n log = [] := by
  rw [marks, List.filterMap_eq_nil_iff]
  intro event he
  cases hmark : event.mark with
  | none => rfl
  | some mark =>
    have hne : mark.1 ≠ n := by
      rintro rfl
      exact h (List.mem_filterMap.2 ⟨event, he, by rw [hmark]; rfl⟩)
    simp [hne]

/-- What a sleep that is over has logged: all its steps, or only its end where it never was
announced. -/
def Finished (l : List Mark) : Prop :=
  l = [] ∨ l = [.completed] ∨ l = [.started, .reset, .completed]

/-- What the running sleep has logged so far. -/
def Pc.Expects (pc : Pc) (l : List Mark) : Prop :=
  match pc with
  | .startedPublish => l = []
  | .acceptedPublish _ | .phase _ | .holding | .housekeeping => l = [.started]
  | .reset _ | .audit | .completedPublish => l = [.started, .reset]
  | .abortPublish _ _ => l = [] ∨ l = [.started, .reset]
  | .scheduled | .answerPublish _ _ | .done => True

/-- An await ends as the sleep is written for: no cancel before the first step, between a started
event that went out and the body, of a completed event that went out, or of the wait for an aborted
one. -/
def Pc.Undisturbed (pc : Pc) (outcome : Outcome) : Prop :=
  match pc with
  | .scheduled | .abortPublish _ _ => outcome = .returned
  | .startedPublish => outcome.written = true → outcome = .returned
  | .acceptedPublish _ => outcome.exn ≠ some .cancelled
  | .completedPublish => outcome = .returned ∨ outcome = .cancelled false
  | _ => True

def Undisturbed (s : Sleep) (m : Move) : Prop :=
  ∀ i outcome task, m = .resume i outcome → s.tasks[i]? = some task → task.pc.Undisturbed outcome

theorem own_of_onward {held cut : Prop} (h : Onward n held cut pc new) : Own n new := by
  rcases h with ⟨rfl, -⟩ | ⟨rfl, -⟩
  · simp [Own]
  · simp [Own, Event.mark]

theorem own_said {event : Event} (h : Own n [event]) : Own n (said outcome event) := by
  unfold said
  split
  · exact h
  · simp [Own]

theorem own_startedEvent : Own s.sleepCount [s.startedEvent task] := by
  simp [Own, startedEvent, Event.mark]

theorem own_of_goes {pc' : Pc} (h : Goes s task pc outcome pc' new) : Own s.sleepCount new := by
  cases h with
  | started => exact own_startedEvent
  | unstarted => exact own_said own_startedEvent
  | accepted | acceptedCut => exact own_said (by simp [Own, Event.mark])
  | body _ honward => exact own_of_onward honward
  | resetDone | resetRaised | audited | auditCut => simp [Own]
  | uncompleted => exact own_said (by simp [Own, Event.mark])

/-- The log keeps up with the control flow. -/
theorem expects_of_goes {pc' : Pc} {l : List Mark} (h : Goes s task pc outcome pc' new)
    (hl : pc.Expects l) (hok : pc.Undisturbed outcome) :
    pc'.Expects (l ++ marks s.sleepCount new) := by
  cases h with
  | started h =>
    obtain rfl : l = [] := hl
    have hmarks : marks s.sleepCount [s.startedEvent task] = [.started] := by
      simp [marks, startedEvent, Event.mark]
    rw [hmarks]
    rcases h with ⟨rfl, -⟩ | ⟨_, rfl, -⟩ <;> rfl
  | unstarted resumable hexn =>
    obtain rfl : l = [] := hl
    have hsilent : outcome.written = false := by
      cases hw : outcome.written
      · rfl
      · rw [hok hw] at hexn
        cases hexn
    simp [Pc.Expects, said, hsilent, marks]
  | accepted =>
    obtain rfl : l = [.started] := hl
    have hmarks : ∀ pending, marks s.sleepCount (said outcome (.restRequest pending .accepted)) =
      [] := by
      intro pending
      unfold said
      split <;> simp [marks, Event.mark]
    rw [hmarks]
    rfl
  | acceptedCut resumable hexn => exact absurd hexn hok
  | body hpc honward =>
    have hl' : l = [.started] := by rcases hpc with rfl | rfl | ⟨_, rfl⟩ <;> exact hl
    subst hl'
    rcases honward with ⟨rfl, ⟨rfl, -⟩ | rfl | ⟨_, rfl⟩⟩ | ⟨rfl, _, rfl, -⟩
    · rfl
    · rfl
    · rfl
    · simp [Pc.Expects, marks, Event.mark]
  | resetDone | audited =>
    obtain rfl : l = [.started, .reset] := hl
    rfl
  | resetRaised | auditCut =>
    obtain rfl : l = [.started, .reset] := hl
    exact .inr rfl
  | uncompleted resumable hexn =>
    obtain rfl : l = [.started, .reset] := hl
    rcases hok with rfl | rfl
    · cases hexn
    · exact .inr rfl

/-- Each sleep's steps are logged in turn, and one sleep's before the next one's. -/
structure Recorded (s : Sleep) : Prop where
  past : ∀ n, (n = s.sleepCount → s.sleepLock = false) → Finished (marks n s.log)
  current : ∀ (i : ℕ) (task : Task), s.tasks[i]? = some task → task.pc.inPipeline = true →
    task.pc.Expects (marks s.sleepCount s.log)
  ordered : (sleeps s.log).Pairwise (· ≤ ·)
  bounded : ∀ n ∈ sleeps s.log, n ≤ s.sleepCount
  shielded : s.shieldedPublishes = []

/-- Events of the latest sleep keep the log in order. -/
theorem Recorded.ordered_append (h : Recorded s) (hown : Own s.sleepCount new) :
    (sleeps (s.log ++ new)).Pairwise (· ≤ ·) ∧ ∀ n ∈ sleeps (s.log ++ new), n ≤ s.sleepCount := by
  rw [sleeps_append]
  constructor
  · rw [List.pairwise_append]
    refine ⟨h.ordered, ?_, ?_⟩
    · refine List.pairwise_of_forall_mem_list fun a ha b hb => ?_
      rw [mem_sleeps_own hown ha, mem_sleeps_own hown hb]
    · intro a ha b hb
      rw [mem_sleeps_own hown hb]
      exact h.bounded a ha
  · intro n hn
    rcases List.mem_append.1 hn with hn | hn
    · exact h.bounded n hn
    · exact (mem_sleeps_own hown hn).le

theorem silent_nil (n : ℕ) : Own n [] ∧ marks n [] = [] := ⟨by simp [Own], rfl⟩

/-- A move outside the pipeline logs no step of a sleep. -/
theorem Recorded.idle (h : Recorded s)
    (hsilent : Own s.sleepCount new ∧ marks s.sleepCount new = []) (hlog : s'.log = s.log ++ new)
    (hlock : s'.sleepLock = s.sleepLock)
    (hcount : s'.sleepCount = s.sleepCount) (hshielded : s'.shieldedPublishes = s.shieldedPublishes)
    (htasks : ∀ (i : ℕ) (task : Task), s'.tasks[i]? = some task → task.pc.inPipeline = true →
      ∃ j : ℕ, s.tasks[j]? = some task) : Recorded s' := by
  have hmarks : ∀ n, marks n s'.log = marks n s.log := by
    intro n
    rw [hlog, marks_append]
    by_cases hn : n = s.sleepCount
    · rw [hn, hsilent.2, List.append_nil]
    · rw [marks_own hsilent.1 hn, List.append_nil]
  obtain ⟨hordered, hbounded⟩ := h.ordered_append hsilent.1
  constructor
  · intro n hn
    rw [hmarks]
    rw [hcount, hlock] at hn
    exact h.past n hn
  · intro i task hi hin
    obtain ⟨j, hj⟩ := htasks i task hi hin
    rw [hmarks, hcount]
    exact h.current j task hj hin
  · rw [hlog]
    exact hordered
  · rw [hlog, hcount]
    exact hbounded
  · rw [hshielded, h.shielded]

/-- A task that leaves or never was in the pipeline is not among those in it afterwards. -/
theorem mem_of_set {tasks : List Task} (h : (tasks.set i task')[n]? = some task)
    (hin : task.pc.inPipeline = true) (hout : task'.pc.inPipeline = false) :
    ∃ k : ℕ, tasks[k]? = some task := by
  by_cases hn : i = n
  · subst hn
    rw [List.getElem?_set_self'] at h
    cases hget : tasks[i]? with
    | none => simp [hget] at h
    | some old =>
      rw [hget] at h
      obtain rfl : task' = task := Option.some.inj h
      rw [hin] at hout
      cases hout
  · rw [List.getElem?_set_ne hn] at h
    exact ⟨n, h⟩

theorem Recorded.settled (h : Recorded s) (hs : Settled s s' i task pc) : Recorded s' := by
  refine h.idle (silent_nil _) (by rw [hs.log, List.append_nil]) hs.sleepLock
    hs.sleepCount hs.shieldedPublishes ?_
  intro n task' hn hin
  rw [hs.tasks] at hn
  exact mem_of_set hn hin (not_inPipeline_of_awaits hs.awaits)

/-- Nor does a task that is only scheduled. -/
theorem mem_of_append {tasks : List Task} (h : (tasks ++ [task'])[n]? = some task)
    (hin : task.pc.inPipeline = true) (hpc : task'.pc = .scheduled) :
    ∃ k : ℕ, tasks[k]? = some task := by
  rw [List.getElem?_append] at h
  split at h
  · exact ⟨n, h⟩
  · rw [List.getElem?_singleton] at h
    split at h
    · cases h
      rw [hpc] at hin
      cases hin
    · cases h

theorem Recorded.outside (h : Recorded s) (ho : Outside s s') : Recorded s' := by
  cases ho.does with
  | nothing htasks _ hlog _ =>
    exact h.idle (silent_nil _) (by rw [hlog, List.append_nil]) ho.sleepLock ho.sleepCount
      ho.shieldedPublishes fun i task hi _ => ⟨i, htasks ▸ hi⟩
  | schedules site _ _ htasks _ hlog _ =>
    refine h.idle (silent_nil _) (by rw [hlog, List.append_nil]) ho.sleepLock ho.sleepCount
      ho.shieldedPublishes fun i task hi hin => ?_
    rw [htasks] at hi
    exact mem_of_append hi hin rfl
  | refuses request _ _ htasks _ hlog _ =>
    exact h.idle ⟨by simp [Own, Event.mark], by simp [marks, Event.mark]⟩ hlog ho.sleepLock
      ho.sleepCount ho.shieldedPublishes fun i task hi _ => ⟨i, htasks ▸ hi⟩

/-- A move of the pipeline's task is the only thing that the record of it has to follow. -/
theorem Recorded.current_set (hx : Exclusive s') (htasks : s'.tasks = s.tasks.set i task')
    (hi : s.tasks[i]? = some task) (hin : task'.pc.inPipeline = true)
    (hexp : task'.pc.Expects (marks s'.sleepCount s'.log)) :
    ∀ (j : ℕ) (other : Task), s'.tasks[j]? = some other → other.pc.inPipeline = true →
      other.pc.Expects (marks s'.sleepCount s'.log) := by
  intro j other hj hother
  have hlt : i < s.tasks.length := (List.getElem?_eq_some_iff.1 hi).1
  have hself : s'.tasks[i]? = some task' := by rw [htasks, List.getElem?_set_self hlt]
  obtain rfl := hx.unique hself hj hin hother
  rw [hself] at hj
  cases hj
  exact hexp

theorem Recorded.enters (h : Recorded s) (hi : s.tasks[i]? = some task) (hx' : Exclusive s')
    (he : Enters s s' i task) : Recorded s' := by
  cases he with
  | busy _ hsettled => exact h.settled hsettled
  | @entered task' hfree hentered =>
    have hnew : marks (s.sleepCount + 1) s.log = [] :=
      marks_eq_nil fun hmem => absurd (h.bounded _ hmem) (by omega)
    constructor
    · intro n hn
      rw [hentered.log]
      refine h.past n fun _ => hfree
    · refine Recorded.current_set hx' hentered.tasks hi (by rw [hentered.pc]; rfl) ?_
      rw [hentered.pc, hentered.sleepCount, hentered.log]
      exact hnew
    · rw [hentered.log]
      exact h.ordered
    · intro n hn
      rw [hentered.log] at hn
      have hle := h.bounded n hn
      have hcount := hentered.sleepCount
      omega
    · rw [hentered.shieldedPublishes, h.shielded]

theorem Recorded.within (h : Recorded s) (hi : s.tasks[i]? = some task) (hx : Exclusive s)
    (hx' : Exclusive s') (hin : task.pc.inPipeline = true) (hw : Within s s' i task pc new)
    (hgoes : Goes s task task.pc outcome pc new) (hok : task.pc.Undisturbed outcome) :
    Recorded s' := by
  have hown := own_of_goes hgoes
  have hlock := hx.lock_of_inPipeline hi hin
  obtain ⟨hordered, hbounded⟩ := h.ordered_append hown
  constructor
  · intro n hn
    rw [hw.sleepCount, hw.sleepLock, hlock] at hn
    have hne : n ≠ s.sleepCount := fun heq => absurd (hn heq) (by simp)
    rw [hw.log, marks_append, marks_own hown hne, List.append_nil]
    exact h.past n fun heq => absurd heq hne
  · refine Recorded.current_set hx' hw.tasks hi hgoes.inPipeline ?_
    rw [hw.sleepCount, hw.log, marks_append]
    exact expects_of_goes hgoes (h.current i task hi hin) hok
  · rw [hw.log]
    exact hordered
  · rw [hw.log, hw.sleepCount]
    exact hbounded
  · rw [hw.shieldedPublishes, h.shielded]

/-- Undisturbed, the last publish of a pipeline puts the one end of its sleep on the stream. -/
theorem published_of_leaves {exn : Option Exn} (hl : Leaves task.pc outcome exn)
    (hok : task.pc.Undisturbed outcome) : ∃ aborted resumable,
      s.published task outcome = s.publish (.completed s.sleepCount aborted resumable) := by
  cases hpc : task.pc with
  | completedPublish => exact ⟨none, false, by simp [Sleep.published, hpc]⟩
  | abortPublish exn resumable =>
    rw [hpc] at hok
    obtain rfl : outcome = .returned := hok
    exact ⟨some exn, resumable, by simp [Sleep.published, hpc, Sleep.written, Outcome.written]⟩
  | _ =>
    rw [hpc] at hl
    cases hl

theorem finished_of_leaves {exn : Option Exn} {l : List Mark} (hl : Leaves pc outcome exn)
    (hexp : pc.Expects l) : Finished (l ++ [.completed]) := by
  cases hl with
  | completed =>
    obtain rfl : l = [.started, .reset] := hexp
    exact .inr (.inr rfl)
  | aborted | cut =>
    rcases hexp with rfl | rfl
    · exact .inr (.inl rfl)
    · exact .inr (.inr rfl)

theorem Recorded.left {exn : Option Exn} (h : Recorded s) (hi : s.tasks[i]? = some task)
    (hin : task.pc.inPipeline = true) (hleaves : Leaves task.pc outcome exn)
    (hok : task.pc.Undisturbed outcome) (hx' : Exclusive s')
    (hl : Left (s.published task outcome) s' i task pc) : Recorded s' := by
  obtain ⟨aborted, resumable, hpublished⟩ := published_of_leaves (s := s) hleaves hok
  rw [hpublished] at hl
  have hlog : s'.log = s.log ++ [.completed s.sleepCount aborted resumable] := hl.log
  have hcount : s'.sleepCount = s.sleepCount := hl.sleepCount
  have hown : Own s.sleepCount [.completed s.sleepCount aborted resumable] := by
    simp [Own, Event.mark]
  have hmarks : marks s.sleepCount [.completed s.sleepCount aborted resumable] = [.completed] := by
    simp [marks, Event.mark]
  obtain ⟨hordered, hbounded⟩ := h.ordered_append hown
  constructor
  · intro n _
    rw [hlog, marks_append]
    by_cases hn : n = s.sleepCount
    · rw [hn, hmarks]
      exact finished_of_leaves hleaves (h.current i task hi hin)
    · rw [marks_own hown hn, List.append_nil]
      exact h.past n fun heq => absurd heq hn
  · intro j other hj hother
    have hlock := hx'.lock_of_inPipeline hj hother
    rw [hl.sleepLock] at hlock
    cases hlock
  · rw [hlog]
    exact hordered
  · rw [hlog, hcount]
    exact hbounded
  · exact hl.shieldedPublishes.trans h.shielded

theorem Recorded.moved (h : Recorded s) (hx : Exclusive s) (hx' : Exclusive s') (hm : Moved s s' m)
    (hok : Undisturbed s m) : Recorded s' := by
  cases hm with
  | outside ho _ => exact h.outside ho
  | direct he =>
    have hdirect : Recorded s.withDirect := by
      refine h.idle (silent_nil _) (List.append_nil _).symm rfl rfl rfl ?_
      exact fun i task hi hin => mem_of_append hi hin rfl
    exact hdirect.enters (getElem?_withDirect s) hx' he
  | @begun i task hi _ he =>
    obtain ⟨pending, accepted, hnoted, -⟩ := noteRequest_eq s task
    rw [hnoted] at he
    have hstate : Recorded { s with pendingRest := pending, requestedRestAccepted := accepted } :=
      ⟨h.past, h.current, h.ordered, h.bounded, h.shielded⟩
    exact hstate.enters hi hx' he
  | @dropped i task written hi hpc _ =>
    have hran := hok i _ task rfl hi
    rw [hpc] at hran
    cases hran
  | within hi hin hwithin hgoes => exact h.within hi hx hx' hin hwithin hgoes (hok _ _ _ rfl hi)
  | left hi hin hleaves hleft => exact h.left hi hin hleaves (hok _ _ _ rfl hi) hx' hleft
  | @answered i task outcome request answer hi hpc hsettled =>
    rw [written_eq] at hsettled
    have hsilent : Own s.sleepCount (said outcome (.restRequest request answer)) ∧
        marks s.sleepCount (said outcome (.restRequest request answer)) = [] := by
      refine ⟨own_said (by simp [Own, Event.mark]), ?_⟩
      unfold said
      split <;> simp [marks, Event.mark]
    have hlogged : Recorded { s with log := s.log ++ said outcome (.restRequest request answer) } :=
      h.idle hsilent rfl rfl rfl rfl fun j other hj _ => ⟨j, hj⟩
    exact hlogged.settled hsettled
  | shielded hshielded => simp [h.shielded] at hshielded

/-- No active module's oscillator has a scale but the one that the first phase sets. -/
def Slowed (scales : List (Option ℚ)) : Prop :=
  ∀ scale ∈ scales, scale = none ∨ scale = some (1 / 2)

theorem map_slowed {scales : List (Option ℚ)} (h : Slowed scales) :
    scales.map (Option.map fun _ => 1 / 2) = scales := by
  have hsame : ∀ scale ∈ scales, scale.map (fun _ => (1 / 2 : ℚ)) = scale := by
    intro scale hscale
    rcases h scale hscale with rfl | rfl <;> rfl
  rw [List.map_congr_left hsame, List.map_id']

theorem driveScales_moved (h : Slowed s.driveScales) (hm : Moved s s' m) :
    s'.driveScales = s.driveScales := by
  have henters (t : Sleep) (i : ℕ) (task : Task) (ht : t.driveScales = s.driveScales)
      (he : Enters t s' i task) : s'.driveScales = s.driveScales := by
    cases he with
    | entered _ hentered => exact hentered.driveScales.trans ht
    | busy _ hsettled => exact hsettled.driveScales.trans ht
  cases hm with
  | outside ho _ => exact ho.driveScales
  | direct he => exact henters s.withDirect _ _ rfl he
  | @begun i task _ _ he =>
    obtain ⟨pending, accepted, hnoted, -⟩ := noteRequest_eq s task
    rw [hnoted] at he
    exact henters { s with pendingRest := pending, requestedRestAccepted := accepted } _ _ rfl he
  | dropped _ _ hdropped => exact hdropped ▸ rfl
  | within _ _ hwithin =>
    rcases hwithin.driveScales with hsame | hmapped
    · exact hsame
    · rw [hmapped, map_slowed h]
  | @left i task outcome _ _ _ _ hleft =>
    obtain ⟨log, shielded, hpublished⟩ := published_eq s task outcome
    rw [hpublished] at hleft
    exact hleft.driveScales
  | answered _ _ hsettled =>
    rw [written_eq] at hsettled
    exact hsettled.driveScales
  | @shielded written _ _ _ hnext =>
    subst hnext
    split <;> rfl

/-- No sleep yet, and nothing published. -/
structure Fresh (s : Sleep) : Prop where
  tasks : s.tasks = []
  log : s.log = []
  sleepLock : s.sleepLock = false
  sleepPending : s.sleepPending = false
  preSleepLocus : s.preSleepLocus = none
  shieldedPublishes : s.shieldedPublishes = []

theorem Fresh.exclusive (h : Fresh s) : Exclusive s :=
  ⟨by simp [h.tasks, h.sleepLock], by simp [h.tasks, h.sleepPending]⟩

theorem fresh_initial (config : Config) (now paused : ℚ) (desired : Desired)
    (driveScales : List (Option ℚ)) (awaits : Bool) :
    Fresh (initial config now paused desired driveScales awaits) :=
  ⟨rfl, rfl, rfl, rfl, rfl, rfl⟩

/-- A move of the module as a step of a run. -/
def Steps (config : Config) (s : Sleep) (m : Move) (s' : Sleep) : Prop := step config s m = some s'

open Transition in
theorem orderly_run {ms : List Move} (hfresh : Fresh s)
    (hrun : Run (Guarded Undisturbed (Steps config)) s ms s') :
    Exclusive s' ∧ s'.sleepPending.toNat ≤ s'.tasks.countP Task.owes ∧ Perceives s.desired s' ∧
      Recorded s' := by
  refine hrun.invariant (P := fun t => Exclusive t ∧
    t.sleepPending.toNat ≤ t.tasks.countP Task.owes ∧ Perceives s.desired t ∧ Recorded t) ?_ ?_
  · rintro t m t' ⟨hok, hstep⟩ ⟨hx, hcleared, hperceives, hrecorded⟩
    have hm := moved_of_step hstep
    obtain ⟨hx', hbalanced⟩ := hx.moved hm
    refine ⟨hx', ?_, hperceives.moved hx hm, hrecorded.moved hx hx' hm hok⟩
    rcases hbalanced with hbalanced | ⟨i, written, task, rfl, hi, hpc⟩
    · unfold Balanced at hbalanced
      omega
    · have hran := hok i _ task rfl hi
      rw [hpc] at hran
      cases hran
  · have hx := hfresh.exclusive
    obtain ⟨htasks, hlog, hlock, hpending, hpre, hshielded⟩ := hfresh
    refine ⟨hx, by simp [hpending], ⟨by simp [hlock], fun _ => ⟨hpre, rfl⟩⟩,
      ⟨?_, by simp [htasks], by simp [hlog, sleeps], by simp [hlog, sleeps], hshielded⟩⟩
    intro n _
    rw [hlog]
    exact .inl rfl

def Event.IsStarted : Event → Prop
  | .started _ _ _ => True
  | _ => False

/-- The mark of an event in one sleep's record. -/
theorem mark_eq {event : Event} {mark : Mark}
    (h : (event.mark.bind fun m => if m.1 = n then some m.2 else none) = some mark) :
    event.mark = some (n, mark) := by
  obtain ⟨⟨k, mark'⟩, hmark, hk⟩ := Option.bind_eq_some_iff.1 h
  split at hk
  · rename_i hkn
    cases hk
    rw [hmark, ← hkn]
  · cases hk

theorem split_of_started {a b : List Mark}
    (h : a ++ Mark.started :: b = [.started, .reset, .completed]) :
    a = [] ∧ b = [.reset, .completed] := by
  rcases a with _ | ⟨x, _ | ⟨y, _ | ⟨z, rest⟩⟩⟩
  · exact ⟨rfl, (List.cons.inj h).2⟩
  · simp at h
  · simp at h
  · simp at h

theorem mem_marks_of_started {log : List Event} {trigger : Option Trigger} {restSeconds : Option ℚ}
    (h : Event.started n trigger restSeconds ∈ log) : Mark.started ∈ marks n log :=
  List.mem_filterMap.2 ⟨_, h, by simp [Event.mark]⟩

/-- The three steps of a sleep, from the place where its start stands in the log. -/
theorem followed {log pre post : List Event} {trigger : Option Trigger} {restSeconds : Option ℚ}
    (hfinished : Finished (marks n log)) (hordered : (sleeps log).Pairwise (· ≤ ·))
    (hlog : log = pre ++ .started n trigger restSeconds :: post) :
    ∃ mid aborted resumable rest, post = mid ++ .completed n aborted resumable :: rest ∧
      (∀ event ∈ mid, ¬ event.IsStarted) ∧ marks n mid = [.reset] ∧ marks n pre = [] ∧
        marks n rest = [] := by
  have hmarks : marks n log = marks n pre ++ .started :: marks n post := by
    rw [hlog, marks_append]
    simp [marks, Event.mark]
  obtain ⟨hpre, hpost⟩ : marks n pre = [] ∧ marks n post = [.reset, .completed] := by
    rw [hmarks] at hfinished
    rcases hfinished with h | h | h
    · simp at h
    · rcases hpre : marks n pre with _ | ⟨x, rest⟩
      · simp [hpre] at h
      · simp [hpre] at h
    · exact split_of_started h
  -- The reset comes first, and the end after it.
  obtain ⟨front, resetEvent, back, rfl, hfront, hreset, hback⟩ := List.filterMap_eq_cons_iff.1 hpost
  obtain ⟨front', endEvent, rest, rfl, hfront', hend, hrest⟩ := List.filterMap_eq_cons_iff.1 hback
  have hmid : marks n (front ++ resetEvent :: front') = [.reset] := by
    rw [marks_append, marks, marks, List.filterMap_eq_nil_iff.2 hfront, List.filterMap_cons, hreset,
      List.filterMap_eq_nil_iff.2 hfront']
    rfl
  obtain ⟨aborted, resumable, rfl⟩ : ∃ aborted resumable, endEvent =
    .completed n aborted resumable := by
    have hmark := mark_eq hend
    cases endEvent <;> simp_all [Event.mark]
  have hsplit : front ++ resetEvent :: (front' ++ .completed n aborted resumable :: rest) =
      (front ++ resetEvent :: front') ++ .completed n aborted resumable :: rest := by simp
  refine ⟨front ++ resetEvent :: front', aborted, resumable, rest, hsplit, ?_, hmid, hpre, hrest⟩
  -- A start in between would be of the same sleep, whose record has none there.
  intro event hevent hstarted
  cases event with
  | started k trigger' restSeconds' =>
    have hk : k ∈ sleeps (front ++ resetEvent :: front') := List.mem_filterMap.2 ⟨_, hevent, rfl⟩
    have hsleeps : sleeps log =
        sleeps pre ++ n :: (sleeps (front ++ resetEvent :: front') ++ n :: sleeps rest) := by
      rw [hlog, hsplit, sleeps_append]
      exact congrArg (fun l => sleeps pre ++ n :: l) (sleeps_append ..)
    rw [hsleeps, List.pairwise_append] at hordered
    obtain ⟨-, hordered, -⟩ := hordered
    obtain ⟨hfrom, hordered⟩ := List.pairwise_cons.1 hordered
    have hle : n ≤ k := hfrom k (List.mem_append_left _ hk)
    have hge : k ≤ n := (List.pairwise_append.1 hordered).2.2 k hk n (by simp)
    obtain rfl : k = n := le_antisymm hge hle
    have hmem := mem_marks_of_started hevent
    rw [hmid] at hmem
    simp at hmem
  | completed _ _ _ | reset _ | restRequest _ _ => exact hstarted

open Transition in
/-- What a sleep begins it ends, over any run in which no cancel falls where the code does not
expect one. -/
theorem sleep_leaves_nothing {ms : List Move} (hfresh : Fresh s)
    (hrun : Run (Guarded Undisturbed (Steps config)) s ms s') :
    (s'.tasks.countP (·.pc.inPipeline) ≤ 1 ∧
      (s'.sleepLock = true ↔ ∃ task ∈ s'.tasks, task.pc.inPipeline = true)) ∧
    (∀ pre n trigger restSeconds post, s'.log = pre ++ .started n trigger restSeconds :: post →
      (n = s'.sleepCount → s'.sleepLock = false) →
        ∃ mid aborted resumable rest, post = mid ++ .completed n aborted resumable :: rest ∧
          (∀ event ∈ mid, ¬ event.IsStarted) ∧ marks n mid = [.reset] ∧ marks n pre = [] ∧
            marks n rest = []) ∧
    (s'.sleepLock = true → s'.desired = writeDesiredLocus s.desired .off) ∧
    (s'.sleepLock = false → s'.desired = s.desired) ∧
    ((∀ task ∈ s'.tasks, task.owes = false) → s'.sleepPending = false) ∧
    (Slowed s.driveScales → s'.driveScales = s.driveScales) := by
  obtain ⟨hx, hcleared, hperceives, hrecorded⟩ := orderly_run hfresh hrun
  refine ⟨⟨?_, ?_⟩, ?_, fun h => (hperceives.asleep h).2, fun h => (hperceives.awake h).2, ?_, ?_⟩
  · rw [hx.running]
    exact Bool.toNat_le _
  · have hrunning := hx.running
    constructor
    · intro hlock
      rw [hlock] at hrunning
      have hpos : 0 < s'.tasks.countP (·.pc.inPipeline) := by
        rw [hrunning]
        exact Nat.one_pos
      exact List.countP_pos_iff.1 hpos
    · rintro ⟨task, htask, hin⟩
      obtain ⟨i, hi⟩ := List.getElem?_of_mem htask
      exact hx.lock_of_inPipeline hi hin
  · intro pre n trigger restSeconds post hlog hover
    exact followed (hrecorded.past n hover) hrecorded.ordered hlog
  · intro hdone
    rw [List.countP_eq_zero.2 (by simpa using hdone)] at hcleared
    cases hpending : s'.sleepPending
    · rfl
    · rw [hpending] at hcleared
      cases hcleared
  · intro hslowed
    have hkept : s'.driveScales = s.driveScales := by
      refine hrun.invariant (P := fun t => t.driveScales = s.driveScales) ?_ rfl
      rintro t m t' ⟨-, hstep⟩ ht
      rw [driveScales_moved (ht ▸ hslowed) (moved_of_step hstep), ht]
    exact hkept

/-- Rests as long as the awake time between them, and no housekeeping. -/
def evenConfig : Config where
  restS := 10
  quiescentShare := 1 / 2
  restS_pos := by norm_num
  share_pos := by norm_num
  share_lt := by norm_num
  requestedRestMinIntervalS := 0
  housekeeper := false

def evenStart (desired : Desired) (driveScales : List (Option ℚ)) : Sleep :=
  initial evenConfig 0 0 desired driveScales false

/-- All moves in turn. -/
def runMoves (config : Config) (s : Sleep) (ms : List Move) : Option Sleep :=
  ms.foldlM (step config) s

open Transition in
/-- Moves that are all as a run's condition asks are such a run. -/
theorem run_of_runMoves {ok : Sleep → Move → Prop} {ms : List Move}
    (h : runMoves config s ms = some s') (hok : ∀ s, ∀ m ∈ ms, ok s m) :
    Run (Guarded ok (Steps config)) s ms s' :=
  Run.foldlM h fun s _ m hm hstep => ⟨hok s m hm, hstep⟩

theorem undisturbed_returned (s : Sleep) (i : ℕ) : Undisturbed s (.resume i .returned) := by
  rintro _ _ task hm -
  cases hm
  unfold Pc.Undisturbed
  split <;> simp [Outcome.exn]

/-- A direct call whose sleep runs to its end. -/
def wholeSleep : List Move := .enterSleep :: List.replicate 10 (.resume 0 .returned)

theorem sleep_leaves_nothing_direct : ∃ s',
    runMoves evenConfig (evenStart ⟨.physical, false⟩ [some (1 / 2)]) wholeSleep = some s' ∧
    s'.desired.locus = .physical ∧ s'.driveScales = [some (1 / 2)] ∧ s'.sleepPending = false ∧
    ∃ mid aborted resumable rest,
      s'.log = .started 1 none none :: (mid ++ .completed 1 aborted resumable :: rest) ∧
      marks 1 mid = [.reset] := by
  have hend : (runMoves evenConfig (evenStart ⟨.physical, false⟩ [some (1 / 2)]) wholeSleep).map
      (fun s => (s.sleepLock, s.tasks.any Task.owes, s.log.take 1)) =
        some (false, false, [.started 1 none none]) := by decide +kernel
  obtain ⟨s', hs', hend⟩ := Option.map_eq_some_iff.mp hend
  obtain ⟨hlock, hend⟩ := Prod.mk.inj hend
  obtain ⟨howes, hlog⟩ := Prod.mk.inj hend
  obtain ⟨post, hpost⟩ : ∃ post, s'.log = .started 1 none none :: post :=
    ⟨s'.log.drop 1, by rw [← List.take_append_drop 1 s'.log, hlog]; rfl⟩
  have hcalm : ∀ s, ∀ m ∈ wholeSleep, Undisturbed s m := by
    intro s m hm
    rcases List.mem_cons.mp hm with rfl | hm
    · intro i outcome task hresume
      cases hresume
    · rw [List.eq_of_mem_replicate hm]
      exact undisturbed_returned s 0
  obtain ⟨-, hfollowed, -, hawake, hcleared, hslowed⟩ := sleep_leaves_nothing
    (fresh_initial evenConfig 0 0 ⟨.physical, false⟩ [some (1 / 2)] false)
    (run_of_runMoves hs' hcalm)
  obtain ⟨mid, aborted, resumable, rest, rfl, -, hmid, -⟩ :=
    hfollowed [] 1 none none post hpost fun _ => hlock
  refine ⟨s', hs', ?_, hslowed (by simp [Slowed, initial]), hcleared ?_, mid, aborted, resumable,
    rest, hpost, hmid⟩
  · rw [hawake hlock]
    rfl
  · intro task htask
    simpa using List.any_eq_false.mp howes task htask

/-- What is left behind where development holds the locus, where a module has an oscillator, and
where a cancel falls before the first step, at the acceptance, or at the completed event. -/
theorem sleep_leaves_traces :
    (runMoves evenConfig (evenStart ⟨.virtual, true⟩ []) [.enterSleep]).map
        (fun s => (s.sleepLock, s.desired.locus)) = some (true, .virtual) ∧
    (runMoves evenConfig (evenStart ⟨.physical, false⟩ [some 1])
        (.enterSleep :: List.replicate 10 (.resume 0 .returned))).map
        (fun s => (s.sleepLock, s.driveScales)) = some (false, [some (1 / 2)]) ∧
    (runMoves evenConfig (evenStart ⟨.physical, false⟩ [])
        [.regulation, .resume 0 (.cancelled false)]).map
        (fun s => (s.tasks.map Task.owes, s.sleepPending)) = some ([false], true) ∧
    (runMoves evenConfig (evenStart ⟨.physical, false⟩ [])
        [.restRequest .null .null, .resume 0 .returned, .resume 0 .returned,
          .resume 0 (.cancelled true), .resume 0 .returned]).map (fun s => marks 1 s.log) =
            some [.started, .completed] ∧
    (runMoves evenConfig (evenStart ⟨.physical, false⟩ [])
        (.enterSleep :: List.replicate 9 (.resume 0 .returned) ++
          [.resume 0 (.cancelled true), .resume 0 .returned])).map (fun s => marks 1 s.log) =
        some [.started, .reset, .completed, .completed] := by
  decide +kernel

end Kaine.Sleep
