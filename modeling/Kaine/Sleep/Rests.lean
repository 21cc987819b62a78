import Kaine.Sleep.Exclusive

/-! What the moves of a sleep do to the state cycle. -/
namespace Kaine.Sleep

variable {config : Config} {s s' : Sleep} {i : ℕ} {task : Task} {pc : Pc} {outcome : Outcome}

theorem StateCycle.cut_awake {cycle : StateCycle} (h : cycle.phase = .awake) (exn : Exn)
    (now paused : ℚ) : cycle.cut exn now paused = { cycle with restBegan := none } := by
  cases exn <;> simp [StateCycle.cut, h]

theorem StateCycle.cut_cancelled {cycle : StateCycle} {began : ℚ} (h : cycle.phase = .resting)
    (hbegan : cycle.restBegan = some began) (now paused : ℚ) : cycle.cut .cancelled now paused =
      { cycle with restSpentS := cycle.restElapsed now paused began, restBegan := none } := by
  simp [StateCycle.cut, h, hbegan]

theorem StateCycle.cut_failure {cycle : StateCycle} (h : cycle.phase = .resting) (now paused : ℚ) :
    cycle.cut .failure now paused = { cycle.reset now with restBegan := none } := by
  simp [StateCycle.cut, h]

/-- Before a held rest has run its length. -/
def Pc.unspent : Pc → Bool
  | .startedPublish | .acceptedPublish _ | .phase _ | .holding => true
  | _ => false

/-- After a rest, with nothing raised since. -/
def Pc.rested : Pc → Bool
  | .housekeeping | .reset none | .audit | .completedPublish => true
  | _ => false

/-- The cycle after a move inside the pipeline, by the await that it leads to: a held rest ends
where it has run its length or is cut, and any other completed sleep restarts the awake stretch. -/
inductive Recycles (config : Config) (cycle : StateCycle) (now paused : ℚ) (held : Bool)
    (task : Task) : Pc → StateCycle → Prop
  | same {pc : Pc} (h : held = true → (∀ exn resumable, pc ≠ .abortPublish exn resumable) ∧
      (pc.unspent = true → task.pc.unspent = true) ∧ (pc.rested = true → task.pc.rested = true)) :
      Recycles config cycle now paused held task pc cycle
  | cut (exn : Exn) (resumable : Bool) (h : held = true) :
      Recycles config cycle now paused held task (.abortPublish exn resumable)
        (cycle.cut exn now paused)
  | ended {pc : Pc} (hpc : pc.rested = true) (hfrom : held = true ∨ task.pc = .holding)
      (hunspent : task.pc.unspent = true)
      (h : config.restS ≤ cycle.restElapsed now paused task.restStarted) :
      Recycles config cycle now paused held task pc (cycle.reset now)
  | completed (h : held = false) (hawake : cycle.phase = .awake) :
      Recycles config cycle now paused held task .completedPublish (cycle.reset now)

/-- A turn of a coroutine inside the pipeline. -/
structure Turns (config : Config) (s s' : Sleep) (i : ℕ) (task : Task) (pc : Pc) : Prop where
  tasks : s'.tasks = s.tasks.set i { task with pc := pc }
  now : s'.now = s.now
  paused : s'.paused = s.paused
  cycle : Recycles config s.cycle s.now s.paused (s.holds task) task pc s'.cycle

theorem turns_abort (config : Config) (s : Sleep) (i : ℕ) (task : Task) (exn : Exn) : ∃ resumable,
    Turns config s (s.abort i task exn) i task (.abortPublish exn resumable) := by
  unfold abort
  split
  · rename_i hholds
    exact ⟨_, rfl, rfl, rfl, .cut exn _ hholds⟩
  · rename_i hholds
    exact ⟨false, rfl, rfl, rfl, .same fun hheld => absurd hheld hholds⟩

theorem turns_runFinalAffectiveReset (config : Config) (s : Sleep) (i : ℕ) (task : Task)
    {exn : Option Exn} (h : s.holds task = true → exn = none → task.pc.rested = true) :
    Turns config s (s.runFinalAffectiveReset i task exn) i task (.reset exn) := by
  refine ⟨rfl, rfl, rfl, .same fun hheld => ⟨by simp, by simp [Pc.unspent], fun hrested => ?_⟩⟩
  cases exn with
  | none => exact h hheld rfl
  | some exn => cases hrested

/-- Where the body ends, the cycle is as it was, or was reset as the hold ended. -/
theorem runHousekeeping_eq (config : Config) (s : Sleep) (i : ℕ) (task : Task) :
    ∃ pc, pc.rested = true ∧ (∀ exn resumable, pc ≠ .abortPublish exn resumable) ∧
      pc.unspent = false ∧
    (runHousekeeping config s i task).tasks = s.tasks.set i { task with pc := pc } ∧
    (runHousekeeping config s i task).now = s.now ∧ (runHousekeeping config s i task).paused =
      s.paused ∧
    (runHousekeeping config s i task).cycle = s.cycle := by
  unfold runHousekeeping
  split
  · exact ⟨.housekeeping, rfl, by simp, rfl, rfl, rfl, rfl, rfl⟩
  · exact ⟨.reset none, rfl, by simp, rfl, rfl, rfl, rfl, rfl⟩

theorem turns_runHousekeeping (config : Config) (s : Sleep) (i : ℕ) (task : Task)
    (h : s.holds task = true → task.pc.rested = true) :
    ∃ pc, Turns config s (runHousekeeping config s i task) i task pc := by
  obtain ⟨pc, -, hne, hunspent, htasks, hnow, hpaused, hcycle⟩ := runHousekeeping_eq config s i task
  refine ⟨pc, htasks, hnow, hpaused, ?_⟩
  rw [hcycle]
  exact .same fun hheld => ⟨hne, by simp [hunspent], fun _ => h hheld⟩

theorem turns_holdDevelopmentalRest (config : Config) (s : Sleep) (i : ℕ) (task : Task)
    (hfrom : s.holds task = true ∨ task.pc = .holding) (hunspent : task.pc.unspent = true) :
    ∃ pc, Turns config s (holdDevelopmentalRest config s i task) i task pc := by
  unfold holdDevelopmentalRest
  split_ifs with hstopped hfull
  · exact ⟨_, turns_runFinalAffectiveReset config s i task (by simp)⟩
  · obtain ⟨pc, hrested, -, -, htasks, hnow, hpaused, hcycle⟩ := runHousekeeping_eq config
      { s with cycle := s.cycle.reset s.now } i task
    refine ⟨pc, htasks, hnow, hpaused, ?_⟩
    rw [hcycle]
    exact .ended hrested hfrom hunspent (by linarith)
  · exact ⟨.holding, rfl, rfl, rfl, .same fun _ => ⟨by simp,
      fun _ => hunspent, by simp [Pc.rested]⟩⟩

theorem turns_lightConsolidation (config : Config) (s : Sleep) (i : ℕ) (task : Task)
    (h : task.pc.unspent = true) :
    Turns config s (s.lightConsolidation i task) i task (.phase .lightConsolidation) :=
  ⟨rfl, rfl, rfl, .same fun _ => ⟨by simp, fun _ => h, by simp [Pc.rested]⟩⟩

theorem turns_afterPhase (config : Config) (s : Sleep) (i : ℕ) {task : Task} {phase : Phase}
    (h : task.pc = .phase phase) :
    ∃ pc, Turns config s (afterPhase config s i task phase) i task pc := by
  have hunspent : task.pc.unspent = true := by
    rw [h]
    rfl
  unfold afterPhase
  split
  · exact ⟨_, rfl, rfl, rfl, .same fun _ => ⟨by simp, fun _ => hunspent, by simp [Pc.rested]⟩⟩
  · split
    · rename_i hholds
      exact turns_holdDevelopmentalRest config s i task (.inl hholds) hunspent
    · rename_i hholds
      exact turns_runHousekeeping config s i task fun hheld => absurd hheld hholds

theorem turns_afterStarted (config : Config) (s : Sleep) (i : ℕ) {task : Task}
    (h : task.pc = .startedPublish) : ∃ pc, Turns config s (s.afterStarted i task) i task pc := by
  have hunspent : task.pc.unspent = true := by
    rw [h]
    rfl
  unfold afterStarted
  split
  · split
    · exact ⟨_, rfl, rfl, rfl, .same fun _ => ⟨by simp, fun _ => hunspent, by simp [Pc.rested]⟩⟩
    · exact ⟨_, turns_lightConsolidation config s i task hunspent⟩
  · exact ⟨_, turns_lightConsolidation config s i task hunspent⟩

theorem turns_completeSleep (config : Config) (s : Sleep) (i : ℕ) {task : Task}
    (h : task.pc = .audit) : Turns config s (s.completeSleep i task) i task .completedPublish := by
  unfold completeSleep
  split
  · rename_i hother
    exact ⟨rfl, rfl, rfl, .completed (by simpa using hother.1) hother.2⟩
  · refine ⟨rfl, rfl, rfl, .same fun _ => ⟨by simp, by simp [Pc.unspent], fun _ => ?_⟩⟩
    rw [h]
    rfl

/-- What is on the stream does not matter to the cycle. -/
theorem Turns.written {event : Event} (h : Turns config (s.written outcome event) s' i task pc) :
    Turns config s s' i task pc := by
  rw [written_eq] at h
  exact ⟨h.tasks, h.now, h.paused, h.cycle⟩

/-- A coroutine that does not leave the pipeline takes a turn in it. -/
theorem turns_of_goes {new : List Event} {pc' : Pc} (h : resume config s i task outcome = some s')
    (hpc : task.pc.inPipeline = true) (hgoes : Goes s task task.pc outcome pc' new) :
    ∃ pc, Turns config s s' i task pc := by
  cases hfrom : task.pc with
  | scheduled | answerPublish _ _ | done => simp [hfrom, Pc.inPipeline] at hpc
  | startedPublish =>
    simp only [resume, hfrom] at h
    split at h
    · cases h
      obtain ⟨pc, hturns⟩ :=
        turns_afterStarted config (s.written outcome (s.startedEvent task)) i hfrom
      exact ⟨pc, hturns.written⟩
    · cases h
      obtain ⟨resumable, hturns⟩ :=
        turns_abort config (s.written outcome (s.startedEvent task)) i task _
      exact ⟨_, hturns.written⟩
  | acceptedPublish pending =>
    have hunspent : task.pc.unspent = true := by
      rw [hfrom]
      rfl
    have hlight := turns_lightConsolidation config
      (s.written outcome (.restRequest pending .accepted)) i task hunspent
    simp only [resume, hfrom] at h
    split at h
    · cases h
      exact ⟨_, hlight.written⟩
    · cases h
      exact ⟨_, hlight.written⟩
    · cases h
      obtain ⟨resumable, hturns⟩ := turns_abort config
        (s.written outcome (.restRequest pending .accepted)) i task .cancelled
      exact ⟨_, hturns.written⟩
  | phase phase =>
    simp only [resume, hfrom] at h
    split at h
    · cases h
      exact turns_afterPhase config s i hfrom
    · cases h
      exact ⟨_, turns_runFinalAffectiveReset config s i task (by simp)⟩
  | holding =>
    simp only [resume, hfrom] at h
    split at h
    · cases h
      exact turns_holdDevelopmentalRest config s i task (.inr hfrom) (by rw [hfrom]; rfl)
    · cases h
      exact ⟨_, turns_runFinalAffectiveReset config s i task (by simp)⟩
  | housekeeping =>
    have hreset := turns_runFinalAffectiveReset config s i task
      (fun _ (_ : none = none) => by rw [hfrom]; rfl)
    simp only [resume, hfrom] at h
    split at h
    · cases h
      exact ⟨_, hreset⟩
    · cases h
      exact ⟨_, hreset⟩
    · cases h
      exact ⟨_, turns_runFinalAffectiveReset config s i task (by simp)⟩
  | reset pending =>
    simp only [resume, hfrom] at h
    split at h
    · cases h
      refine ⟨.audit, rfl, rfl, rfl, .same fun _ => ⟨by simp, by simp [Pc.unspent], fun _ => ?_⟩⟩
      rw [hfrom]
      rfl
    · cases h
      obtain ⟨resumable, hturns⟩ := turns_abort config s i task _
      exact ⟨_, hturns⟩
    · cases h
      obtain ⟨resumable, hturns⟩ := turns_abort config s i task _
      exact ⟨_, hturns⟩
  | audit =>
    simp only [resume, hfrom] at h
    split at h
    · cases h
      exact ⟨_, turns_completeSleep config s i hfrom⟩
    · cases h
      exact ⟨_, turns_completeSleep config s i hfrom⟩
    · cases h
      obtain ⟨resumable, hturns⟩ := turns_abort config s i task .cancelled
      exact ⟨_, hturns⟩
  | completedPublish =>
    simp only [resume, hfrom] at h
    cases hexn : outcome.exn with
    | none =>
      rw [hfrom] at hgoes
      cases hgoes with
      | body hpc => simp at hpc
      | uncompleted _ hsome =>
        rw [hexn] at hsome
        cases hsome
    | some exn =>
      simp only [hexn, Option.some.injEq] at h
      obtain ⟨resumable, hturns⟩ := turns_abort config
        (s.written outcome (.completed s.sleepCount none false)) i task exn
      exact ⟨_, h ▸ hturns.written⟩
  | abortPublish exn resumable =>
    rw [hfrom] at hgoes
    cases hgoes with
    | body hpc => simp at hpc

/-- A coroutine in the pipeline takes a turn, or leaves at the end of its sleep. -/
theorem turns_of_resume (hi : s.tasks[i]? = some task)
    (h : resume config s i task outcome = some s') (hpc : task.pc.inPipeline = true) :
    (∃ pc new, Within s s' i task pc new ∧ Goes s task task.pc outcome pc new ∧
      Turns config s s' i task pc) ∨
      ∃ exn, Leaves task.pc outcome exn ∧
        s' = (s.published task outcome).leaveSleep i task exn := by
  rcases resume_inPipeline h hpc with ⟨pc, new, hwithin, hgoes⟩ | hleaves
  · left
    obtain ⟨pc', hturns⟩ := turns_of_goes h hpc hgoes
    have hsame : pc' = pc := by
      have hlt := (List.getElem?_eq_some_iff.1 hi).1
      have hget := congrArg (·[i]?) (hturns.tasks.symm.trans hwithin.tasks)
      simp only [List.getElem?_set_self hlt, Option.some.injEq] at hget
      exact congrArg Task.pc hget
    subst hsame
    exact ⟨pc', new, hwithin, hgoes, hturns⟩
  · exact .inr hleaves

/-- The clocks and the cycle stand. -/
structure Steady (s s' : Sleep) : Prop where
  now : s'.now = s.now
  paused : s'.paused = s.paused
  cycle : s'.cycle = s.cycle

/-- The coroutine around a sleep gives up its flag, or not yet. -/
structure Yields (s s' : Sleep) (task : Task) (pc : Pc) : Prop where
  sleepPending : s'.sleepPending = s.sleepPending ∨ task.owes = true
  welfareRestHeld : s'.welfareRestHeld = s.welfareRestHeld ∨
    (∃ request, task.site = .welfare request) ∧ pc = .done

theorem yields_clearPending (s : Sleep) (i : ℕ) (hpc : task.pc ≠ .done) :
    Yields s (s.clearPending i task) task .done := by
  obtain ⟨site, pc, restStarted⟩ := task
  cases site with
  | direct => exact ⟨.inl rfl, .inl rfl⟩
  | welfare request => exact ⟨.inr (by simpa [Task.owes] using hpc), .inr ⟨⟨request, rfl⟩, rfl⟩⟩
  | fatigueTriggered _ | stateCycle | interval | requested _ =>
    exact ⟨.inr (by simpa [Task.owes] using hpc), .inl rfl⟩

theorem yields_afterSleep (s : Sleep) (i : ℕ) (hpc : task.pc ≠ .done) (exn : Option Exn) :
    Yields s (s.afterSleep i task exn) task
      (afterSleepAt s.requestedRestAccepted task.site exn) := by
  have hcleared := yields_clearPending s i hpc
  cases hsite : task.site with
  | requested request =>
    rcases exn with _ | _ | _
    · simpa only [afterSleep, afterSleepAt, hsite] using hcleared
    · refine ⟨.inl ?_, .inl ?_⟩ <;> simp [afterSleep, hsite, publishRestRequest, setTask]
    · simpa only [afterSleep, afterSleepAt, hsite] using hcleared
  | welfare request =>
    cases exn with
    | none => simpa only [afterSleep, afterSleepAt, hsite] using hcleared
    | some exn =>
      refine ⟨.inl ?_, .inl ?_⟩ <;> simp [afterSleep, hsite, publishRestRequest, setTask]
  | fatigueTriggered _ | stateCycle | interval | direct =>
    simpa only [afterSleep, afterSleepAt, hsite] using hcleared

theorem yields_afterBusy (s : Sleep) (i : ℕ) (hpc : task.pc ≠ .done) :
    Yields s (s.afterBusy i task) task (afterBusyAt task.site) := by
  have hcleared := yields_clearPending s i hpc
  cases hsite : task.site with
  | requested request | welfare request =>
    refine ⟨.inl ?_, .inl ?_⟩ <;> simp [afterBusy, hsite, publishRestRequest, setTask]
  | fatigueTriggered _ | stateCycle | interval | direct =>
    simpa only [afterBusy, afterBusyAt, hsite, Site.request?] using hcleared

theorem steady_clearPending (s : Sleep) (i : ℕ) (task : Task) :
    Steady s (s.clearPending i task) := by
  obtain ⟨site, pc, restStarted⟩ := task
  cases site <;> exact ⟨rfl, rfl, rfl⟩

theorem steady_afterBusy (s : Sleep) (i : ℕ) (task : Task) : Steady s (s.afterBusy i task) := by
  unfold afterBusy
  split
  · exact ⟨rfl, rfl, rfl⟩
  · exact ⟨rfl, rfl, rfl⟩
  · exact steady_clearPending s i task

theorem steady_afterSleep (s : Sleep) (i : ℕ) (task : Task) (exn : Option Exn) :
    Steady s (s.afterSleep i task exn) := by
  unfold afterSleep
  split
  · exact ⟨rfl, rfl, rfl⟩
  · exact ⟨rfl, rfl, rfl⟩
  · exact steady_clearPending s i task

/-- A sleep begins; the state cycle's own starts its clock. -/
structure Begins (config : Config) (s s' : Sleep) (i : ℕ) (task : Task) (started : ℚ) : Prop where
  tasks : s'.tasks = s.tasks.set i ⟨task.site, .startedPublish, started⟩
  now : s'.now = s.now
  paused : s'.paused = s.paused
  sleepLock : s.sleepLock = false ∧ s'.sleepLock = true
  sleepPending : s'.sleepPending = s.sleepPending
  welfareRestHeld : s'.welfareRestHeld = s.welfareRestHeld
  rests : s.holds task = true → s'.cycle = s.cycle.beginRest config.toCycleConfig s.now s.paused ∧
    s'.cycle.restBegan = some started
  other : s.holds task = false → s'.cycle = s.cycle

/-- A coroutine outside the pipeline goes on outside it. -/
structure Stays (s s' : Sleep) (i : ℕ) (task : Task) (pc : Pc) : Prop where
  tasks : s'.tasks = s.tasks.set i { task with pc := pc }
  steady : Steady s s'
  sleepLock : s'.sleepLock = s.sleepLock
  yields : Yields s s' task pc
  awaits : pc.inPipeline = false ∧ pc ≠ .scheduled

theorem begins_or_stays (config : Config) (s : Sleep) (i : ℕ) {task : Task}
    (hpc : task.pc ≠ .done) :
    (∃ started, Begins config s (enterSleep config s i task) i task started) ∨
      s.sleepLock = true ∧ ∃ pc, Stays s (enterSleep config s i task) i task pc := by
  unfold enterSleep
  cases hlock : s.sleepLock with
  | true =>
    right
    have hsettled := settled_afterBusy s i task
    refine ⟨rfl, afterBusyAt task.site, ?_⟩
    rw [if_pos rfl]
    refine ⟨hsettled.tasks, steady_afterBusy s i task, hsettled.sleepLock,
      yields_afterBusy s i hpc, ?_⟩
    rcases hsettled.awaits with hdone | ⟨-, request, answer, hto⟩
    · simp [hdone, Pc.inPipeline]
    · simp [hto, Pc.inPipeline]
  | false =>
    left
    rw [if_neg Bool.false_ne_true]
    dsimp only
    split
    · refine ⟨_, rfl, rfl, rfl, ⟨hlock, rfl⟩, rfl, rfl, fun _ => ⟨rfl, rfl⟩, fun hother => ?_⟩
      rename_i hholds
      change s.holds task = true at hholds
      rw [hother] at hholds
      cases hholds
    · rename_i hholds
      exact ⟨_, rfl, rfl, rfl, ⟨hlock, rfl⟩, rfl, rfl, fun hheld => absurd hheld hholds,
        fun _ => rfl⟩

/-- A coroutine's sleep has ended. -/
structure Ends (s s' : Sleep) (i : ℕ) (task : Task) (pc : Pc) : Prop where
  tasks : s'.tasks = s.tasks.set i { task with pc := pc }
  now : s'.now = s.now
  paused : s'.paused = s.paused
  cycle : s'.cycle = { s.cycle with restBegan := none }
  sleepLock : s'.sleepLock = false
  yields : Yields s s' task pc
  awaits : pc.inPipeline = false ∧ pc ≠ .scheduled

theorem ends_leaveSleep (s : Sleep) (i : ℕ) {task : Task} (hpc : task.pc ≠ .done)
    (exn : Option Exn) : ∃ pc, Ends s (s.leaveSleep i task exn) i task pc := by
  have hleft := left_leaveSleep s i task exn
  unfold leaveSleep at hleft ⊢
  dsimp only at hleft ⊢
  refine ⟨_, hleft.tasks, (steady_afterSleep _ i task exn).now,
    (steady_afterSleep _ i task exn).paused, hleft.cycle, hleft.sleepLock, ?_, ?_⟩
  · exact ⟨(yields_afterSleep _ i hpc exn).1, (yields_afterSleep _ i hpc exn).2⟩
  rcases hleft.awaits with hdone | ⟨-, request, answer, hto⟩
  · simp [hdone, Pc.inPipeline]
  · simp [hto, Pc.inPipeline]

/-- Moves other than those of the clocks, the polls and the coroutines leave the times alone. -/
def Move.timed : Move → Bool
  | .advance _ _ | .poll _ _ | .resume _ _ => true
  | _ => false

/-- What one move does to the clocks, the cycle and who holds a rest. -/
inductive Clocked (config : Config) (s s' : Sleep) : Move → Prop
  | advance {elapsed frozen : ℚ} (helapsed : 0 ≤ elapsed) (hfrozen : 0 ≤ frozen)
      (h : s' = { s with now := s.now + elapsed, paused := s.paused + frozen }) :
      Clocked config s s' (.advance elapsed frozen)
  | poll {developing : Option Bool} {due : Bool}
      (h : s' = maintenancePollOnce config s developing due) : Clocked config s s'
      (.poll developing due)
  | idle {m : Move} (hm : m.timed = false) (hsteady : Steady s s') (htasks : s'.tasks = s.tasks)
      (hlock : s'.sleepLock = s.sleepLock) (hpending : s'.sleepPending = s.sleepPending)
      (hheld : s'.welfareRestHeld = s.welfareRestHeld) :
      Clocked config s s' m
  | created {m : Move} {site : Site} (hm : m.timed = false) (hsteady : Steady s s')
      (hasleep : s.asleep = false)
      (hsite : site ≠ .direct ∧ site ≠ .stateCycle)
      (htasks : s'.tasks = s.tasks ++ [⟨site, .scheduled, 0⟩])
      (hlock : s'.sleepLock = s.sleepLock)
      (hheld : s'.welfareRestHeld = s.welfareRestHeld ∧ (∀ request, site ≠ .welfare request) ∨
        ∃ requestId developing, m = .welfareRestRequest requestId developing ∧
          s'.welfareRestHeld = decide (developing = some true)) : Clocked config s s' m
  | began {i : ℕ} {task : Task} {started : ℚ} (hi : s.tasks[i]? = some task)
      (hpc : task.pc = .scheduled) (h : Begins config s s' i task started) : Clocked config s s'
      (.resume i .returned)
  | stayed {i : ℕ} {task : Task} {outcome : Outcome} {pc : Pc} (hi : s.tasks[i]? = some task)
      (hpc : task.pc.inPipeline = false ∧ task.pc ≠ .done)
      (hlost : task.pc = .scheduled → outcome = .returned ∧ s.sleepLock = true ∨
        pc = .done ∧ s'.sleepPending = s.sleepPending)
      (h : Stays s s' i task pc) : Clocked config s s' (.resume i outcome)
  | turned {i : ℕ} {task : Task} {outcome : Outcome} {pc : Pc} (hi : s.tasks[i]? = some task)
      (hin : task.pc.inPipeline = true) (hpc : pc.inPipeline = true)
      (hlive : ∀ exn resumable, task.pc ≠ .abortPublish exn resumable)
      (hheld : pc = .holding → s.holds task = true ∨ task.pc = .holding)
      (hlock : s'.sleepLock = s.sleepLock) (hpending : s'.sleepPending = s.sleepPending)
      (hwelfare : s'.welfareRestHeld = s.welfareRestHeld) (h : Turns config s s' i task pc) :
      Clocked config s s' (.resume i outcome)
  | ended {i : ℕ} {task : Task} {outcome : Outcome} {pc : Pc} (hi : s.tasks[i]? = some task)
      (hin : task.pc.inPipeline = true)
      (hlast : task.pc = .completedPublish ∨ ∃ exn resumable, task.pc = .abortPublish exn resumable)
      (h : Ends s s' i task pc) : Clocked config s s' (.resume i outcome)
  | called {started : ℚ} (h : Begins config s.withDirect s' s.tasks.length ⟨.direct, .scheduled,
        0⟩ started) :
      Clocked config s s' .enterSleep
  | missed {pc : Pc} (h : Stays s.withDirect s' s.tasks.length ⟨.direct, .scheduled, 0⟩ pc) :
      Clocked config s s' .enterSleep

theorem clocked_startMaintenanceSleep {trigger : MaintenanceTrigger} {m : Move}
    (hm : m.timed = false) : Clocked config s (s.startMaintenanceSleep trigger) m := by
  unfold startMaintenanceSleep
  split
  · exact .idle hm ⟨rfl, rfl, rfl⟩ rfl rfl rfl rfl
  · rename_i hasleep
    exact .created hm ⟨rfl, rfl, rfl⟩ (by simpa using hasleep) (by simp) rfl rfl
      (.inl ⟨rfl, by simp⟩)

theorem goes_holding {new : List Event} (h : Goes s task task.pc outcome .holding new) :
    s.holds task = true ∨ task.pc = .holding := by
  generalize hfrom : task.pc = from' at h
  cases h with
  | started h => rcases h with ⟨h, -⟩ | ⟨_, h, -⟩ <;> cases h
  | body _ honward =>
    rcases honward with ⟨-, ⟨-, hheld⟩ | h | ⟨_, h⟩⟩ | ⟨-, _, h, -⟩
    · exact hheld
    · cases h
    · cases h
    · cases h

theorem clocked_resume (hi : s.tasks[i]? = some task)
    (h : resume config s i task outcome = some s') : Clocked config s s' (.resume i outcome) := by
  cases hin : task.pc.inPipeline with
  | true =>
    have hdone := ne_done_of_inPipeline hin
    rcases turns_of_resume hi h hin with ⟨pc, new, hwithin, hgoes, hturns⟩ | ⟨exn, hleaves, rfl⟩
    · refine .turned hi hin hgoes.inPipeline ?_ ?_ hwithin.sleepLock hwithin.sleepPending
        hwithin.welfareRestHeld hturns
      · intro exn resumable hfrom
        rw [hfrom] at hgoes
        cases hgoes with
        | body hpc => simp at hpc
      · rintro rfl
        exact goes_holding hgoes
    · obtain ⟨pc, hends⟩ := ends_leaveSleep (s.published task outcome) i hdone exn
      obtain ⟨log, shielded, hpublished⟩ := published_eq s task outcome
      rw [hpublished] at hends ⊢
      have hlast : task.pc = .completedPublish ∨
        ∃ exn resumable, task.pc = .abortPublish exn resumable := by
        generalize task.pc = pc at hleaves
        cases hleaves with
        | completed => exact .inl rfl
        | aborted | cut => exact .inr ⟨_, _, rfl⟩
      exact .ended hi hin hlast ⟨hends.tasks, hends.now, hends.paused, hends.cycle, hends.sleepLock,
        ⟨hends.yields.sleepPending, hends.yields.welfareRestHeld⟩, hends.awaits⟩
  | false =>
    cases hpc : task.pc with
    | scheduled =>
      simp only [resume, hpc] at h
      cases outcome with
      | returned =>
        cases h
        obtain ⟨pending, accepted, hnoted, -⟩ := noteRequest_eq s task
        rw [hnoted]
        have hdone : task.pc ≠ .done := by simp [hpc]
        rcases begins_or_stays config
          { s with pendingRest := pending, requestedRestAccepted := accepted } i hdone with
          ⟨started, hbegins⟩ | ⟨hlock, pc, hstays⟩
        · obtain ⟨htasks, hnow, hpaused, hlock, hpending, hheld, hrests, hother⟩ := hbegins
          exact .began hi hpc ⟨htasks, hnow, hpaused, hlock, hpending, hheld, hrests, hother⟩
        · obtain ⟨htasks, ⟨hnow, hpaused, hcycle⟩, hlock', ⟨hpending, hheld⟩, hawaits⟩ := hstays
          exact .stayed hi (by simp [hpc, Pc.inPipeline]) (fun _ => .inl ⟨rfl, hlock⟩)
            ⟨htasks, ⟨hnow, hpaused, hcycle⟩, hlock', ⟨hpending, hheld⟩, hawaits⟩
      | cancelled written =>
        cases h
        exact .stayed hi (by simp [hpc, Pc.inPipeline]) (fun _ => .inr ⟨rfl, rfl⟩)
          ⟨rfl, ⟨rfl, rfl, rfl⟩, rfl, ⟨.inl rfl, .inl rfl⟩, by simp [Pc.inPipeline]⟩
      | raised written => cases h
    | answerPublish request answer =>
      simp only [resume, hpc] at h
      cases h
      have hsettled := settled_clearPending (s.written outcome (.restRequest request answer)) i task
      have hsteady := steady_clearPending (s.written outcome (.restRequest request answer)) i task
      have hdone : task.pc ≠ .done := by simp [hpc]
      have hyields := yields_clearPending (s.written outcome (.restRequest request answer)) i hdone
      rw [written_eq] at hsettled hsteady hyields ⊢
      exact .stayed hi (by simp [hpc, Pc.inPipeline]) (by simp [hpc])
        ⟨hsettled.tasks, ⟨hsteady.now, hsteady.paused, hsteady.cycle⟩, hsettled.sleepLock,
          ⟨hyields.sleepPending, hyields.welfareRestHeld⟩, by simp [Pc.inPipeline]⟩
    | done => simp [resume, hpc] at h
    | _ => simp [hpc, Pc.inPipeline] at hin

theorem clocked_of_step {m : Move} (h : step config s m = some s') : Clocked config s s' m := by
  cases m with
  | advance elapsed frozen =>
    simp only [step] at h
    split_ifs at h with hforward
    cases h
    exact .advance hforward.1 hforward.2 rfl
  | probeWired | stop =>
    cases h
    exact .idle rfl ⟨rfl, rfl, rfl⟩ rfl rfl rfl rfl
  | fatigue developing =>
    cases h
    split
    · exact .idle rfl ⟨rfl, rfl, rfl⟩ rfl rfl rfl rfl
    · exact clocked_startMaintenanceSleep rfl
  | regulation | affectRegulation =>
    cases h
    exact clocked_startMaintenanceSleep rfl
  | poll developing due =>
    cases h
    exact .poll rfl
  | restRequest origin proposalId =>
    cases h
    unfold handleRestRequest
    dsimp only
    split_ifs with hasleep hsoon
    · exact .idle rfl ⟨rfl, rfl, rfl⟩ rfl rfl rfl rfl
    · exact .idle rfl ⟨rfl, rfl, rfl⟩ rfl rfl rfl rfl
    · exact .created rfl ⟨rfl, rfl, rfl⟩ (Bool.eq_false_iff.2 hasleep) (by simp) rfl rfl
        (.inl ⟨rfl, by simp⟩)
  | welfareRestRequest requestId developing =>
    cases h
    unfold handleWelfareRestRequest
    dsimp only
    split_ifs with hasleep
    · exact .idle rfl ⟨rfl, rfl, rfl⟩ rfl rfl rfl rfl
    · exact .created rfl ⟨rfl, rfl, rfl⟩ (Bool.eq_false_iff.2 hasleep) (by simp) rfl rfl
        (.inr ⟨requestId, developing, rfl, rfl⟩)
  | enterSleep =>
    cases h
    rcases begins_or_stays config s.withDirect s.tasks.length
      (show (⟨.direct, .scheduled, 0⟩ : Task).pc ≠ .done by simp) with ⟨started, hbegins⟩ | ⟨-,
        pc, hstays⟩
    · exact .called hbegins
    · exact .missed hstays
  | resume i outcome =>
    simp only [step] at h
    cases hi : s.tasks[i]? with
    | none => simp [hi] at h
    | some task =>
      rw [hi] at h
      exact clocked_resume hi h
  | shieldedPublish written =>
    simp only [step] at h
    split at h
    · cases h
    · cases h
      split <;> exact .idle rfl ⟨rfl, rfl, rfl⟩ rfl rfl rfl rfl

end Kaine.Sleep
