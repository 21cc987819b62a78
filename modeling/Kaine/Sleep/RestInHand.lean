import Kaine.Sleep.CycleWatch
import Kaine.Sleep.Rests

/-! The rest in hand: who holds it, and how long it has run. -/
namespace Kaine.Sleep
open PerceptionState

variable {config : Config} {s s' : Sleep} {w w' : Watched} {i : ℕ} {task task' : Task} {pc : Pc}
  {outcome : Outcome} {m : Move}

theorem holds_iff (s : Sleep) (task : Task) : s.holds task = true ↔
    task.site = .stateCycle ∨ (∃ request, task.site = .welfare request) ∧
      s.welfareRestHeld = true := by
  cases hsite : task.site <;> simp [holds, holdsCycleRest, hsite, Site.trigger]

/-- Who holds a rest is known from its site, and from the flag while a welfare rest is under way. -/
structure Sited (s : Sleep) : Prop where
  welfare : ∀ (i : ℕ) task request, s.tasks[i]? = some task → task.site = .welfare request →
    task.pc ≠ .done → s.welfareRestHeld = true
  holding : ∀ (i : ℕ) task, s.tasks[i]? = some task → task.pc = .holding → s.holds task = true

/-- The flag stays up while another coroutine needs it. -/
theorem held_of_yields (hx : Exclusive s) (hsited : Sited s) (hi : s.tasks[i]? = some task)
    (hpc : task.pc ≠ .done) (hy : Yields s s' task pc) {j : ℕ} {other : Task} {request : Request}
    (hij : i ≠ j) (hj : s.tasks[j]? = some other) (hsite : other.site = .welfare request)
    (hdone : other.pc ≠ .done) : s'.welfareRestHeld = true := by
  have howes' : other.owes = true := by simp [Task.owes, hsite, hdone]
  rcases hy.welfareRestHeld with hsame | ⟨⟨request', hsite'⟩, -⟩
  · rw [hsame]
    exact hsited.welfare j other request hj hsite hdone
  · have howes : task.owes = true := by simp [Task.owes, hsite', hpc]
    exact absurd (hx.unique_owes hi hj howes howes') hij

theorem held_of_yields_self (hy : Yields s s' task pc) (hpc : pc ≠ .done)
    (hheld : s.welfareRestHeld = true) : s'.welfareRestHeld = true := by
  rcases hy.welfareRestHeld with hsame | ⟨-, hdone⟩
  · exact hsame.trans hheld
  · exact absurd hdone hpc

/-- Where the flag stands for those who need it, the holders are the same. -/
theorem holds_mono (h : s.holds task = true)
    (hheld : ∀ request, task.site = .welfare request → s'.welfareRestHeld = true) :
    s'.holds task = true := by
  rw [holds_iff] at h ⊢
  rcases h with h | ⟨⟨request, hsite⟩, -⟩
  · exact .inl h
  · exact .inr ⟨⟨request, hsite⟩, hheld request hsite⟩

/-- One coroutine has moved, and the flag stays up for the others. -/
theorem Sited.set (h : Sited s) (hi : s.tasks[i]? = some task) (hpc : task.pc ≠ .done)
    (htasks : s'.tasks = s.tasks.set i task') (hsite : task'.site = task.site)
    (hothers : ∀ (j : ℕ) other request, i ≠ j → s.tasks[j]? = some other →
      other.site = .welfare request → other.pc ≠ .done → s'.welfareRestHeld = true)
    (hself : ∀ request, task.site = .welfare request → task'.pc ≠ .done →
      s.welfareRestHeld = true → s'.welfareRestHeld = true)
    (hholding : task'.pc = .holding → s'.holds task' = true) : Sited s' := by
  constructor
  · intro j other request hj hwelfare hdone
    rw [htasks] at hj
    rcases getElem?_set_cases hj with ⟨hij, hj⟩ | ⟨-, rfl⟩
    · exact hothers j other request hij hj hwelfare hdone
    · rw [hsite] at hwelfare
      exact hself request hwelfare hdone (h.welfare i task request hi hwelfare hpc)
  · intro j other hj hpc'
    rw [htasks] at hj
    rcases getElem?_set_cases hj with ⟨hij, hj⟩ | ⟨-, rfl⟩
    · refine holds_mono (h.holding j other hj hpc') fun request hwelfare => ?_
      exact hothers j other request hij hj hwelfare (by simp [hpc'])
    · exact hholding hpc'

/-- The tasks and the flag stand. -/
theorem Sited.of_eq (h : Sited s) (htasks : s'.tasks = s.tasks)
    (hheld : s'.welfareRestHeld = s.welfareRestHeld) : Sited s' := by
  constructor
  · rw [htasks, hheld]
    exact h.welfare
  · intro j other hj hpc
    rw [htasks] at hj
    refine holds_mono (h.holding j other hj hpc) fun request hwelfare => ?_
    rw [hheld]
    exact h.welfare j other request hj hwelfare (by simp [hpc])

/-- A coroutine has been scheduled, where none runs. -/
theorem Sited.created (h : Sited s) (hx : Exclusive s) (hasleep : s.asleep = false) {site : Site}
    (htasks : s'.tasks = s.tasks ++ [⟨site, .scheduled, 0⟩])
    (hheld : s'.welfareRestHeld = s.welfareRestHeld ∧ (∀ request, site ≠ .welfare request) ∨
      s'.welfareRestHeld = true) : Sited s' := by
  obtain ⟨hlock, hpending⟩ : s.sleepLock = false ∧ s.sleepPending = false := by
    simpa [asleep] using hasleep
  constructor
  · intro j other request hj hwelfare hdone
    rcases hheld with ⟨hsame, hne⟩ | htrue
    · rw [htasks] at hj
      rcases getElem?_concat_cases hj with hj | ⟨-, rfl⟩
      · rw [hsame]
        exact h.welfare j other request hj hwelfare hdone
      · exact absurd hwelfare (hne request)
    · exact htrue
  · intro j other hj hpc
    rw [htasks] at hj
    rcases getElem?_concat_cases hj with hj | ⟨-, rfl⟩
    · have hlocked := hx.lock_of_inPipeline hj (by rw [hpc]; rfl)
      rw [hlock] at hlocked
      cases hlocked
    · cases hpc

theorem Sited.withDirect (h : Sited s) : Sited s.withDirect := by
  constructor
  · intro j other request hj hwelfare hdone
    rcases getElem?_concat_cases hj with hj | ⟨-, rfl⟩
    · exact h.welfare j other request hj hwelfare hdone
    · cases hwelfare
  · intro j other hj hpc
    rcases getElem?_concat_cases hj with hj | ⟨-, rfl⟩
    · exact h.holding j other hj hpc
    · cases hpc

/-- The conditions on a run: the entity develops, and the start of a rest that was cut is not lost
to a direct call. -/
def Timely (w : Watched) : Act → Prop
  | .move (.poll developing _) => developing = some true
  | .move (.welfareRestRequest _ developing) => developing = some true
  | .move (.resume i .returned) => ∀ task, w.sleep.tasks[i]? = some task → task.site = .stateCycle →
      task.pc = .scheduled → w.sleep.sleepLock = true → w.sleep.cycle.resumeSpentS = 0
  | _ => True

/-- What a tick adds to the awake time: the unfrozen time since the last one, where the cycle is
awake and no sleep is under way. -/
theorem tick_eq (cycle : StateCycle) (asleep : Bool) (now paused : ℚ) : ∃ gain, 0 ≤ gain ∧
    cycle.tick (some true) asleep now paused =
      { cycle with tickPaused := paused, lastTick := some now, awakeS := cycle.awakeS + gain } ∧
    (gain = 0 ∨ asleep = false ∧ ∃ last, cycle.lastTick = some last ∧
      gain = max 0 ((now - last) - max 0 (paused - cycle.tickPaused))) := by
  unfold StateCycle.tick
  dsimp only
  cases hlast : cycle.lastTick with
  | none => exact ⟨0, le_rfl, by simp, .inl rfl⟩
  | some last =>
    dsimp only
    split_ifs with hawake
    · exact ⟨_, le_max_left _ _, rfl, .inr ⟨hawake.2, last, rfl, rfl⟩⟩
    · exact ⟨0, le_rfl, by simp, .inl rfl⟩

/-- What a poll of a developing entity does. -/
inductive Polls (config : Config) (s s' : Sleep) : Prop
  | quiet (htasks : s'.tasks = s.tasks) (hpending : s'.sleepPending = s.sleepPending)
      (hcycle : s'.cycle = s.cycle.tick (some true) s.asleep s.now s.paused)
  | starts (resumeSpentS : ℚ) (hasleep : s.asleep = false)
      (htasks : s'.tasks = s.tasks ++ [⟨.stateCycle, .scheduled, 0⟩])
      (hpending : s'.sleepPending = true)
      (hcycle : s'.cycle =
        { s.cycle.tick (some true) s.asleep s.now s.paused with resumeSpentS := resumeSpentS })
      (h : s.cycle.phase = .resting ∧ resumeSpentS = s.cycle.restSpentS ∨
        s.cycle.phase = .awake ∧ resumeSpentS = 0 ∧ config.awakeS ≤ s'.cycle.awakeS)

/-- What a poll leaves alone. -/
structure PollFrame (s s' : Sleep) : Prop where
  now : s'.now = s.now
  paused : s'.paused = s.paused
  sleepLock : s'.sleepLock = s.sleepLock
  welfareRestHeld : s'.welfareRestHeld = s.welfareRestHeld

theorem polls_maintenancePollOnce (config : Config) (s : Sleep) (due : Bool) :
    Polls config s (maintenancePollOnce config s (some true) due) ∧
      PollFrame s (maintenancePollOnce config s (some true) due) := by
  obtain ⟨gain, -, htick, -⟩ := tick_eq s.cycle s.asleep s.now s.paused
  have hstart (resume : Bool) (hasleep : s.asleep = false) :
      startStateCycleSleep { s with cycle := s.cycle.tick (some true) s.asleep s.now s.paused }
        resume = ({ s with
          cycle := (s.cycle.tick (some true) s.asleep s.now s.paused).schedule resume
        }.createTask .stateCycle) := by
    unfold startStateCycleSleep
    exact if_neg (by simpa [asleep] using hasleep)
  unfold maintenancePollOnce
  dsimp only
  split_ifs with hasleep hsame hphase hawake
  · exact ⟨.quiet rfl rfl rfl, ⟨rfl, rfl, rfl, rfl⟩⟩
  · have hfree : s.asleep = false := Bool.eq_false_iff.2 hasleep
    have hresting : s.cycle.phase = .resting := by
      rw [htick] at hphase
      exact hphase
    rw [hstart true hfree]
    refine ⟨.starts s.cycle.restSpentS hfree rfl rfl ?_ (.inl ⟨hresting, rfl⟩),
      ⟨rfl, rfl, rfl, rfl⟩⟩
    rw [htick]
    rfl
  · have hfree : s.asleep = false := Bool.eq_false_iff.2 hasleep
    have hawaking : s.cycle.phase = .awake := by
      rw [htick] at hphase
      cases hcycle : s.cycle.phase with
      | awake => rfl
      | resting => exact absurd hcycle hphase
    rw [hstart false hfree]
    exact ⟨.starts 0 hfree rfl rfl rfl (.inr ⟨hawaking, rfl, hawake⟩), ⟨rfl, rfl, rfl, rfl⟩⟩
  · exact ⟨.quiet rfl rfl rfl, ⟨rfl, rfl, rfl, rfl⟩⟩
  all_goals exact absurd rfl hsame

/-- The developmental phase, as far as a move tells it. -/
def Develops (m : Move) : Prop :=
  (∀ developing due, m = .poll developing due → developing = some true) ∧
    ∀ id developing, m = .welfareRestRequest id developing → developing = some true

theorem Sited.moved (h : Sited s) (hx : Exclusive s) (hc : Clocked config s s' m)
    (hdevelops : Develops m) : Sited s' := by
  cases hc with
  | advance _ _ hnext => exact hnext ▸ h.of_eq rfl rfl
  | @poll developing due hnext =>
    obtain rfl := hdevelops.1 developing due rfl
    obtain ⟨hpolls, hframe⟩ := polls_maintenancePollOnce config s due
    rw [← hnext] at hpolls hframe
    cases hpolls with
    | quiet htasks => exact h.of_eq htasks hframe.welfareRestHeld
    | starts _ hasleep htasks =>
      exact h.created hx hasleep htasks (.inl ⟨hframe.welfareRestHeld, by simp⟩)
  | idle _ _ htasks _ _ hheld => exact h.of_eq htasks hheld
  | @created _ site _ _ hasleep _ htasks _ hheld =>
    refine h.created hx hasleep htasks ?_
    rcases hheld with hheld | ⟨id, developing, rfl, hheld⟩
    · exact .inl hheld
    · obtain rfl := hdevelops.2 id developing rfl
      exact .inr hheld
  | @began i task started hi hpc hbegins =>
    have hdone : task.pc ≠ .done := by simp [hpc]
    refine h.set hi hdone hbegins.tasks rfl ?_ ?_ (by simp)
    · intro j other request _ hj hsite hother
      rw [hbegins.welfareRestHeld]
      exact h.welfare j other request hj hsite hother
    · intro request _ _ hheld
      rw [hbegins.welfareRestHeld]
      exact hheld
  | @stayed i task outcome pc hi hpc _ hstays =>
    refine h.set hi hpc.2 hstays.tasks rfl ?_ ?_ ?_
    · exact fun j other request => held_of_yields hx h hi hpc.2 hstays.yields
    · exact fun request _ => held_of_yields_self hstays.yields
    · intro hholding
      have hout := hstays.awaits.1
      rw [show pc = .holding from hholding] at hout
      cases hout
  | @turned i task outcome pc hi hin _ _ hheld _ _ hwelfare hturns =>
    have hdone := ne_done_of_inPipeline hin
    refine h.set hi hdone hturns.tasks rfl ?_ ?_ ?_
    · intro j other request _ hj hsite hother
      rw [hwelfare]
      exact h.welfare j other request hj hsite hother
    · intro request _ _ hheld'
      rw [hwelfare]
      exact hheld'
    · intro hholding
      have hholds : s.holds task = true := by
        rcases hheld hholding with hholds | hfrom
        · exact hholds
        · exact h.holding i task hi hfrom
      refine holds_mono (show s.holds { task with pc := pc } = true from hholds)
        fun request hsite => ?_
      rw [hwelfare]
      exact h.welfare i task request hi hsite hdone
  | @ended i task outcome pc hi hin _ hends =>
    have hdone := ne_done_of_inPipeline hin
    refine h.set hi hdone hends.tasks rfl ?_ ?_ ?_
    · exact fun j other request => held_of_yields hx h hi hdone hends.yields
    · exact fun request _ => held_of_yields_self hends.yields
    · intro hholding
      have hout := hends.awaits.1
      rw [show pc = .holding from hholding] at hout
      cases hout
  | @called started hbegins =>
    refine (h.withDirect).set (getElem?_withDirect s) (by simp) hbegins.tasks rfl ?_
      (by simp) (by simp)
    intro j other request _ hj hsite hother
    rw [hbegins.welfareRestHeld]
    exact h.withDirect.welfare j other request hj hsite hother
  | @missed pc hstays =>
    refine (h.withDirect).set (getElem?_withDirect s) (by simp) hstays.tasks rfl ?_ (by simp) ?_
    · intro j other request hne hj hsite hother
      exact held_of_yields hx.withDirect.1 h.withDirect (getElem?_withDirect s)
        (by simp) hstays.yields hne hj hsite hother
    · intro hholding
      have hout := hstays.awaits.1
      rw [show pc = .holding from hholding] at hout
      cases hout

/-- The sleeps that hold a rest in the developmental phase. -/
def Site.cycleRest : Site → Bool
  | .stateCycle | .welfare _ => true
  | _ => false

theorem Sited.holds_eq (h : Sited s) (hi : s.tasks[i]? = some task) (hpc : task.pc ≠ .done) :
    s.holds task = task.site.cycleRest := by
  cases hsite : task.site with
  | welfare request =>
    have hheld := h.welfare i task request hi hsite hpc
    simp [holds, holdsCycleRest, hsite, Site.trigger, hheld, Site.cycleRest]
  | fatigueTriggered _ | stateCycle | interval | requested _ | direct =>
    simp [holds, holdsCycleRest, hsite, Site.trigger, Site.cycleRest]

/-- A coroutine that holds a rest and has not been cut. -/
structure Rests (task : Task) : Prop where
  inPipeline : task.pc.inPipeline = true
  cycleRest : task.site.cycleRest = true
  live : ∀ exn resumable, task.pc ≠ .abortPublish exn resumable

/-- The rest in hand: its coroutine, and the time that it has run, in parts that were cut before and
in this one. -/
structure Resting (config : Config) (w : Watched) : Prop where
  began : ∀ (i : ℕ) task, w.sleep.tasks[i]? = some task → Rests task →
    w.sleep.cycle.restBegan = some task.restStarted
  unspent : ∀ (i : ℕ) task, w.sleep.tasks[i]? = some task → Rests task →
    task.pc.unspent = true → w.sleep.cycle.phase = .resting
  rested : ∀ (i : ℕ) task, w.sleep.tasks[i]? = some task → Rests task →
    task.pc.rested = true → w.sleep.cycle.phase = .awake ∧ config.restS ≤ w.earlier + max 0 w.part
  running : w.sleep.cycle.restBegan ≠ none → ∃ (i : ℕ) (task : Task),
    w.sleep.tasks[i]? = some task ∧ Rests task
  reading : w.sleep.cycle.phase = .resting → ∀ began, w.sleep.cycle.restBegan = some began →
    w.sleep.cycle.restPausedBase ≤ w.sleep.paused ∧
      w.sleep.now - began - (w.sleep.paused - w.sleep.cycle.restPausedBase) =
        w.sleep.cycle.restSpentS + w.part ∧
      w.sleep.cycle.restSeconds = config.restS - w.sleep.cycle.restSpentS
  spent : w.sleep.cycle.phase = .resting → 0 ≤ w.sleep.cycle.restSpentS ∧
    w.sleep.cycle.restSpentS ≤ w.earlier
  parted : w.sleep.cycle.phase = .resting → w.sleep.cycle.restBegan = none → w.part = 0
  nonneg : 0 ≤ w.earlier

/-- How long the rest in hand has run, as its clock reads. -/
theorem Resting.restElapsed (h : Resting config w) {began : ℚ}
    (hphase : w.sleep.cycle.phase = .resting) (hbegan : w.sleep.cycle.restBegan = some began) :
    w.sleep.cycle.restElapsed w.sleep.now w.sleep.paused began =
      max 0 (w.sleep.cycle.restSpentS + w.part) := by
  obtain ⟨hbase, hreading, -⟩ := h.reading hphase began hbegan
  unfold StateCycle.restElapsed
  dsimp only
  rw [max_eq_right (sub_nonneg.2 hbase), hreading]

/-- What its clock reads, the rest has held. -/
theorem Resting.restElapsed_le (h : Resting config w) {began : ℚ}
    (hphase : w.sleep.cycle.phase = .resting) (hbegan : w.sleep.cycle.restBegan = some began) :
    w.sleep.cycle.restElapsed w.sleep.now w.sleep.paused began ≤ w.earlier + max 0 w.part := by
  obtain ⟨hspent, hle⟩ := h.spent hphase
  rw [h.restElapsed hphase hbegan]
  have hpart := le_max_right 0 w.part
  have hnonneg := le_max_left 0 w.part
  exact max_le (by linarith) (by linarith)

/-- No rest is in hand while no sleep runs. -/
theorem Resting.restBegan_eq_none (h : Resting config w) (hx : Exclusive w.sleep)
    (hlock : w.sleep.sleepLock = false) : w.sleep.cycle.restBegan = none := by
  by_contra hne
  obtain ⟨i, task, hi, hrests⟩ := h.running hne
  have hlocked := hx.lock_of_inPipeline hi hrests.inPipeline
  rw [hlock] at hlocked
  cases hlocked

/-- What a scheduled start is to resume with. -/
structure Starting (config : Config) (w : Watched) : Prop where
  owed : ∀ (i : ℕ) task, w.sleep.tasks[i]? = some task → task.owes = true →
    task.site = .stateCycle ∧ task.pc = .scheduled ∨ w.sleep.cycle.resumeSpentS = 0
  idle : w.sleep.sleepPending = false → w.sleep.cycle.resumeSpentS = 0
  starts : ∀ (i : ℕ) task, w.sleep.tasks[i]? = some task → task.site = .stateCycle →
    task.pc = .scheduled →
      w.sleep.cycle.phase = .resting ∧ w.sleep.cycle.resumeSpentS = w.sleep.cycle.restSpentS ∨
      w.sleep.cycle.phase = .awake ∧ w.sleep.cycle.resumeSpentS = 0 ∧
        config.awakeS ≤ w.counted.total

/-- The rest in hand is the same one, and has run as long. -/
theorem Resting.frame (h : Resting config w)
    (htasks : ∀ (i : ℕ) task, Rests task → (w'.sleep.tasks[i]? = some task ↔
      w.sleep.tasks[i]? = some task))
    (hphase : w'.sleep.cycle.phase = w.sleep.cycle.phase)
    (hbegan : w'.sleep.cycle.restBegan = w.sleep.cycle.restBegan)
    (hnow : w'.sleep.now = w.sleep.now) (hpaused : w'.sleep.paused = w.sleep.paused)
    (hrest : w.sleep.cycle.phase = .resting →
      w'.sleep.cycle.restPausedBase = w.sleep.cycle.restPausedBase ∧
      w'.sleep.cycle.restSpentS = w.sleep.cycle.restSpentS ∧
      w'.sleep.cycle.restSeconds = w.sleep.cycle.restSeconds)
    (hghost : w'.earlier = w.earlier ∧ w'.part = w.part) : Resting config w' := by
  obtain ⟨hearlier, hpart⟩ := hghost
  constructor
  · intro i task hi hrests
    rw [htasks i task hrests] at hi
    rw [hbegan]
    exact h.began i task hi hrests
  · intro i task hi hrests hpc
    rw [htasks i task hrests] at hi
    rw [hphase]
    exact h.unspent i task hi hrests hpc
  · intro i task hi hrests hpc
    rw [htasks i task hrests] at hi
    rw [hphase, hearlier, hpart]
    exact h.rested i task hi hrests hpc
  · intro hne
    rw [hbegan] at hne
    obtain ⟨i, task, hi, hrests⟩ := h.running hne
    exact ⟨i, task, (htasks i task hrests).2 hi, hrests⟩
  · intro hresting began hsome
    rw [hphase] at hresting
    rw [hbegan] at hsome
    obtain ⟨hbase, hspent, hseconds⟩ := hrest hresting
    rw [hbase, hspent, hseconds, hnow, hpaused, hpart]
    exact h.reading hresting began hsome
  · intro hresting
    rw [hphase] at hresting
    rw [(hrest hresting).2.1, hearlier]
    exact h.spent hresting
  · intro hresting hnone
    rw [hphase] at hresting
    rw [hbegan] at hnone
    rw [hpart]
    exact h.parted hresting hnone
  · rw [hearlier]
    exact h.nonneg

/-- Time passes in the rest in hand. -/
theorem Resting.advance (h : Resting config w) {elapsed frozen : ℚ} (hfrozen : 0 ≤ frozen)
    (hw' : w'.sleep =
      { w.sleep with now := w.sleep.now + elapsed, paused := w.sleep.paused + frozen })
    (hearlier : w'.earlier = w.earlier)
    (hpart : w'.part = if w.sleep.cycle.phase = .resting ∧ w.sleep.cycle.restBegan.isSome then
      w.part + (elapsed - frozen) else w.part) : Resting config w' := by
  have htasks : w'.sleep.tasks = w.sleep.tasks := by rw [hw']
  have hcycle : w'.sleep.cycle = w.sleep.cycle := by rw [hw']
  constructor
  · intro i task hi hrests
    rw [htasks] at hi
    rw [hcycle]
    exact h.began i task hi hrests
  · intro i task hi hrests hpc
    rw [htasks] at hi
    rw [hcycle]
    exact h.unspent i task hi hrests hpc
  · intro i task hi hrests hpc
    rw [htasks] at hi
    obtain ⟨hawake, hfull⟩ := h.rested i task hi hrests hpc
    rw [hcycle, hearlier, hpart, if_neg (by simp [hawake])]
    exact ⟨hawake, hfull⟩
  · intro hne
    rw [hcycle] at hne
    obtain ⟨i, task, hi, hrests⟩ := h.running hne
    exact ⟨i, task, htasks ▸ hi, hrests⟩
  · intro hresting began hsome
    rw [hcycle] at hresting hsome
    obtain ⟨hbase, hreading, hseconds⟩ := h.reading hresting began hsome
    rw [hcycle, hpart, if_pos ⟨hresting, by simp [hsome]⟩, hw']
    dsimp only
    exact ⟨by linarith, by linarith, hseconds⟩
  · intro hresting
    rw [hcycle] at hresting
    rw [hcycle, hearlier]
    exact h.spent hresting
  · intro hresting hnone
    rw [hcycle] at hresting hnone
    rw [hpart, if_neg (by simp [hnone])]
    exact h.parted hresting hnone
  · rw [hearlier]
    exact h.nonneg

/-- A coroutine that held no rest has moved, and holds none. -/
theorem tasks_set_iff (hi : s.tasks[i]? = some task) (htasks : s'.tasks = s.tasks.set i task')
    (hold : ¬ Rests task) (hnew : ¬ Rests task') (j : ℕ) (other : Task) (hrests : Rests other) :
    s'.tasks[j]? = some other ↔ s.tasks[j]? = some other := by
  rw [htasks]
  by_cases hij : i = j
  · subst hij
    rw [List.getElem?_set_self (List.getElem?_eq_some_iff.1 hi).1, hi]
    constructor
    · intro h
      exact absurd (Option.some.inj h ▸ hrests) hnew
    · intro h
      exact absurd (Option.some.inj h ▸ hrests) hold
  · rw [List.getElem?_set_ne hij]

/-- A coroutine that is scheduled holds no rest yet. -/
theorem tasks_concat_iff (htasks : s'.tasks = s.tasks ++ [task']) (hnew : ¬ Rests task') (j : ℕ)
    (other : Task) (hrests : Rests other) : s'.tasks[j]? = some other ↔
      s.tasks[j]? = some other := by
  rw [htasks]
  constructor
  · intro h
    rcases getElem?_concat_cases h with h | ⟨-, rfl⟩
    · exact h
    · exact absurd hrests hnew
  · intro h
    rw [List.getElem?_append_left (List.getElem?_eq_some_iff.1 h).1]
    exact h

theorem not_rests_of_out (h : task.pc.inPipeline = false) : ¬ Rests task := by
  intro hrests
  rw [hrests.inPipeline] at h
  cases h

theorem not_rests_of_site (h : task.site.cycleRest = false) : ¬ Rests task := by
  intro hrests
  rw [hrests.cycleRest] at h
  cases h

/-- Where neither the phase nor the rest's start has changed, a move of a coroutine changes no
count. -/
theorem follow_resume {i : ℕ} {outcome : Outcome}
    (hbegan : s'.cycle.restBegan = w.sleep.cycle.restBegan ∨
      w.sleep.cycle.phase = .awake ∧ s'.cycle.restBegan = none)
    (hphase : s'.cycle.phase = w.sleep.cycle.phase) :
    w.follow (.resume i outcome) s' = { w with sleep := s' } := by
  unfold Watched.follow
  dsimp only
  rw [if_neg, if_neg, if_neg]
  · rintro ⟨hsome, hnone, hresting⟩
    rcases hbegan with hsame | ⟨hawake, -⟩
    · exact hsome (hsame ▸ hnone)
    · rw [hphase, hawake] at hresting
      cases hresting
  · rintro ⟨hresting, hawake⟩
    rw [hphase, hresting] at hawake
    cases hawake
  · rintro ⟨hnone, hsome⟩
    rcases hbegan with hsame | ⟨-, hnone'⟩
    · exact hsome (hsame.trans hnone)
    · exact hsome hnone'

theorem not_rests_direct {pc : Pc} {started : ℚ} : ¬ Rests ⟨.direct, pc, started⟩ :=
  not_rests_of_site rfl

/-- What a rest begins with, the parts that were cut before have held. -/
theorem Resting.resumed (h : Resting config w) (hstarts : Starting config w)
    (hi : w.sleep.tasks[i]? = some task) (hpc : task.pc = .scheduled)
    (hrest : task.site.cycleRest = true) :
    0 ≤ min w.sleep.cycle.resumeSpentS config.restS ∧
      min w.sleep.cycle.resumeSpentS config.restS ≤ if w.resumes i then w.earlier else 0 := by
  have hpos := config.restS_pos
  have hzero (hresume : w.sleep.cycle.resumeSpentS = 0) :
    min w.sleep.cycle.resumeSpentS config.restS = 0 := by
    rw [hresume, min_eq_left hpos.le]
  have hnone (hresume : w.sleep.cycle.resumeSpentS = 0) :
      0 ≤ min w.sleep.cycle.resumeSpentS config.restS ∧
        min w.sleep.cycle.resumeSpentS config.restS ≤ if w.resumes i then w.earlier else 0 := by
    rw [hzero hresume]
    have hnonneg := h.nonneg
    refine ⟨le_rfl, ?_⟩
    split
    · exact hnonneg
    · exact le_rfl
  cases hsite : task.site with
  | stateCycle =>
    rcases hstarts.starts i task hi hsite hpc with ⟨hresting, hresume⟩ | ⟨-, hresume, -⟩
    · obtain ⟨hnonneg, hle⟩ := h.spent hresting
      have hresumes : w.resumes i = true := by simp [Watched.resumes, hi, hsite, hresting]
      rw [hresumes, if_pos rfl, hresume]
      exact ⟨le_min hnonneg hpos.le, (min_le_left _ _).trans hle⟩
    · exact hnone hresume
  | welfare request =>
    have howes : task.owes = true := by simp [Task.owes, hsite, hpc]
    rcases hstarts.owed i task hi howes with ⟨hother, -⟩ | hresume
    · rw [hsite] at hother
      cases hother
    · exact hnone hresume
  | fatigueTriggered _ | interval | requested _ | direct =>
    rw [hsite] at hrest
    cases hrest

/-- A rest begins, or another sleep. -/
theorem Resting.begins (h : Resting config w) (hx : Exclusive w.sleep) (hsited : Sited w.sleep)
    (hstarts : Starting config w) (hi : w.sleep.tasks[i]? = some task)
    (hpc : task.pc = .scheduled) {started : ℚ} {outcome : Outcome}
    (hb : Begins config w.sleep s' i task started) :
    Resting config (w.follow (.resume i outcome) s') := by
  have hnone := h.restBegan_eq_none hx hb.sleepLock.1
  have hdone : task.pc ≠ .done := by simp [hpc]
  have hout : ¬ Rests task := not_rests_of_out (by rw [hpc]; rfl)
  have hholds := hsited.holds_eq hi hdone
  cases hrest : task.site.cycleRest with
  | false =>
    rw [hrest] at hholds
    have hcycle := hb.other hholds
    rw [follow_resume (.inl (by rw [hcycle])) (by rw [hcycle])]
    refine h.frame (tasks_set_iff hi hb.tasks hout (not_rests_of_site hrest)) ?_ ?_ hb.now
      hb.paused ?_ ⟨rfl, rfl⟩
    · exact congrArg StateCycle.phase hcycle
    · exact congrArg StateCycle.restBegan hcycle
    · intro _
      dsimp only
      rw [hcycle]
      exact ⟨rfl, rfl, rfl⟩
  | true =>
    rw [hrest] at hholds
    obtain ⟨hcycle, hbegan⟩ := hb.rests hholds
    obtain ⟨hnonneg, hle⟩ := h.resumed hstarts hi hpc hrest
    have hstarted : started = w.sleep.now - min w.sleep.cycle.resumeSpentS config.restS := by
      rw [hcycle] at hbegan
      exact (Option.some.inj hbegan).symm
    have hfollow : w.follow (.resume i outcome) s' =
        { w with sleep := s', earlier := if w.resumes i then w.earlier else 0, part := 0 } := by
      unfold Watched.follow
      dsimp only
      rw [if_pos ⟨hnone, by simp [hbegan]⟩]
    -- No other coroutine is in the pipeline.
    have honly {j : ℕ} {other : Task} (hj : s'.tasks[j]? = some other) (hrests : Rests other) :
        other = ⟨task.site, .startedPublish, started⟩ := by
      rw [hb.tasks] at hj
      rcases getElem?_set_cases hj with ⟨-, hj⟩ | ⟨-, heq⟩
      · have hlocked := hx.lock_of_inPipeline hj hrests.inPipeline
        rw [hb.sleepLock.1] at hlocked
        cases hlocked
      · exact heq
    rw [hfollow]
    constructor
    · intro j other hj hrests
      rw [honly hj hrests]
      exact hbegan
    · intro j other _ _ _
      dsimp only
      rw [hcycle]
      rfl
    · intro j other hj hrests hrested
      rw [honly hj hrests] at hrested
      cases hrested
    · intro _
      refine ⟨i, ⟨task.site, .startedPublish, started⟩, ?_, rfl, hrest, by simp⟩
      dsimp only
      rw [hb.tasks, List.getElem?_set_self (List.getElem?_eq_some_iff.1 hi).1]
    · intro _ began hsome
      dsimp only at hsome ⊢
      rw [hbegan] at hsome
      cases hsome
      rw [hcycle, hb.now, hb.paused, hstarted]
      simp [StateCycle.beginRest]
    · intro _
      dsimp only
      rw [hcycle]
      exact ⟨hnonneg, hle⟩
    · intro _ hnone'
      dsimp only at hnone'
      simp [hbegan] at hnone'
    · exact hnonneg.trans hle

/-- A sleep that holds no rest leaves the cycle alone, or restarts the awake stretch when it
completes. -/
theorem Turns.cycle_other (ht : Turns config s s' i task pc) (hsited : Sited s)
    (hi : s.tasks[i]? = some task) (hholds : s.holds task = false) :
    s'.cycle = s.cycle ∨ s.cycle.phase = .awake ∧ s'.cycle = s.cycle.reset s.now := by
  have hrecycles := ht.cycle
  rw [hholds] at hrecycles
  generalize s'.cycle = cycle at hrecycles
  cases hrecycles with
  | same => exact .inl rfl
  | cut _ _ hheld => cases hheld
  | ended _ hfrom =>
    rcases hfrom with hheld | hfrom
    · cases hheld
    · rw [hsited.holding i task hi hfrom] at hholds
      cases hholds
  | completed _ hawake => exact .inr ⟨hawake, rfl⟩

/-- A turn of a sleep that holds no rest. -/
theorem Resting.turns_other (h : Resting config w) (hx : Exclusive w.sleep) (hsited : Sited w.sleep)
    (hi : w.sleep.tasks[i]? = some task) (hin : task.pc.inPipeline = true)
    (hsite : task.site.cycleRest = false)
    (hholds : w.sleep.holds task = false) (ht : Turns config w.sleep s' i task pc) :
    Resting config (w.follow (.resume i outcome) s') := by
  -- The one coroutine in the pipeline holds none, so none is in hand.
  have hnone : w.sleep.cycle.restBegan = none := by
    by_contra hne
    obtain ⟨j, other, hj, hrests⟩ := h.running hne
    obtain rfl := hx.unique hi hj hin hrests.inPipeline
    rw [hi] at hj
    cases hj
    rw [hrests.cycleRest] at hsite
    cases hsite
  have hcycle := ht.cycle_other hsited hi hholds
  have hsame : s'.cycle.phase = w.sleep.cycle.phase ∧
    s'.cycle.restBegan = w.sleep.cycle.restBegan := by
    rcases hcycle with hcycle | ⟨hawake, hcycle⟩
    · rw [hcycle]
      exact ⟨rfl, rfl⟩
    · rw [hcycle, hawake]
      exact ⟨rfl, rfl⟩
  rw [follow_resume (.inl hsame.2) hsame.1]
  refine h.frame (tasks_set_iff hi ht.tasks (not_rests_of_site hsite) (not_rests_of_site hsite))
    hsame.1 hsame.2 ht.now ht.paused ?_ ⟨rfl, rfl⟩
  intro hresting
  rcases hcycle with hcycle | ⟨hawake, -⟩
  · dsimp only
    rw [hcycle]
    exact ⟨rfl, rfl, rfl⟩
  · rw [hresting] at hawake
    cases hawake

/-- The coroutines of which one has moved: the one in the pipeline, and those out of it. -/
theorem rests_set (hx : Exclusive s) (hi : s.tasks[i]? = some task)
    (hin : task.pc.inPipeline = true) (htasks : s'.tasks = s.tasks.set i task') {j : ℕ}
    {other : Task} (hj : s'.tasks[j]? = some other)
    (hrests : Rests other) : j = i ∧ other = task' := by
  rw [htasks] at hj
  rcases getElem?_set_cases hj with ⟨hij, hj⟩ | ⟨hij, heq⟩
  · exact absurd (hx.unique hi hj hin hrests.inPipeline) hij
  · exact ⟨hij.symm, heq⟩

/-- No coroutine holds a rest, though one may have been cut. -/
theorem Resting.unheld (hnone : ∀ (i : ℕ) task, w.sleep.tasks[i]? = some task → ¬ Rests task)
    (hbegan : w.sleep.cycle.restBegan = none)
    (hspent : w.sleep.cycle.phase = .resting →
      (0 ≤ w.sleep.cycle.restSpentS ∧ w.sleep.cycle.restSpentS ≤ w.earlier) ∧ w.part = 0)
    (hnonneg : 0 ≤ w.earlier) : Resting config w := by
  constructor
  · exact fun i task hi hrests => absurd hrests (hnone i task hi)
  · exact fun i task hi hrests => absurd hrests (hnone i task hi)
  · exact fun i task hi hrests => absurd hrests (hnone i task hi)
  · exact fun hne => absurd hbegan hne
  · intro _ began hsome
    rw [hbegan] at hsome
    cases hsome
  · exact fun hresting => (hspent hresting).1
  · exact fun hresting _ => (hspent hresting).2
  · exact hnonneg

theorem unspent_of_rested (h : pc.rested = true) :
    pc.unspent = false ∧ ∀ exn resumable, pc ≠ .abortPublish exn resumable := by
  cases pc <;> simp_all [Pc.rested, Pc.unspent]

/-- The rest in hand is cut: it keeps its remainder if it was cancelled, and is over if it
failed. -/
theorem Resting.cut (h : Resting config w) (hi : w.sleep.tasks[i]? = some task)
    (hrests : Rests task) (hnone : ∀ (j : ℕ) other, s'.tasks[j]? = some other → ¬ Rests other)
    {exn : Exn}
    (hcycle : s'.cycle = w.sleep.cycle.cut exn w.sleep.now w.sleep.paused) :
    Resting config (w.follow (.resume i outcome) s') := by
  have hbegan := h.began i task hi hrests
  have hearlier := h.nonneg
  have hpart := le_max_left 0 w.part
  cases hphase : w.sleep.cycle.phase with
  | awake =>
    have hcut := hcycle.trans (StateCycle.cut_awake hphase exn w.sleep.now w.sleep.paused)
    rw [follow_resume (.inr ⟨hphase, by rw [hcut]⟩) (by rw [hcut])]
    refine .unheld hnone (by dsimp only; rw [hcut]) (fun hresting => ?_) hearlier
    rw [hcut, hphase] at hresting
    cases hresting
  | resting =>
    cases exn with
    | cancelled =>
      have hcut := hcycle.trans (StateCycle.cut_cancelled hphase hbegan w.sleep.now w.sleep.paused)
      have hfollow : w.follow (.resume i outcome) s' =
          { w with sleep := s', earlier := w.earlier + max 0 w.part, part := 0 } := by
        unfold Watched.follow
        dsimp only
        rw [if_neg (by simp [hbegan]), if_neg (by simp [hcut, hphase]),
          if_pos ⟨by simp [hbegan], by rw [hcut], by rw [hcut]; exact hphase⟩]
      rw [hfollow]
      refine .unheld hnone (by dsimp only; rw [hcut]) (fun _ => ⟨⟨?_, ?_⟩, rfl⟩)
        (add_nonneg hearlier hpart)
      · dsimp only
        rw [hcut]
        exact le_max_left _ _
      · dsimp only
        rw [hcut]
        exact h.restElapsed_le hphase hbegan
    | failure =>
      have hcut := hcycle.trans (StateCycle.cut_failure hphase w.sleep.now w.sleep.paused)
      have hfollow : w.follow (.resume i outcome) s' =
          { w with sleep := s', counted := {}, since := {} } := by
        unfold Watched.follow
        dsimp only
        rw [if_neg (by simp [hbegan]), if_pos ⟨hphase, by rw [hcut]; rfl⟩]
      rw [hfollow]
      refine .unheld hnone (by dsimp only; rw [hcut]) (fun hresting => ?_) hearlier
      dsimp only at hresting
      rw [hcut] at hresting
      cases hresting

/-- The hold of the rest in hand ends: it has run its length. -/
theorem Resting.ended (h : Resting config w) (hi : w.sleep.tasks[i]? = some task)
    (hrests : Rests task) (hunspent : task.pc.unspent = true) {task' : Task}
    (hself : s'.tasks[i]? = some task')
    (hrests' : Rests task') (hstarted : task'.restStarted = task.restStarted)
    (hrested : task'.pc.rested = true)
    (honly : ∀ (j : ℕ) other, s'.tasks[j]? = some other → Rests other → other = task')
    (hcycle : s'.cycle = w.sleep.cycle.reset w.sleep.now)
    (hfull : config.restS ≤ w.sleep.cycle.restElapsed w.sleep.now w.sleep.paused task.restStarted) :
    Resting config (w.follow (.resume i outcome) s') := by
  have hbegan := h.began i task hi hrests
  have hphase := h.unspent i task hi hrests hunspent
  have hbegan' : s'.cycle.restBegan = some task.restStarted := by
    rw [hcycle]
    exact hbegan
  have hawake : s'.cycle.phase = .awake := by
    rw [hcycle]
    rfl
  have hfollow : w.follow (.resume i outcome) s' =
      { w with sleep := s', counted := {}, since := {} } := by
    unfold Watched.follow
    dsimp only
    rw [if_neg (by simp [hbegan]), if_pos ⟨hphase, hawake⟩]
  have hvacuous {P : Prop} (hresting : s'.cycle.phase = .resting) : P := by
    rw [hawake] at hresting
    cases hresting
  rw [hfollow]
  constructor
  · intro j other hj hother
    rw [honly j other hj hother, hstarted]
    exact hbegan'
  · intro j other hj hother hpc
    rw [honly j other hj hother, (unspent_of_rested hrested).1] at hpc
    cases hpc
  · exact fun j other hj hother _ => ⟨hawake, hfull.trans (h.restElapsed_le hphase hbegan)⟩
  · exact fun _ => ⟨i, task', hself, hrests'⟩
  · exact fun hresting => hvacuous hresting
  · exact fun hresting => hvacuous hresting
  · exact fun hresting => hvacuous hresting
  · exact h.nonneg

/-- A turn of a sleep that holds the rest in hand. -/
theorem Resting.turns (h : Resting config w) (hx : Exclusive w.sleep)
    (hi : w.sleep.tasks[i]? = some task) (hrests : Rests task) (hholds : w.sleep.holds task = true)
    (hpc : pc.inPipeline = true)
    (ht : Turns config w.sleep s' i task pc) :
    Resting config (w.follow (.resume i outcome) s') := by
  have hbegan := h.began i task hi hrests
  have hself : s'.tasks[i]? = some { task with pc := pc } := by
    rw [ht.tasks, List.getElem?_set_self (List.getElem?_eq_some_iff.1 hi).1]
  have honly {j : ℕ} {other : Task} (hj : s'.tasks[j]? = some other) (hother : Rests other) :
      other = { task with pc := pc } :=
    (rests_set hx hi hrests.inPipeline ht.tasks hj hother).2
  have hrecycles := ht.cycle
  rw [hholds] at hrecycles
  generalize hto : s'.cycle = cycle at hrecycles
  cases hrecycles with
  | same hstage =>
    obtain ⟨hlive, hunspent, hrested⟩ := hstage rfl
    rw [follow_resume (.inl (by rw [hto])) (by rw [hto])]
    constructor
    · intro j other hj hother
      rw [honly hj hother]
      dsimp only
      rw [hto]
      exact hbegan
    · intro j other hj hother hpc'
      rw [honly hj hother] at hpc'
      dsimp only
      rw [hto]
      exact h.unspent i task hi hrests (hunspent hpc')
    · intro j other hj hother hpc'
      rw [honly hj hother] at hpc'
      dsimp only
      rw [hto]
      exact h.rested i task hi hrests (hrested hpc')
    · exact fun _ => ⟨i, _, hself, hpc, hrests.cycleRest, hlive⟩
    · dsimp only
      rw [hto, ht.now, ht.paused]
      exact h.reading
    · dsimp only
      rw [hto]
      exact h.spent
    · dsimp only
      rw [hto]
      exact h.parted
    · exact h.nonneg
  | cut exn resumable _ =>
    refine h.cut hi hrests (fun j other hj hother => ?_) hto
    rw [honly hj hother] at hother
    exact hother.live exn resumable rfl
  | ended hrested _ hunspent hfull =>
    exact h.ended hi hrests hunspent hself ⟨hpc, hrests.cycleRest,
      (unspent_of_rested hrested).2⟩ rfl hrested (fun j other hj hother =>
        honly hj hother) hto hfull
  | completed hother => cases hother

/-- A sleep ends. -/
theorem Resting.ends (h : Resting config w) (hx : Exclusive w.sleep)
    (hi : w.sleep.tasks[i]? = some task) (hin : task.pc.inPipeline = true)
    (hlast : task.pc = .completedPublish ∨ ∃ exn resumable, task.pc = .abortPublish exn resumable)
    (he : Ends w.sleep s' i task pc) : Resting config (w.follow (.resume i outcome) s') := by
  have hout : ¬ Rests { task with pc := pc } := not_rests_of_out he.awaits.1
  have hbegan' : s'.cycle.restBegan = none := by rw [he.cycle]
  have hphase' : s'.cycle.phase = w.sleep.cycle.phase := by rw [he.cycle]
  by_cases hrests : Rests task
  · have hawake : w.sleep.cycle.phase = .awake := by
      rcases hlast with hpc | ⟨exn, resumable, hpc⟩
      · exact (h.rested i task hi hrests (by rw [hpc]; rfl)).1
      · exact absurd hpc (hrests.live exn resumable)
    rw [follow_resume (.inr ⟨hawake, hbegan'⟩) hphase']
    refine .unheld (fun j other hj hother => ?_) hbegan' (fun hresting => ?_) h.nonneg
    · obtain ⟨-, rfl⟩ := rests_set hx hi hin he.tasks hj hother
      exact hout hother
    · rw [show s'.cycle.phase = .resting from hresting, hawake] at hphase'
      cases hphase'
  · have hnone : w.sleep.cycle.restBegan = none := by
      by_contra hne
      obtain ⟨j, other, hj, hother⟩ := h.running hne
      obtain rfl := hx.unique hi hj hin hother.inPipeline
      rw [hi] at hj
      cases hj
      exact hrests hother
    rw [follow_resume (.inl (hbegan'.trans hnone.symm)) hphase']
    refine h.frame (tasks_set_iff hi he.tasks hrests hout) hphase' (hbegan'.trans hnone.symm) he.now
      he.paused (fun _ => ?_) ⟨rfl, rfl⟩
    dsimp only
    rw [he.cycle]
    exact ⟨rfl, rfl, rfl⟩

/-- The rest in hand where the cycle stands. -/
theorem Resting.steady (h : Resting config w) (hs : Steady w.sleep w'.sleep)
    (htasks : ∀ (i : ℕ) task, Rests task → (w'.sleep.tasks[i]? = some task ↔
      w.sleep.tasks[i]? = some task))
    (hghost : w'.earlier = w.earlier ∧ w'.part = w.part) : Resting config w' := by
  refine h.frame htasks ?_ ?_ hs.now hs.paused (fun _ => ?_) hghost
  · rw [hs.cycle]
  · rw [hs.cycle]
  · rw [hs.cycle]
    exact ⟨rfl, rfl, rfl⟩

theorem follow_other (h : m.timed = false) : w.follow m s' = { w with sleep := s' } := by
  cases m <;> simp_all [Move.timed, Watched.follow]

theorem follow_poll (w : Watched) (s' : Sleep) (developing : Option Bool) (due : Bool) :
    (w.follow (.poll developing due) s').sleep = s' ∧
      (w.follow (.poll developing due) s').earlier = w.earlier ∧
      (w.follow (.poll developing due) s').part = w.part := by
  unfold Watched.follow
  dsimp only
  split <;> exact ⟨rfl, rfl, rfl⟩

theorem Resting.moved (h : Resting config w) (hx : Exclusive w.sleep) (hsited : Sited w.sleep)
    (hstarts : Starting config w) (hc : Clocked config w.sleep s' m) (hdevelops : Develops m) :
    Resting config (w.follow m s') := by
  cases hc with
  | advance _ hfrozen hnext => exact h.advance hfrozen hnext rfl rfl
  | @poll developing due hnext =>
    obtain rfl := hdevelops.1 developing due rfl
    obtain ⟨hpolls, hframe⟩ := polls_maintenancePollOnce config w.sleep due
    rw [← hnext] at hpolls hframe
    obtain ⟨hsleep, hearlier, hpart⟩ := follow_poll w s' (some true) due
    obtain ⟨gain, -, htick, -⟩ := tick_eq w.sleep.cycle w.sleep.asleep w.sleep.now w.sleep.paused
    cases hpolls with
    | quiet htasks _ hcycle =>
      rw [htick] at hcycle
      refine h.frame ?_ ?_ ?_ ?_ ?_ ?_ ⟨hearlier, hpart⟩
      · intro i task _
        rw [hsleep, htasks]
      all_goals rw [hsleep]
      · rw [hcycle]
      · rw [hcycle]
      · exact hframe.now
      · exact hframe.paused
      · intro _
        rw [hcycle]
        exact ⟨rfl, rfl, rfl⟩
    | starts _ _ htasks _ hcycle =>
      rw [htick] at hcycle
      refine h.frame ?_ ?_ ?_ ?_ ?_ ?_ ⟨hearlier, hpart⟩
      · rw [hsleep]
        exact tasks_concat_iff htasks (not_rests_of_out rfl)
      all_goals rw [hsleep]
      · rw [hcycle]
      · rw [hcycle]
      · exact hframe.now
      · exact hframe.paused
      · intro _
        rw [hcycle]
        exact ⟨rfl, rfl, rfl⟩
  | idle hm hsteady htasks =>
    rw [follow_other hm]
    exact h.steady hsteady (fun i task _ => by dsimp only; rw [htasks]) ⟨rfl, rfl⟩
  | created hm hsteady _ _ htasks =>
    rw [follow_other hm]
    exact h.steady hsteady (tasks_concat_iff htasks (not_rests_of_out rfl)) ⟨rfl, rfl⟩
  | began hi hpc hbegins => exact h.begins hx hsited hstarts hi hpc hbegins
  | @stayed i task outcome pc hi hpc _ hstays =>
    rw [follow_resume (.inl (by rw [hstays.steady.cycle])) (by rw [hstays.steady.cycle])]
    exact h.steady hstays.steady (tasks_set_iff hi hstays.tasks (not_rests_of_out hpc.1)
      (not_rests_of_out hstays.awaits.1)) ⟨rfl, rfl⟩
  | @turned i task outcome pc hi hin hpc hlive _ _ _ _ hturns =>
    have hholds := hsited.holds_eq hi (ne_done_of_inPipeline hin)
    cases hsite : task.site.cycleRest with
    | false => exact h.turns_other hx hsited hi hin hsite (hholds.trans hsite) hturns
    | true => exact h.turns hx hi ⟨hin, hsite, hlive⟩ (hholds.trans hsite) hpc hturns
  | ended hi hin hlast hends => exact h.ends hx hi hin hlast hends
  | called hbegins =>
    rw [follow_other rfl]
    refine h.steady ⟨hbegins.now, hbegins.paused, hbegins.other rfl⟩ (fun j other hother => ?_)
      ⟨rfl, rfl⟩
    exact (tasks_set_iff (getElem?_withDirect w.sleep) hbegins.tasks not_rests_direct
      not_rests_direct j other hother).trans (tasks_concat_iff rfl not_rests_direct j other hother)
  | missed hstays =>
    rw [follow_other rfl]
    obtain ⟨hnow, hpaused, hcycle⟩ := hstays.steady
    refine h.steady ⟨hnow, hpaused, hcycle⟩ (fun j other hother => ?_) ⟨rfl, rfl⟩
    exact (tasks_set_iff (getElem?_withDirect w.sleep) hstays.tasks not_rests_direct
      not_rests_direct j other hother).trans (tasks_concat_iff rfl not_rests_direct j other hother)

end Kaine.Sleep
